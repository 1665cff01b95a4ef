import Mathlib

namespace Agar.Lib

/-!
# Segments in a row

Segments of a line that are placed one after the other, with a gap between
them, from their sizes.
-/

/-- A part of a line -/
structure Segment where
  start : Int
  size : Int
  deriving Repr, DecidableEq

namespace Segment

/-- The place after a segment -/
def stop (segment : Segment) : Int := segment.start + segment.size

end Segment

/-- Segments of some sizes, with a gap between them -/
def row (gap : Int) : Int → List Int → List Segment
  | _, [] => []
  | start, size :: rest => ⟨start, size⟩ :: row gap (start + size + gap) rest

section

variable {gap start : Int} {sizes : List Int}

@[simp] theorem row_nil : row gap start [] = [] := rfl

@[simp] theorem row_cons {size : Int} : row gap start (size :: sizes) =
      ⟨start, size⟩ :: row gap (start + size + gap) sizes :=
  rfl

@[simp] theorem length_row : (row gap start sizes).length = sizes.length := by
  induction sizes generalizing start with
  | nil => rfl
  | cons size rest ih => rw [row_cons, List.length_cons, List.length_cons, ih]

@[simp] theorem map_size_row : (row gap start sizes).map Segment.size = sizes := by
  induction sizes generalizing start with
  | nil => rfl
  | cons size rest ih => rw [row_cons, List.map_cons, ih]

theorem head?_row : (row gap start sizes).head?.map Segment.start =
      sizes.head?.map fun _ => start := by
  cases sizes <;> rfl

theorem isChain_row : (row gap start sizes).IsChain fun first second =>
      second.start = first.stop + gap := by
  induction sizes generalizing start with
  | nil => exact List.isChain_nil
  | cons size rest ih =>
    rw [row_cons, List.isChain_cons]
    refine ⟨?_, ih⟩
    intro second isSecond
    cases rest with
    | nil => simp at isSecond
    | cons next others =>
      simp only [row_cons, List.head?_cons, Option.mem_def, Option.some_inj] at isSecond
      rw [← isSecond]
      rfl

theorem row_append {others : List Int} : row gap start (sizes ++ others) = row gap start sizes ++
        row gap (start + sizes.sum + gap * sizes.length) others := by
  induction sizes generalizing start with
  | nil => simp
  | cons size rest ih =>
    rw [List.cons_append, row_cons, row_cons, List.cons_append, ih, List.sum_cons, List.length_cons]
    congr 3
    push_cast
    ring

theorem stop_last_row {last : Int} {segment : Segment}
    (isLast : segment ∈ (row gap start (sizes ++ [last])).getLast?) :
    segment.start = start + sizes.sum + gap * sizes.length ∧ segment.size = last := by
  rw [row_append, row_cons, row_nil, List.getLast?_append_of_ne_nil _ (by simp),
    List.getLast?_singleton, Option.mem_def, Option.some_inj] at isLast
  rw [← isLast]
  exact ⟨rfl, rfl⟩

theorem dropLast_row {last : Int} :
    (row gap start (sizes ++ [last])).dropLast = row gap start sizes := by
  rw [row_append, row_cons, row_nil, List.dropLast_concat]

theorem row_apart_iff : ((row gap start sizes).IsChain fun first second =>
        first.stop ≤ second.start ∧ first.stop + gap ≤ second.start) ↔
      sizes.length ≤ 1 ∨ 0 ≤ gap := by
  constructor
  · intro apart
    rcases sizes with _ | ⟨first, _ | ⟨second, rest⟩⟩
    · exact .inl (Nat.zero_le 1)
    · exact .inl (Nat.le_refl 1)
    · rw [row_cons, row_cons, List.isChain_cons_cons] at apart
      obtain ⟨⟨behind, -⟩, -⟩ := apart
      rw [Segment.stop] at behind
      dsimp only at behind
      exact .inr (by omega)
  · rintro (few | spaced)
    · rcases sizes with _ | ⟨first, _ | ⟨second, rest⟩⟩
      · exact List.isChain_nil
      · exact List.isChain_singleton _
      · rw [List.length_cons, List.length_cons] at few
        omega
    · refine isChain_row.imp fun first second next => ?_
      rw [next]
      omega

theorem row_between_iff {low high : Int} (some : sizes ≠ []) (nonneg : ∀ size ∈ sizes, 0 ≤ size)
    (spaced : sizes.length ≤ 1 ∨ 0 ≤ gap) :
    (∀ segment ∈ row gap start sizes, low ≤ segment.start ∧ segment.stop ≤ high) ↔
      low ≤ start ∧ start + sizes.sum + gap * sizes.length ≤ high + gap := by
  induction sizes generalizing start with
  | nil => exact absurd rfl some
  | cons size rest ih =>
    obtain ⟨first, others⟩ := List.forall_mem_cons.mp nonneg
    rw [row_cons, List.forall_mem_cons, Segment.stop, List.sum_cons, List.length_cons]
    push_cast
    rw [mul_add, mul_one]
    cases rest with
    | nil => simp
    | cons next rest =>
      have positive : 0 ≤ gap := by
        rw [List.length_cons, List.length_cons] at spaced
        omega
      have sum : 0 ≤ (next :: rest).sum := List.sum_nonneg others
      have gaps : 0 ≤ gap * rest.length := mul_nonneg positive (Int.natCast_nonneg _)
      rw [ih (List.cons_ne_nil next rest) others (.inr positive), List.length_cons]
      push_cast
      rw [mul_add, mul_one]
      omega

end

end Agar.Lib
