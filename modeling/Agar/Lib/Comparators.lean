import Mathlib

namespace Agar.Lib

/-!
# Comparators

A comparator tells by the sign of a number how two elements are ordered.  Where
its signs are those of an order on the elements of a list, `qsort` puts them in
that order; nothing is known of it otherwise.
-/

section Comparators

variable {ε α β : Type} {cmp : α → α → Except ε Int} {le : α → α → Prop} {list : List α}

/-- The signs of a comparator are those of an order on some elements. -/
def Agrees (cmp : α → α → Except ε Int) (le : α → α → Prop) (list : List α) : Prop :=
  ∀ a ∈ list, ∀ b ∈ list, ∃ sign, cmp a b = .ok sign ∧ (sign ≤ 0 ↔ le a b) ∧ (0 ≤ sign ↔ le b a)

/-- An order is transitive on some elements. -/
def TransitiveOn (le : α → α → Prop) (list : List α) : Prop :=
  ∀ a ∈ list, ∀ b ∈ list, ∀ c ∈ list, le a b → le b c → le a c

theorem Agrees.flip (agrees : Agrees cmp le list) :
    Agrees (fun a b => cmp b a) (fun a b => le b a) list := by
  intro a inList b inListToo
  obtain ⟨sign, compared, below, above⟩ := agrees b inListToo a inList
  exact ⟨sign, compared, below, above⟩

theorem Agrees.comap (agrees : Agrees cmp le list) {elements : List β} {part : β → α}
    (parts : ∀ element ∈ elements, part element ∈ list) :
    Agrees (fun a b => cmp (part a) (part b)) (fun a b => le (part a) (part b))
      elements := by
  intro a inElements b inElementsToo
  exact agrees (part a) (parts a inElements) (part b) (parts b inElementsToo)

theorem TransitiveOn.flip (transitive : TransitiveOn le list) :
    TransitiveOn (fun a b => le b a) list := by
  intro a inList b inListToo c inListAlso below above
  exact transitive c inListAlso b inListToo a inList above below

theorem TransitiveOn.comap (transitive : TransitiveOn le list) {elements : List β} {part : β → α}
    (parts : ∀ element ∈ elements, part element ∈ list) :
    TransitiveOn (fun a b => le (part a) (part b)) elements := by
  intro a first b second c third
  exact transitive (part a) (parts a first) (part b) (parts b second) (part c) (parts c third)

theorem Agrees.total (agrees : Agrees cmp le list) {a b : α} (inList : a ∈ list)
    (inListToo : b ∈ list) : le a b ∨ le b a := by
  obtain ⟨sign, _, below, above⟩ := agrees a inList b inListToo
  exact (Int.le_total sign 0).imp below.mp above.mp

end Comparators

/-- `qsort`, by what is known of it -/
structure Qsort (ε : Type) where
  sort : ∀ {α : Type}, (α → α → Except ε Int) → List α → Except ε (List α)
  sorts : ∀ {α : Type} (cmp : α → α → Except ε Int) (le : α → α → Prop) (list : List α),
      Agrees cmp le list → TransitiveOn le list → ∃ sorted, sort cmp list = .ok sorted ∧
              sorted.Perm list ∧
              sorted.Pairwise le

namespace Qsort

variable {ε α : Type}

def before (cmp : α → α → Except ε Int) (a b : α) : Bool :=
  match cmp a b with
  | .ok sign => sign ≤ 0
  | .error _ => false

/-- `qsort` may merge. -/
def merging : Qsort ε where
  sort cmp list := .ok (list.mergeSort (before cmp))
  sorts := by
    intro α cmp le list agrees transitive
    refine ⟨_, rfl, List.mergeSort_perm _ _, ?_⟩
    have same : ∀ a ∈ list, ∀ b ∈ list, before cmp a b = true ↔ le a b := by
      intro a inList b inListToo
      obtain ⟨sign, compared, below, _⟩ := agrees a inList b inListToo
      rw [before, compared]
      exact decide_eq_true_iff.trans below
    have merged : (list.attach.mergeSort fun a b => before cmp a.val b.val).map Subtype.val =
          list.mergeSort (before cmp) := by
      rw [List.map_mergeSort (f := Subtype.val) (s := before cmp)
        fun _ _ _ _ => rfl, List.attach_map_subtype_val]
    rw [← merged, List.pairwise_map]
    refine (List.pairwise_mergeSort ?_ ?_ list.attach).imp ?_
    · intro a b c below above
      rw [same a a.2 b b.2] at below
      rw [same b b.2 c c.2] at above
      rw [same a a.2 c c.2]
      exact transitive a a.2 b b.2 c c.2 below above
    · intro a b
      rw [Bool.or_eq_true, same a a.2 b b.2, same b b.2 a a.2]
      exact agrees.total a.2 b.2
    · intro a b sorted
      exact (same a a.2 b b.2).mp sorted

theorem sort_merging_pair {cmp : α → α → Except ε Int} {a b : α} {sign : Int}
    (compared : cmp a b = .ok sign) (inOrder : sign ≤ 0) :
    Qsort.merging.sort cmp [a, b] = .ok [a, b] := by
  have first : before cmp a b = true := by
    rw [before, compared]
    exact decide_eq_true inOrder
  change Except.ok ([a, b].mergeSort (before cmp)) = _
  simp [List.mergeSort, List.MergeSort.Internal.splitInTwo, first]

end Qsort

end Agar.Lib
