import Mathlib

namespace Agar.Lib

/-!
# Scans over memory

Pointers into some memory are moved over cells, forwards and backwards, until a
cell stops them.  Nothing stops a pointer at the ends of the memory: a scan that
reaches one has no result.
-/

variable {β : Type} {memory front text gap rest : List β} {b null : β}

/-- The first position from `i` on whose cell stops a scan. -/
def scan (stop : β → Bool) (memory : List β) (i : Nat) : Option Nat :=
  ((memory.drop i).findIdx? stop).map (i + ·)

/-- The position behind the last cell before `i` that is not blank. -/
def scanBack (blank : β → Bool) (memory : List β) : Nat → Option Nat
  | 0 => none
  | i + 1 =>
    match memory[i]? with
    | none => none
    | some b => if blank b then scanBack blank memory i else some (i + 1)

/--
The memory in which the blank cells directly before `i` are overwritten, up to
one that is not blank.
-/
def clearBack (blank : β → Bool) (null : β) (memory : List β) : Nat → Option (List β)
  | 0 => none
  | i + 1 =>
    match memory[i]? with
    | none => none
    | some b => if blank b then clearBack blank null (memory.set i null) i else some memory

theorem scan_eq {stop : β → Bool} (clear : ∀ x ∈ text, stop x = false) (stops : stop b = true) :
    scan stop (front ++ text ++ b :: rest) front.length = some (front.length + text.length) := by
  have found : (text ++ b :: rest).findIdx? stop = some text.length := by
    rw [List.findIdx?_append, List.findIdx?_eq_none_iff.mpr clear, List.findIdx?_cons, if_pos stops]
    exact congrArg some (Nat.zero_add text.length)
  rw [scan, List.append_assoc, List.drop_left, found]
  rfl

theorem getElem?_behind (front rest : List β) (b : β) :
    (front ++ b :: rest)[front.length]? = some b := by
  simp

theorem scanBack_eq {blank : β → Bool} (gapBlank : ∀ x ∈ gap, blank x = true)
    (edge : blank b = false) :
    scanBack blank (front ++ b :: gap ++ rest) (front.length + 1 + gap.length) =
      some (front.length + 1) := by
  induction gap using List.reverseRecOn generalizing rest with
  | nil =>
    rw [List.append_assoc, List.length_nil, Nat.add_zero, scanBack,
      List.cons_append, getElem?_behind]
    exact if_neg (Bool.eq_false_iff.mp edge)
  | append_singleton gap x ih =>
    obtain ⟨earlier, last⟩ := List.forall_mem_append.mp gapBlank
    have regrouped : front ++ b :: (gap ++ [x]) ++ rest = front ++ b :: gap ++ x :: rest := by simp
    have place : front.length + 1 + gap.length = (front ++ b :: gap).length := by
      rw [List.length_append, List.length_cons]
      omega
    rw [List.length_append, List.length_singleton, ← Nat.add_assoc, scanBack,
      regrouped, place, getElem?_behind, ← place]
    dsimp only
    rw [if_pos (last x (List.mem_singleton.mpr rfl))]
    exact ih earlier

theorem scanBack_none {blank : β → Bool} (gapBlank : ∀ x ∈ gap, blank x = true) :
    scanBack blank (gap ++ rest) gap.length = none := by
  induction gap using List.reverseRecOn generalizing rest with
  | nil => rfl
  | append_singleton gap x ih =>
    obtain ⟨earlier, last⟩ := List.forall_mem_append.mp gapBlank
    rw [List.length_append, List.length_singleton, scanBack,
      List.append_assoc, List.singleton_append, getElem?_behind]
    dsimp only
    rw [if_pos (last x (List.mem_singleton.mpr rfl))]
    exact ih earlier

theorem set_behind (front rest : List β) (b null : β) :
    (front ++ b :: rest).set front.length null = front ++ null :: rest := by
  simp

theorem clearBack_eq {blank : β → Bool} (gapBlank : ∀ x ∈ gap, blank x = true)
    (edge : blank b = false) :
    clearBack blank null (front ++ b :: gap ++ rest) (front.length + 1 + gap.length) =
      some (front ++ b :: List.replicate gap.length null ++ rest) := by
  induction gap using List.reverseRecOn generalizing rest with
  | nil =>
    rw [List.append_assoc, List.length_nil, Nat.add_zero, clearBack,
      List.cons_append, getElem?_behind]
    dsimp only
    rw [if_neg (Bool.eq_false_iff.mp edge), List.append_assoc]
    rfl
  | append_singleton gap x ih =>
    obtain ⟨earlier, last⟩ := List.forall_mem_append.mp gapBlank
    have regrouped : front ++ b :: (gap ++ [x]) ++ rest = front ++ b :: gap ++ x :: rest := by simp
    have place : front.length + 1 + gap.length = (front ++ b :: gap).length := by
      rw [List.length_append, List.length_cons]
      omega
    rw [List.length_append, List.length_singleton, ← Nat.add_assoc, clearBack,
      regrouped, place, getElem?_behind, set_behind, ← place]
    dsimp only
    rw [if_pos (last x (List.mem_singleton.mpr rfl)), ih earlier, List.replicate_succ']
    simp

theorem clearBack_none {blank : β → Bool} (gapBlank : ∀ x ∈ gap, blank x = true) :
    clearBack blank null (gap ++ rest) gap.length = none := by
  induction gap using List.reverseRecOn generalizing rest with
  | nil => rfl
  | append_singleton gap x ih =>
    obtain ⟨earlier, last⟩ := List.forall_mem_append.mp gapBlank
    rw [List.length_append, List.length_singleton, clearBack,
      List.append_assoc, List.singleton_append, getElem?_behind, set_behind]
    dsimp only
    rw [if_pos (last x (List.mem_singleton.mpr rfl))]
    exact ih earlier

theorem blank_or_edge (blank : β → Bool) (text : List β) :
    ((∀ x ∈ text, blank x = true) ∧ text.rdropWhile blank = []) ∨
      ∃ (front : List β) (b : β) (gap : List β), text = front ++ b :: gap ∧ blank b = false ∧
        (∀ x ∈ gap, blank x = true) ∧ text.rdropWhile blank = front ++ [b] := by
  induction text using List.reverseRecOn with
  | nil => exact .inl ⟨fun x member => absurd member List.not_mem_nil, List.rdropWhile_nil _⟩
  | append_singleton text x ih =>
    cases isBlank : blank x with
    | false =>
      refine .inr ⟨text, x, [], rfl, isBlank, ?_, ?_⟩
      · exact fun y member => absurd member List.not_mem_nil
      · rw [List.rdropWhile_concat_neg _ _ _ (Bool.eq_false_iff.mp isBlank)]
    | true =>
      rw [List.rdropWhile_concat_pos _ _ _ isBlank]
      obtain ⟨allBlank, empty⟩ | ⟨front, b, gap, same, edge, gapBlank, rest⟩ := ih
      · refine .inl ⟨?_, empty⟩
        exact List.forall_mem_append.mpr ⟨allBlank, List.forall_mem_singleton.mpr isBlank⟩
      · refine .inr ⟨front, b, gap ++ [x], ?_, edge, ?_, rest⟩
        · rw [same, List.append_assoc, List.cons_append]
        · exact List.forall_mem_append.mpr ⟨gapBlank, List.forall_mem_singleton.mpr isBlank⟩

end Agar.Lib
