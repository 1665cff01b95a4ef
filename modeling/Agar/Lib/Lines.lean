import Mathlib

namespace Agar.Lib

/-!
# Lines of a flat text

A text that is the lines of a list one after the other, and the offsets at
which they start.
-/

variable {β : Type}

/-- The offsets at which lines start, the first at a given one. -/
def offsets : Nat → List (List β) → List Nat
  | _, [] => []
  | start, line :: rest => start :: offsets (start + line.length) rest

@[simp] theorem offsets_nil (start : Nat) : offsets start ([] : List (List β)) = [] := rfl

theorem offsets_cons (start : Nat) (line : List β) (rest : List (List β)) :
    offsets start (line :: rest) = start :: offsets (start + line.length) rest :=
  rfl

@[simp] theorem length_offsets (start : Nat) (lines : List (List β)) :
    (offsets start lines).length = lines.length := by
  induction lines generalizing start with
  | nil => rfl
  | cons line rest ih => rw [offsets_cons, List.length_cons, ih, List.length_cons]

theorem offsets_append (start : Nat) (front back : List (List β)) : offsets start (front ++ back) =
      offsets start front ++ offsets (start + front.flatten.length) back := by
  induction front generalizing start with
  | nil => rfl
  | cons line rest ih =>
    rw [List.cons_append, offsets_cons, ih, offsets_cons,
      List.cons_append, List.flatten_cons, List.length_append,
      Nat.add_assoc]

/-- A text that ends with its only ending. -/
def IsLine (ending : β) (line : List β) : Prop := ∃ text, ending ∉ text ∧ line = text ++ [ending]

theorem IsLine.ne_nil {ending : β} {line : List β} (isLine : IsLine ending line) : line ≠ [] := by
  obtain ⟨text, _, rfl⟩ := isLine
  exact List.append_ne_nil_of_right_ne_nil _ (List.cons_ne_nil _ _)

theorem first_unique {element : β} {before other rest more : List β} (notBefore : element ∉ before)
    (notOther : element ∉ other) (same : before ++ element :: rest = other ++ element :: more) :
    before = other ∧ rest = more := by
  induction before generalizing other with
  | nil =>
    cases other with
    | nil => exact ⟨rfl, (List.cons.inj same).2⟩
    | cons head other =>
      cases (List.cons.inj same).1
      exact absurd List.mem_cons_self notOther
  | cons head before ih =>
    cases other with
    | nil =>
      cases (List.cons.inj same).1
      exact absurd List.mem_cons_self notBefore
    | cons otherHead other =>
      obtain ⟨rfl, tails⟩ := List.cons.inj same
      obtain ⟨rfl, rest⟩ :=
        ih (List.not_mem_of_not_mem_cons notBefore) (List.not_mem_of_not_mem_cons notOther) tails
      exact ⟨rfl, rest⟩

end Agar.Lib
