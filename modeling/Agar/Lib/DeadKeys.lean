import Mathlib.Data.List.Basic

namespace Agar.Lib

/-!
# Dead keys

Some characters wait for the character behind them, with which they combine
to a third one.  What is inserted where the two do not combine is a parameter:
a waiting character itself, or what a program puts in its place.
-/

/-- The characters that wait, and what pairs of characters combine to -/
structure DeadKeys (α : Type*) where
  combine : α → α → Option α
  waits : α → Bool

namespace DeadKeys

section

variable {α : Type*} (keys : DeadKeys α)

/--
What is inserted for characters that are typed, behind one that waits or none,
where `instead` stands for a waiting character that does not combine
-/
def composed (instead : α → α) : Option α → List α → List α
  | _, [] => []
  | none, c :: rest =>
    if keys.waits c then composed instead (some c) rest else c :: composed instead none rest
  | some waiting, c :: rest =>
    match keys.combine waiting c with
    | some result => result :: composed instead none rest
    | none => instead waiting :: c :: composed instead none rest

/-- Each character that waits combines with the one behind it, if there is one. -/
def EachCombines : Option α → List α → Prop
  | _, [] => True
  | none, c :: rest => if keys.waits c then EachCombines (some c) rest else EachCombines none rest
  | some waiting, c :: rest => (keys.combine waiting c).isSome ∧ EachCombines none rest

variable {keys} {instead other : α → α} {waiting : Option α} {typed : List α}

theorem length_composed (instead other : α → α) (waiting : Option α) (typed : List α) :
    (keys.composed instead waiting typed).length = (keys.composed other waiting typed).length := by
  induction typed generalizing waiting with
  | nil => cases waiting <;> rfl
  | cons c rest ih =>
    cases waiting with
    | none =>
      unfold composed
      split
      · exact ih (some c)
      · rw [List.length_cons, List.length_cons, ih none]
    | some waiting =>
      unfold composed
      split
      · rw [List.length_cons, List.length_cons, ih none]
      · simp only [List.length_cons, ih none]

theorem composed_eq_iff (waits : ∀ c ∈ waiting, instead c ≠ other c)
    (differ : ∀ c ∈ typed, instead c ≠ other c) :
    keys.composed instead waiting typed = keys.composed other waiting typed ↔
      keys.EachCombines waiting typed := by
  induction typed generalizing waiting with
  | nil => cases waiting <;> exact iff_of_true rfl trivial
  | cons c rest ih =>
    obtain ⟨first, others⟩ := List.forall_mem_cons.mp differ
    have behind := @ih none (fun _ none => absurd none (Option.not_mem_none _)) others
    cases waiting with
    | none =>
      unfold composed EachCombines
      split
      · exact ih (fun d same => Option.some_inj.mp same ▸ first) others
      · rw [List.cons_inj_right]
        exact behind
    | some waiting =>
      unfold composed EachCombines
      cases combined : keys.combine waiting c with
      | some result =>
        simp only [List.cons_inj_right, Option.isSome_some, true_and]
        exact behind
      | none => simp [waits waiting rfl]

theorem forall_mem_composed {P : α → Prop}
    (result : ∀ first second c, keys.combine first second = some c → P c)
    (itself : ∀ c, P c → P (instead c)) (waits : ∀ c ∈ waiting, P c) (holds : ∀ c ∈ typed, P c) :
    ∀ c ∈ keys.composed instead waiting typed, P c := by
  induction typed generalizing waiting with
  | nil => cases waiting <;> exact fun _ none => absurd none List.not_mem_nil
  | cons c rest ih =>
    obtain ⟨first, others⟩ := List.forall_mem_cons.mp holds
    have behind := @ih none (fun _ none => absurd none (Option.not_mem_none _)) others
    cases waiting with
    | none =>
      unfold composed
      split
      · exact ih (fun d same => Option.some_inj.mp same ▸ first) others
      · exact List.forall_mem_cons.mpr ⟨first, behind⟩
    | some waiting =>
      unfold composed
      cases combined : keys.combine waiting c with
      | some combination =>
        exact List.forall_mem_cons.mpr ⟨result waiting c combination combined, behind⟩
      | none =>
        exact List.forall_mem_cons.mpr
          ⟨itself waiting (waits waiting rfl), List.forall_mem_cons.mpr ⟨first, behind⟩⟩

end

end DeadKeys

end Agar.Lib
