import Mathlib

namespace Agar.Lib

/-!
# Places in a circle

The places `0, …, n - 1` in a circle, and steps from one to its neighbours.  A
step back undoes a step ahead, and `n` steps ahead come to every place once.
-/

/-- The place after another one, or before it -/
def turn (n : Nat) (reverse : Bool) (i : Nat) : Nat :=
  if reverse then
    if i = 0 then n - 1 else i - 1
  else
    if i + 1 < n then i + 1 else 0

section Turn

variable {n i : Nat}

theorem turn_lt (inside : i < n) (reverse : Bool) : turn n reverse i < n := by
  unfold turn
  cases reverse <;> simp only [Bool.false_eq_true, if_true, if_false] <;>
    split_ifs <;> omega

theorem turn_turn (inside : i < n) (reverse : Bool) : turn n (!reverse) (turn n reverse i) = i := by
  cases reverse with
  | false =>
    by_cases last : i + 1 < n
    · simp [turn, last]
    · simp only [turn, Bool.not_false, Bool.false_eq_true, if_true, if_false, if_neg last]
      omega
  | true =>
    by_cases first : i = 0
    · simp only [turn, Bool.not_true, Bool.false_eq_true, if_true, if_false, if_pos first]
      rw [if_neg (by omega), first]
    · simp only [turn, Bool.not_true, Bool.false_eq_true, if_true, if_false, if_neg first]
      rw [if_pos (by omega)]
      omega

theorem turn_ne (inside : i < n) (several : n ≠ 1) (reverse : Bool) : turn n reverse i ≠ i := by
  unfold turn
  cases reverse <;> simp only [Bool.false_eq_true, if_true, if_false] <;>
    split_ifs <;> omega

theorem iterate_turn (inside : i < n) (k : Nat) : (turn n false)^[k] i = (i + k) % n := by
  induction k with
  | zero => rw [Function.iterate_zero_apply, Nat.add_zero, Nat.mod_eq_of_lt inside]
  | succ k ih =>
    have below : (i + k) % n < n := Nat.mod_lt _ (by omega)
    have ahead : (i + (k + 1)) % n = ((i + k) % n + 1) % n := by rw [Nat.mod_add_mod, Nat.add_assoc]
    rw [Function.iterate_succ_apply', ih, ahead, turn, if_neg Bool.false_ne_true]
    by_cases last : (i + k) % n + 1 < n
    · rw [if_pos last, Nat.mod_eq_of_lt last]
    · have whole : (i + k) % n + 1 = n := by omega
      rw [if_neg last, whole, Nat.mod_self]

theorem existsUnique_iterate_turn {j : Nat} (inside : i < n) (place : j < n) :
    ∃! k, k < n ∧ (turn n false)^[k + 1] i = j := by
  have reached : ∀ k, k < n → (turn n false)^[k + 1] i =
          if i + (k + 1) < n then i + (k + 1) else i + (k + 1) - n := by
    intro k less
    rw [iterate_turn inside]
    by_cases wraps : i + (k + 1) < n
    · rw [if_pos wraps, Nat.mod_eq_of_lt wraps]
    · rw [if_neg wraps, Nat.mod_eq_sub_mod (by omega), Nat.mod_eq_of_lt (by omega)]
  refine ⟨if i < j then j - (i + 1) else j + n - (i + 1), ⟨?_, ?_⟩, ?_⟩
  · split_ifs <;> omega
  · rw [reached _ (by split_ifs <;> omega)]
    split_ifs <;> omega
  · rintro k ⟨less, leads⟩
    rw [reached k less] at leads
    split_ifs at leads ⊢ <;> omega

end Turn

end Agar.Lib
