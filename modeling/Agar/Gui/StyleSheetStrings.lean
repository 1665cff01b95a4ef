import Agar.Gui.StyleSheet
import Agar.Lib.Outcome

namespace Agar.Gui.StyleSheet

open Agar.Lib
open Agar.Core

/-!
# Strings in the buffer of a style sheet

What the loader reads and overwrites of a string, where some bytes are in front
of it and others behind its terminator.
-/

variable {front text gap post : List UInt8}

theorem dropWhile_stops (text post : List UInt8) : ∃ (b : UInt8) (rest : List UInt8),
      text.dropWhile isSpace ++ 0 :: post = b :: rest ∧ isSpace b = false := by
  cases left : text.dropWhile isSpace with
  | nil => exact ⟨0, post, rfl, rfl⟩
  | cons b rest =>
    refine ⟨b, rest ++ 0 :: post, rfl, ?_⟩
    have head := List.head_dropWhile_not isSpace (show text.dropWhile isSpace ≠ [] by simp [left])
    simpa [left] using head

theorem skipSpaces_eq (front text post : List UInt8) :
    skipSpaces (front ++ text ++ 0 :: post) front.length =
      .ok (front.length + (text.takeWhile isSpace).length) := by
  obtain ⟨b, rest, stops, notSpace⟩ := dropWhile_stops text post
  have regrouped : front ++ text ++ 0 :: post = front ++ text.takeWhile isSpace ++ b :: rest := by
    rw [← stops, ← List.append_assoc, List.append_assoc front (text.takeWhile _),
      List.takeWhile_append_dropWhile]
  have clear : ∀ x ∈ text.takeWhile isSpace, (!isSpace x) = false := by
    intro x member
    rw [List.mem_takeWhile_imp member]
    rfl
  rw [skipSpaces, regrouped, scan_eq clear (by rw [notSpace]; rfl)]
  rfl

theorem strlen_eq (noNul : 0 ∉ text) (front post : List UInt8) :
    strlen (front ++ text ++ 0 :: post) front.length = .ok text.length := by
  have clear : ∀ x ∈ text, decide (x = 0) = false := by
    intro x member
    exact decide_eq_false fun isNul => noNul (isNul ▸ member)
  rw [strlen, scan_eq clear (decide_eq_true rfl)]
  exact congrArg Except.ok (Nat.add_sub_cancel_left ..)

theorem stringAt_eq (noNul : 0 ∉ text) (front post : List UInt8) :
    stringAt (front ++ text ++ 0 :: post) front.length = .ok text := by
  rw [stringAt, strlen_eq noNul]
  refine congrArg Except.ok ?_
  rw [List.append_assoc, List.drop_left, List.take_left]

theorem strchr_eq {ch : UInt8} (name after front post : List UInt8) (noNul : 0 ∉ name)
    (first : ch ∉ name) :
    strchr (front ++ (name ++ ch :: after) ++ 0 :: post) front.length ch =
      .ok (some (front.length + name.length)) := by
  have regrouped : front ++ (name ++ ch :: after) ++ 0 :: post =
        front ++ name ++ ch :: (after ++ 0 :: post) := by
    simp
  have clear : ∀ x ∈ name, (decide (x = ch) || decide (x = 0)) = false := by
    intro x member
    have notCh : x ≠ ch := fun same => first (same ▸ member)
    have notNul : x ≠ 0 := fun isNul => noNul (isNul ▸ member)
    simp [notCh, notNul]
  rw [strchr, regrouped, scan_eq clear (by simp), ← List.length_append]
  change Except.ok (if (front ++ name ++ ch :: (after ++ 0 :: post))[_]? = _ then _ else _) = _
  rw [getElem?_behind, if_pos rfl]

theorem strchr_none {ch : UInt8} (nonzero : ch ≠ 0) (noNul : 0 ∉ text) (absent : ch ∉ text)
    (front post : List UInt8) : strchr (front ++ text ++ 0 :: post) front.length ch = .ok none := by
  have clear : ∀ x ∈ text, (decide (x = ch) || decide (x = 0)) = false := by
    intro x member
    have notCh : x ≠ ch := fun same => absent (same ▸ member)
    have notNul : x ≠ 0 := fun isNul => noNul (isNul ▸ member)
    simp [notCh, notNul]
  rw [strchr, scan_eq clear (by simp), ← List.length_append]
  change Except.ok (if (front ++ text ++ 0 :: post)[_]? = _ then _ else _) = _
  rw [getElem?_behind, if_neg (by simpa using Ne.symm nonzero)]

theorem strsep_none {delim : List UInt8} (noNul : 0 ∉ text) (absent : ∀ x ∈ text, x ∉ delim)
    (front post : List UInt8) :
    strsep delim (front ++ text ++ 0 :: post) front.length =
      .ok (front ++ text ++ 0 :: post, none) := by
  have clear : ∀ x ∈ text, (decide (x = 0) || decide (x ∈ delim)) = false := by
    intro x member
    have notNul : x ≠ 0 := fun isNul => noNul (isNul ▸ member)
    simp [notNul, absent x member]
  rw [strsep, scan_eq clear (by simp), ← List.length_append]
  change (if (front ++ text ++ 0 :: post)[_]? = _ then _ else _) = _
  rw [getElem?_behind, if_pos rfl]
  rfl

theorem strsep_some {delim token : List UInt8} {d : UInt8} (nonzero : d ≠ 0) (separates : d ∈ delim)
    (noNul : 0 ∉ token) (absent : ∀ x ∈ token, x ∉ delim) (front post : List UInt8) :
    strsep delim (front ++ token ++ d :: post) front.length = .ok (front ++ token ++ 0 :: post,
        some (front.length + token.length + 1)) := by
  have clear : ∀ x ∈ token, (decide (x = 0) || decide (x ∈ delim)) = false := by
    intro x member
    have notNul : x ≠ 0 := fun isNul => noNul (isNul ▸ member)
    simp [notNul, absent x member]
  rw [strsep, scan_eq clear (by simp [separates]), ← List.length_append]
  change (if (front ++ token ++ d :: post)[_]? = _ then _ else _) = _
  rw [getElem?_behind, if_neg (by simpa using nonzero)]
  change Except.ok ((front ++ token ++ d :: post).set _ 0, _) = _
  rw [set_behind]

theorem last_place {c length : Nat} (positive : 0 < c + length) (inside : c + length < addresses) :
    (c + (length + (addresses - 1)) % addresses) % addresses + 1 = c + length := by
  have shifted : c + (length + (addresses - 1)) = c + length - 1 + addresses := by omega
  rw [Nat.add_mod_mod, shifted, Nat.add_mod_right, Nat.mod_eq_of_lt (by omega)]
  omega

theorem trimEnd_eq {b : UInt8} {c length : Nat} (edge : isSpace b = false)
    (gapBlank : ∀ x ∈ gap, isSpace x = true)
    (fits : (front ++ b :: gap ++ 0 :: post).length < addresses)
    (isLength : strlen (front ++ b :: gap ++ 0 :: post) c = .ok length)
    (behind : c + length = front.length + 1 + gap.length) :
    trimEnd (front ++ b :: gap ++ 0 :: post) c =
      .ok (front ++ b :: List.replicate gap.length 0 ++ 0 :: post) := by
  have inside : c + length < addresses := by
    simp only [List.length_append, List.length_cons] at fits
    omega
  unfold trimEnd
  rw [isLength, ok_bind]
  dsimp only
  rw [last_place (by omega) inside, behind, clearBack_eq gapBlank edge]
  rfl

theorem trimEnd_none (gapBlank : ∀ x ∈ gap, isSpace x = true)
    (fits : (gap ++ 0 :: post).length < addresses) :
    trimEnd (gap ++ 0 :: post) gap.length = .error .undefined := by
  have isEmpty : strlen (gap ++ 0 :: post) gap.length = .ok 0 := by
    have noNul : (0 : UInt8) ∉ [] := List.not_mem_nil
    have empty := strlen_eq noNul gap post
    rwa [List.append_nil] at empty
  have cleared : clearBack isSpace 0 (gap ++ 0 :: post)
          ((gap.length + (0 + (addresses - 1)) % addresses) % addresses + 1) =
        none := by
    cases gap with
    | nil =>
      have beyond : ([] ++ 0 :: post : List UInt8)[addresses - 1]? = none :=
        List.getElem?_eq_none (by omega)
      change clearBack isSpace 0 ([] ++ 0 :: post) (addresses - 1 + 1) = none
      rw [clearBack, beyond]
    | cons first more =>
      have inside : (first :: more).length + 0 < addresses := by
        rw [List.length_append] at fits
        omega
      rw [last_place (Nat.succ_pos _) inside, Nat.add_zero, clearBack_none gapBlank]
  unfold trimEnd
  rw [isEmpty, ok_bind]
  dsimp only
  rw [cleared]
  rfl

end Agar.Gui.StyleSheet
