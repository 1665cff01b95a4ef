import Agar.Core.ObjectPath

namespace Agar.Core

open Agar.Lib

/-!
# Object paths in a fixed buffer

`AG_ObjectCopyName` builds a path from the object up to its root, and checks at
each object whether the buffer has room.  The check leaves out the terminator,
so it matters which lengths the path has on the way.
-/

namespace World

/-- The absolute path of an object, below a root of a given name. -/
def completePath (rootName : List UInt8) (names : List (List UInt8)) : List UInt8 :=
  if names = [] then pathSepChar :: rootName else precededBySep names ++ [pathSepChar]

/-- One of the paths from an ancestor down has a given length. -/
def HasLengthOnTheWay (names : List (List UInt8)) (behind pathLen : Nat) : Prop :=
  ∃ skipped < names.length, (precededBySep (names.drop skipped)).length + behind = pathLen

theorem hasLengthOnTheWay_append {names : List (List UInt8)} {name : List UInt8}
    {behind pathLen : Nat} :
    HasLengthOnTheWay (names ++ [name]) behind pathLen ↔ name.length + behind + 1 = pathLen ∨
        HasLengthOnTheWay names (name.length + behind + 1) pathLen := by
  have split {skipped : Nat} (inside : skipped ≤ names.length) :
      (precededBySep ((names ++ [name]).drop skipped)).length + behind =
        (precededBySep (names.drop skipped)).length + (name.length + behind + 1) := by
    rw [List.drop_append_of_le_length inside]
    simp only [precededBySep, List.flatMap_append, List.length_append,
      List.flatMap_singleton, List.length_cons]
    omega
  constructor
  · rintro ⟨skipped, inside, length⟩
    rw [List.length_append, List.length_singleton] at inside
    rw [split (Nat.le_of_lt_succ inside)] at length
    rcases Nat.lt_or_eq_of_le (Nat.le_of_lt_succ inside) with below | last
    · exact .inr ⟨skipped, below, length⟩
    · left
      rw [last, List.drop_length] at length
      simpa [precededBySep] using length
  · rintro (length | ⟨skipped, inside, length⟩)
    · refine ⟨names.length, by simp, ?_⟩
      rw [split (Nat.le_refl _), List.drop_length]
      simpa [precededBySep] using length
    · refine ⟨skipped, ?_, ?_⟩
      · rw [List.length_append, List.length_singleton]
        exact Nat.lt_succ_of_lt inside
      · rw [split (Nat.le_of_lt inside), length]

theorem not_hasLengthOnTheWay {names : List (List UInt8)} {behind pathLen : Nat}
    (longer : pathLen < behind) : ¬ HasLengthOnTheWay names behind pathLen := by
  rintro ⟨skipped, _, length⟩
  omega

section Descends

variable {w : World} (invariant : w.TreeInvariant) {top : ObjRef}
  (topNoParent : w.parentOf top = none)

include invariant topNoParent

theorem generateObjectPath_cases {ob : ObjRef} {names : List (List UInt8)}
    (descends : w.Descends top ob names) (below : ob ≠ top) {pathLen : Nat} {path : List UInt8}
    (inside : path.length < pathLen) :
    (HasLengthOnTheWay names path.length pathLen →
        w.generateObjectPath pathLen pathLen ob path = .error .undefined) ∧
      (¬ HasLengthOnTheWay names path.length pathLen → ∃ rv written,
          w.generateObjectPath pathLen pathLen ob path = .ok (rv, written) ∧ (rv = 0 ∨ rv = -1) ∧
            (rv = 0 ↔ (precededBySep names ++ path).length < pathLen) ∧
            (rv = 0 → written = precededBySep names ++ path)) := by
  induction descends generalizing path with
  | here => exact absurd rfl below
  | @child parent ob names entry above stored up ih =>
    have rootTop : entry.root = top :=
      (invariant.rootIsTop ob entry stored).unique ⟨(above.child stored up).within, topNoParent⟩
    have prepended : precededBySep (names ++ [entry.name.bytes]) ++ path = precededBySep names ++
            (pathSepChar :: (entry.name.bytes ++ path)) := by
      simp [precededBySep]
    have longer : (pathSepChar :: (entry.name.bytes ++ path)).length =
          entry.name.bytes.length + path.length + 1 := by
      rw [List.length_cons, List.length_append]
    rw [hasLengthOnTheWay_append, prepended, generateObjectPath, object_eq_ok.mpr stored]
    simp only [bind, Except.bind]
    by_cases tooLong : entry.name.bytes.length + path.length + 1 > pathLen
    · rw [dif_pos tooLong]
      refine ⟨?_, fun _ => ⟨-1, path, rfl, .inr rfl, ?_, fun minusOne =>
        absurd minusOne (by decide)⟩⟩
      · rintro (exactly | later)
        · exact absurd exactly (Nat.ne_of_gt tooLong)
        · exact absurd later (not_hasLengthOnTheWay tooLong)
      · refine iff_of_false (by decide) ?_
        rw [List.length_append, longer]
        omega
    · rw [dif_neg tooLong]
      by_cases exactly : entry.name.bytes.length + path.length + 1 = pathLen
      · rw [if_pos (by omega)]
        exact ⟨fun _ => rfl, fun notOnTheWay => absurd (.inl exactly) notOnTheWay⟩
      · have room : (pathSepChar :: (entry.name.bytes ++ path)).length < pathLen := by
          rw [longer]
          omega
        rw [if_neg (by omega), or_iff_right exactly, ← longer]
        simp only [up, rootTop]
        by_cases reached : parent = top
        · have noNames : names = [] := by
            cases above with
            | here => rfl
            | child _ topStored topUp =>
              rw [reached] at topStored
              simp [parentOf, topStored, topUp] at topNoParent
          subst noNames
          rw [if_neg (by simpa using reached)]
          refine ⟨?_, fun _ => ⟨0, _, rfl, .inl rfl, ?_, fun _ => rfl⟩⟩
          · rintro ⟨skipped, impossible, _⟩
            cases impossible
          · exact iff_of_true rfl room
        · rw [if_pos reached]
          exact ih reached room

end Descends

/--
The name of an object is copied: nothing is written outside the buffer, and 0
is returned with the complete path exactly when that fits with its terminator.
-/
def CopiesName (w : World) (ob : ObjRef) (pathLen : Nat) (full : List UInt8) : Prop :=
  ∃ rv path, w.objectCopyName ob pathLen = .ok (rv, path) ∧ (rv = 0 ∨ rv = -1) ∧
      (rv = 0 ↔ full.length < pathLen) ∧
      (rv = 0 → path = full)

/--
The name of an object below a root is copied exactly when no path on the way up
to the root is as long as the buffer; the name of a root exactly when it fits,
or the buffer has one byte only, since it is cut off without a report.
-/
theorem name_copied_iff {w : World} (invariant : w.TreeInvariant) {top ob : ObjRef}
    {topEntry : Object} (topStored : w.objects top = some topEntry)
    (noParent : topEntry.parent = none) {names : List (List UInt8)}
    (descends : w.Descends top ob names) {pathLen : Nat} (nonempty : 1 ≤ pathLen) :
    w.CopiesName ob pathLen (completePath topEntry.name.bytes names) ↔ if names = [] then
        pathLen = 1 ∨ topEntry.name.bytes.length + 1 < pathLen
      else
        ¬ HasLengthOnTheWay names 1 pathLen := by
  have topNoParent : w.parentOf top = none := by simp [parentOf, topStored, noParent]
  unfold CopiesName objectCopyName completePath
  by_cases single : pathLen < 2
  · have one : pathLen = 1 := by
      omega
    subst one
    rw [if_pos single]
    refine iff_of_true ⟨-1, [], rfl, .inr rfl, ?_, fun minusOne => absurd minusOne (by decide)⟩ ?_
    · refine iff_of_false (by decide) ?_
      split <;> simp
    · split
      case isTrue => exact .inl rfl
      case isFalse =>
        rintro ⟨skipped, inside, length⟩
        rw [List.drop_eq_getElem_cons inside, precededBySep, List.flatMap_cons,
          List.cons_append, List.length_cons] at length
        omega
  · rw [if_neg single]
    cases descends with
    | here =>
      have rootTop : topEntry.root = top :=
        (invariant.rootIsTop top topEntry topStored).unique (Top.self topNoParent)
      rw [object_eq_ok.mpr topStored]
      simp only [bind, Except.bind, rootTop, if_true]
      constructor
      · rintro ⟨rv, path, copied, _, fits, _⟩
        cases copied
        exact .inr (fits.mp rfl)
      · rintro (one | fits)
        · omega
        · refine ⟨0, _, rfl, .inl rfl, iff_of_true rfl fits, fun _ => ?_⟩
          exact List.take_of_length_le (Nat.le_sub_one_of_lt fits)
    | @child parent ob names entry above stored up =>
      have descends := above.child stored up
      have below : ob ≠ top := by
        rintro rfl
        simp [parentOf, stored, up] at topNoParent
      have notRoot : ob ≠ entry.root := by
        rw [(invariant.rootIsTop ob entry stored).unique ⟨descends.within, topNoParent⟩]
        exact below
      have named : names ++ [entry.name.bytes] ≠ [] := by simp
      have inside : [pathSepChar].length < pathLen := by
        rw [List.length_singleton]
        omega
      obtain ⟨overrun, copied⟩ :=
        generateObjectPath_cases invariant topNoParent descends below inside
      rw [object_eq_ok.mpr stored, if_neg named, if_neg named]
      simp only [bind, Except.bind, if_neg notRoot]
      constructor
      · rintro ⟨rv, path, returned, _⟩ onTheWay
        cases (overrun onTheWay).symm.trans returned
      · exact copied

theorem threeLevels_descends : threeLevels.Descends 0 2 [[97], [98]] := by
  have child := @Descends.child threeLevels 0 0 1 [] (named "a" (some 0) [2]) .here rfl rfl
  exact @Descends.child threeLevels 0 1 2 _ (named "b" (some 1) []) child rfl rfl

theorem name_copied_iff_six_bytes : threeLevels.CopiesName 2 6 [47, 97, 47, 98, 47] := by
  refine (@name_copied_iff threeLevels threeLevels_treeInvariant 0 2 _ rfl rfl
    [[97], [98]] threeLevels_descends 6 (by decide)).mpr ?_
  rintro ⟨_ | _ | skipped, inside, length⟩
  · cases length
  · cases length
  · exact absurd inside (by simp)

theorem name_overruns_five_bytes : threeLevels.objectCopyName 2 5 = .error .undefined ∧
      ¬ threeLevels.CopiesName 2 5 [47, 97, 47, 98, 47] := by
  have below : (2 : ObjRef) ≠ 0 := by decide
  have overrun : threeLevels.generateObjectPath 5 5 2 [pathSepChar] = .error .undefined :=
    (generateObjectPath_cases threeLevels_treeInvariant rfl
      threeLevels_descends below (by decide)).1 ⟨0, by decide, rfl⟩
  have copied : threeLevels.objectCopyName 2 5 = .error .undefined := overrun
  refine ⟨copied, ?_⟩
  rintro ⟨_, _, returned, _⟩
  cases copied.symm.trans returned

end World

end Agar.Core
