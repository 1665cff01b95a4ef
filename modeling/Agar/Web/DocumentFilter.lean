import Agar.Web.VariableFilter

namespace Agar.Web

open Agar.Lib
open Agar.Core

/-!
# What the filter for documents puts out

`substitute` says what becomes of a document, from its left to its right.  It
leaves open what becomes of one in which a marker is followed by another, or by
a name, or by a text, that the filter does not read to its end.
-/

/-- What is behind a marker at the start of a text -/
def markerBehind : Text → Option Text
  | 36 :: rest => some rest
  | 37 :: 50 :: 52 :: rest => some rest
  | _ => none

/-- The name at the start of what is behind a marker, as long as it goes -/
def nameOf (c : Text) : Text := c.takeWhile varNameChar

/-- The text behind a marker and `_(`, up to the parenthesis that closes it -/
def textOf (c : Text) : Text := (c.drop 2).takeWhile (· ≠ 41)

/-- The value of a variable, or nothing without a name or a value -/
def valueOf (app : WebApp) (name : Text) : Text :=
  if name = [] then [] else ((app.get name).map cString).getD []

/-- What is behind the marker that a text starts with -/
def behindMarker (c : Text) : Text := (markerBehind c).getD []

theorem markerBehind_eq_some {c : Text} (marked : markerBehind c ≠ none) :
    markerBehind c = some (behindMarker c) := by
  obtain ⟨rest, found⟩ := Option.ne_none_iff_exists'.mp marked
  rw [behindMarker, found, Option.getD_some]

theorem behindMarker_length {c : Text} (marked : markerBehind c ≠ none) :
    (behindMarker c).length < c.length := by
  obtain ⟨rest, found⟩ := Option.ne_none_iff_exists'.mp marked
  rw [behindMarker, found, Option.getD_some]
  unfold markerBehind at found
  split at found <;> cases found <;> simp
  omega

/--
A document with the values of its variables and the translations of its texts:
a variable without a value becomes nothing, and so does a marker without a name.
-/
def substitute (app : WebApp) (gettext : Text → Text) : Text → Option Text
  | [] => some []
  | src@(b :: rest) =>
    if markerBehind src = none then (substitute app gettext rest).map (b :: ·)
    else if behindMarker src = [] ∨ markerBehind (behindMarker src) ≠ none then none
    else if ascii "_(" <+: behindMarker src then
      if (textOf (behindMarker src)).all isPrint ∧
          (textOf (behindMarker src)).length < varGettextMax ∧
          (textOf (behindMarker src)).length + 2 < (behindMarker src).length then
        (substitute app gettext ((behindMarker src).drop
            ((textOf (behindMarker src)).length + 3))).map
          (gettext (textOf (behindMarker src)) ++ ·)
      else none
    else if (nameOf (behindMarker src)).length < varGettextMax ∧
        (nameOf (behindMarker src)).length < (behindMarker src).length then
      (substitute app gettext ((behindMarker src).drop (nameOf (behindMarker src)).length)).map
        (valueOf app (nameOf (behindMarker src)) ++ ·)
    else none
  termination_by c => c.length
  decreasing_by
    · simp
    all_goals
      have shorter := behindMarker_length ‹markerBehind _ ≠ none›
      simp only [namedPattern, List.length_drop]
      subst src
      omega

theorem takeWhile_and {first second : UInt8 → Bool} {c : Text}
    (passes : (c.takeWhile first).all second = true) :
    c.takeWhile (fun b => first b && second b) = c.takeWhile first := by
  induction c with
  | nil => rfl
  | cons b rest ih =>
    cases accepted : first b with
    | true =>
      simp only [List.takeWhile, accepted, List.all_cons, Bool.and_eq_true] at passes
      simp [List.takeWhile, accepted, passes.1, ih passes.2]
    | false => simp [List.takeWhile, accepted]

section Names

variable {behind : Nat → UInt8}

theorem copyName_takeWhile {accepts : UInt8 → Bool} {room : Nat} {c : Text}
    (fits : (c.takeWhile accepts).length ≤ room) (ends : (c.takeWhile accepts).length < c.length) :
    copyName accepts room c = (c.takeWhile accepts, c.drop (c.takeWhile accepts).length) := by
  induction room generalizing c with
  | zero =>
    have none : c.takeWhile accepts = [] := by simpa using fits
    simp [copyName, none]
  | succ room ih =>
    match c with
    | [] => simp at ends
    | [b] =>
      have other : accepts b = false := by
        by_contra accepted
        rw [List.takeWhile_cons_of_pos (by simpa using accepted)] at ends
        simp at ends
      simp [copyName, List.takeWhile, other]
    | b :: next :: rest =>
      cases accepted : accepts b with
      | true =>
        rw [List.takeWhile_cons_of_pos accepted] at fits ends ⊢
        simp only [List.length_cons] at fits ends ⊢
        have copied :=
          ih (c := next :: rest) (Nat.le_of_succ_le_succ fits)
            (by simpa using Nat.lt_of_succ_lt_succ ends)
        simp [copyName, accepted, copied]
      | false => simp [copyName, List.takeWhile, accepted]

theorem readName_translate {mode : VarSubstMode} {c : Text}
    (opens : ascii "_(" <+: c)
    (printable : (textOf c).all isPrint = true)
    (fits : (textOf c).length < varGettextMax)
    (closes : (textOf c).length + 2 < c.length) :
    readName behind mode c = (.translate, textOf c, c.drop ((textOf c).length + 3)) := by
  obtain ⟨more, rfl⟩ := opens
  have behindIt : (ascii "_(" ++ more).drop 2 = more := rfl
  rw [textOf, behindIt] at printable fits closes ⊢
  have same : more.takeWhile (fun b => b ≠ 41 && isPrint b) = more.takeWhile (· ≠ 41) :=
    takeWhile_and printable
  have copied :=
    @copyName_takeWhile (fun b => b ≠ 41 && isPrint b) (varGettextMax - 1) more
      (by rw [same]; exact Nat.le_sub_one_of_lt fits)
      (by
        rw [same]
        simp only [List.length_append, ascii, List.length_map] at closes
        change _ + 2 < 2 + _ at closes
        omega)
  have here : byteAt behind (ascii "_(" ++ more) 0 = 95 := rfl
  have next : byteAt behind (ascii "_(" ++ more) 1 = 40 := rfl
  have rest : (ascii "_(" ++ more).drop ((more.takeWhile (· ≠ 41)).length + 3) =
        more.drop ((more.takeWhile (· ≠ 41)).length + 1) :=
    rfl
  simp only [readName, here, next, and_self, if_true, behindIt, copied, same, List.drop_drop, rest]

theorem readName_name {mode : VarSubstMode} {c : Text}
    (opens : ¬ ascii "_(" <+: c)
    (fits : (nameOf c).length < varGettextMax)
    (ends : (nameOf c).length < c.length) :
    readName behind mode c = (mode, nameOf c, c.drop (nameOf c).length) := by
  have copied := @copyName_takeWhile _ (varGettextMax - 1) _ (Nat.le_sub_one_of_lt fits) ends
  have plain : ¬ (byteAt behind c 0 = 95 ∧ byteAt behind c 1 = 40) := by
    rintro ⟨underscore, parenthesis⟩
    match c with
    | [] => simp at ends
    | [b] =>
      obtain rfl : b = 95 := underscore
      simp [nameOf, List.takeWhile, varNameChar] at ends
    | b :: next :: rest =>
      obtain rfl : b = 95 := underscore
      obtain rfl : next = 40 := parenthesis
      exact opens ⟨rest, rfl⟩
  rw [readName, if_neg plain, copied]
  rfl

theorem filterItem_unmarked {app : WebApp} {gettext : Text → Text} {b : UInt8} {rest : Text}
    (unmarked : markerBehind (b :: rest) = none) :
    filterItem app gettext behind (b :: rest) = ([b], rest) := by
  have dollar : b ≠ 36 := by
    rintro rfl
    cases unmarked
  have percent : ¬ (b = 37 ∧ 3 < (b :: rest).length ∧ byteAt behind (b :: rest) 1 = 50 ∧
          byteAt behind (b :: rest) 2 = 52) := by
    rintro ⟨rfl, long, two, four⟩
    match rest with
    | [] => simp at long
    | [_] => simp at long
    | second :: third :: more =>
      obtain rfl : second = 50 := two
      obtain rfl : third = 52 := four
      cases unmarked
  have item : readItem behind (b :: rest) = (.normal, [], b :: rest) := by
    rw [readItem, byteAt_cons_zero, if_neg percent, if_neg dollar]
  simp [filterItem, item]

theorem readItem_marked {c rest : Text} (marked : markerBehind c = some rest) (more : rest ≠ [])
    (single : markerBehind rest = none) : readItem behind c = readName behind .var rest := by
  unfold markerBehind at marked
  split at marked
  case h_1 =>
      cases marked
      have other : byteAt behind rest 0 ≠ 36 := by
        obtain ⟨b, _, rfl⟩ := List.exists_cons_of_ne_nil more
        rintro same
        obtain rfl : b = 36 := same
        cases single
      simp [readItem, other]
  case h_2 =>
      cases marked
      have long : 3 < (37 :: 50 :: 52 :: rest).length := by
        have positive := List.length_pos_iff.mpr more
        simp only [List.length_cons]
        omega
      have other : ¬ (byteAt behind rest 0 = 37 ∧ 6 < (37 :: 50 :: 52 :: rest).length ∧
              byteAt behind rest 1 = 50 ∧ byteAt behind rest 2 = 52) := by
        rintro ⟨percent, room, two, four⟩
        obtain ⟨first, rest, rfl⟩ := List.exists_cons_of_ne_nil more
        obtain _ | ⟨second, _ | ⟨third, rest⟩⟩ := rest
        · simp at room
        · simp at room
        obtain rfl : first = 37 := percent
        obtain rfl : second = 50 := two
        obtain rfl : third = 52 := four
        cases single
      rw [readItem, if_pos ⟨rfl, long, rfl, rfl⟩]
      simp only [byteAt_cons_succ, if_neg other]
      rfl
  case h_3 => cases marked

end Names

section Whole

variable {app : WebApp} {gettext : Text → Text} {behind : Nat → UInt8}

theorem filterItem_name {c after name : Text} (item : readItem behind c = (.var, name, after)) :
    filterItem app gettext behind c = (valueOf app name, after) := by
  by_cases empty : name = [] <;> simp [filterItem, item, valueOf, empty]

theorem document_ends {src out : Text} (becomes : substitute app gettext src = some out)
    (before : Text) :
    EndsWith (fun _ => documentTurn app gettext behind) ⟨src, before⟩ (before ++ out) := by
  have turn : ∀ {c after text : Text} (before : Text) {out : Text}, c ≠ [] →
        filterItem app gettext behind c = (text, after) →
        EndsWith (fun _ => documentTurn app gettext behind)
          ⟨after, before ++ text⟩ (before ++ text ++ out) →
          EndsWith (fun _ => documentTurn app gettext behind) ⟨c, before⟩
            (before ++ (text ++ out)) := by
    intro c after text before out more item ends
    rw [← List.append_assoc]
    exact (endsWith_first (by simp [documentTurn, more, item]) _).mpr ends
  fun_induction substitute app gettext src generalizing before out with
  | case1 =>
    cases becomes
    have done : documentTurn app gettext behind ⟨[], before⟩ = .ended before := by
      simp [documentTurn]
    exact (endsWith_at_once done _).mpr (List.append_nil _)
  | case2 b rest unmarked ih =>
    obtain ⟨out, later, rfl⟩ := Option.map_eq_some_iff.mp becomes
    exact turn before (List.cons_ne_nil _ _) (filterItem_unmarked unmarked) (ih later _)
  | case3 => cases becomes
  | case4 b rest marked alone opens reads ih =>
    obtain ⟨out, later, rfl⟩ := Option.map_eq_some_iff.mp becomes
    obtain ⟨more, single⟩ := not_or.mp alone
    obtain ⟨printable, fits, closes⟩ := reads
    have item :=
      (@readItem_marked behind _ _ (markerBehind_eq_some marked) more (not_not.mp single)).trans
        (readName_translate opens printable fits closes)
    exact turn before (List.cons_ne_nil _ _) (by rw [filterItem, item]) (ih later _)
  | case5 => cases becomes
  | case6 b rest marked alone opens reads ih =>
    obtain ⟨out, later, rfl⟩ := Option.map_eq_some_iff.mp becomes
    obtain ⟨more, single⟩ := not_or.mp alone
    have item :=
      (@readItem_marked behind _ _ (markerBehind_eq_some marked) more (not_not.mp single)).trans
        (readName_name opens reads.1 reads.2)
    exact turn before (List.cons_ne_nil _ _) (filterItem_name item) (ih later _)
  | case7 => cases becomes

end Whole

/--
A document becomes what `substitute` says: the filter ends, and what it has put
out is that text.
-/
theorem filterDocument_iff (app : WebApp) (gettext : Text → Text) (behind : Nat → UInt8)
    (src expected : Text) (becomes : substitute app gettext src = some expected) (out : Text) :
    FilterDocument app gettext behind src out ↔ out = expected := by
  have ends : FilterDocument app gettext behind src expected :=
    document_ends becomes []
  constructor
  · exact fun other => other.unique ends
  · rintro rfl
    exact ends

theorem filterDocument_greeting : FilterDocument
      ⟨[{ ref := 0
          key := .strlcpy (ascii "n")
          value := some (ascii "Al" ++ [0])
          len := 2
          bufSize := 3
          global := false }], 1⟩
      id (fun _ => 36) (ascii "$n: %24_(Hi) $ $x!") (ascii "Al: Hi  !") :=
  (filterDocument_iff _ id (fun _ => 36) (ascii "$n: %24_(Hi) $ $x!") (ascii "Al: Hi  !") (by
      simp [ascii, substitute, markerBehind, behindMarker, nameOf, textOf, varNameChar,
        isAlnum, isDigit, isPrint, varGettextMax, valueOf, WebApp.get,
        CString.strlcpy, cString])
    (ascii "Al: Hi  !")).mpr rfl

theorem undefined_variable_dropped :
    FilterDocument ⟨[], 0⟩ id (fun _ => 0) (ascii "$x.") (ascii ".") ∧
      ¬ FilterDocument ⟨[], 0⟩ id (fun _ => 0) (ascii "$x.") (ascii "$x.") := by
  have ends : FilterDocument ⟨[], 0⟩ id (fun _ => 0) (ascii "$x.") (ascii ".") := ⟨3, by decide⟩
  refine ⟨ends, fun unchanged => ?_⟩
  cases unchanged.unique ends

end Agar.Web
