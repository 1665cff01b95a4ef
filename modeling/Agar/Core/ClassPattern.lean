import Agar.Core.Object

namespace Agar.Core

open Agar.Lib

/-!
# Class patterns

The hierarchy of a class is the names of its superclasses and its own, joined
by colons.  `AG_ClassIsNamed` compares it with a pattern of names and
wildcards; it has shortcuts for patterns with at most one wildcard and calls
`AG_ClassIsNamedGeneral` for the others.
-/

/-- A name in a hierarchy, or a component of a pattern. -/
abbrev Component := List UInt8

/-- `':'` -/
def colon : UInt8 := 58

/-- `'*'` -/
def star : UInt8 := 42

/-- `"*"` -/
def wildcard : Component := [star]

/-- `AG_Strsep` on a string: the token, and what `*stringp` then points to -/
def strsep (delim : UInt8) (s : List UInt8) : List UInt8 × Option (List UInt8) :=
  (s.takeWhile (· ≠ delim), (s.dropWhile (· ≠ delim)).tail?)

theorem strsep_shorter (delim : UInt8) (s : List UInt8) :
    (strsep delim s).2.elim 0 (fun rest => rest.length + 1) < s.length + 1 := by
  have shorter := (List.dropWhile_sublist (l := s) (· ≠ delim)).length_le
  unfold strsep
  cases behind : s.dropWhile (· ≠ delim) with
  | nil => exact Nat.succ_pos _
  | cons first tail =>
    rw [behind, List.length_cons] at shorter
    exact Nat.succ_lt_succ shorter

/-- The loop of `AG_ClassIsNamedGeneral` -/
def compareTokens : Option (List UInt8) → Option (List UInt8) → Bool
  | some cp, some np =>
    let c := strsep colon cp
    let s := strsep colon np
    if c.1 = wildcard ∨ c.1 = s.1 then compareTokens c.2 s.2 else false
  | _, _ => true
termination_by cp => cp.elim 0 fun rest => rest.length + 1
decreasing_by exact strsep_shorter colon cp

/-- `AG_ClassIsNamedGeneral` -/
def classIsNamedGeneral (cl : ObjectClass) (cn : List UInt8) : Bool :=
  let cname : CString objectHierMax := .strlcpy cn
  let nname : CString objectHierMax := .strlcpy cl.hier.bytes
  compareTokens (some cname.bytes) (some nname.bytes)

/-- `AG_ClassIsNamed` -/
def classIsNamed (cls : ObjectClass) (pat : List UInt8) : Bool :=
  let nwild := pat.count star
  if nwild = 0 then cls.hier.bytes = pat
  else if nwild = 1 then
    if pat.getLast? = some star then
      (List.range pat.length).any fun c =>
        pat.drop c = [colon, star] ∧ (c = 0 ∨ cls.hier.bytes.take c = pat.take c ∧
              (cls.hier.bytes[c]? = some colon ∨ cls.hier.bytes[c]? = none))
    else if pat.head? = some star then true
    else classIsNamedGeneral cls pat
  else classIsNamedGeneral cls pat

/-! ## Components -/

/-- The components of a hierarchy or of a pattern. -/
def components (s : List UInt8) : List Component := s.splitOn colon

/-- The string with some components. -/
def joined (parts : List Component) : List UInt8 := [colon].intercalate parts

/-- No component of a pattern differs from the name at the same place. -/
def Compatible : List Component → List Component → Prop
  | c :: pattern, s :: names => (c = wildcard ∨ c = s) ∧ Compatible pattern names
  | _, _ => True

/--
A hierarchy has the components of a pattern, a last wildcard being any number
of names and another one being one name.
-/
def PatternMatches : List Component → List Component → Prop
  | [], names => names = []
  | [c], names => c = wildcard ∨ names = [c]
  | c :: pattern, s :: names => (c = wildcard ∨ c = s) ∧ PatternMatches pattern names
  | _ :: _, [] => False

/-- The hierarchy has as many names as the pattern asks for. -/
def LongEnough (pattern names : List Component) : Prop :=
  if pattern.getLast? = some wildcard then pattern.length ≤ names.length + 1
  else pattern.length = names.length

/-- A component of a pattern is a wildcard or a name. -/
def ValidComponent (c : Component) : Prop := c = wildcard ∨ c ≠ [] ∧ star ∉ c

theorem components_strsep (s : List UInt8) : components s =
      (strsep colon s).1 :: (strsep colon s).2.elim [] components := by
  have parts := List.takeWhile_append_dropWhile (p := (· ≠ colon)) (l := s)
  have noColon : colon ∉ s.takeWhile (· ≠ colon) := by
    intro member
    simpa using List.mem_takeWhile_imp member
  unfold components strsep
  cases behind : s.dropWhile (· ≠ colon) with
  | nil =>
    rw [behind, List.append_nil] at parts
    rw [parts] at noColon ⊢
    exact List.splitOn_eq_singleton noColon
  | cons first tail =>
    have separator : first = colon := by
      have stops := List.head?_dropWhile_not (· ≠ colon) s
      rw [behind] at stops
      simpa using stops
    rw [behind, separator] at parts
    conv_lhs => rw [← parts]
    exact List.splitOn_append_cons_self_of_not_mem noColon tail

theorem compareTokens_eq (cp np : List UInt8) : compareTokens (some cp) (some np) = true ↔
      Compatible (components cp) (components np) := by
  induction size : cp.length using Nat.strong_induction_on generalizing cp np with
  | _ size ih =>
    subst size
    rw [components_strsep cp, components_strsep np, compareTokens]
    have shorter := strsep_shorter colon cp
    cases behind : strsep colon cp with
    | mk c cpNext =>
      cases strsep colon np with
      | mk s npNext =>
        rw [behind] at shorter
        simp only [Compatible]
        split
        case isTrue same =>
          rw [and_iff_right same]
          cases cpNext with
          | none => simp [compareTokens, Compatible]
          | some rest =>
            cases npNext with
            | none =>
              cases components rest <;>
                simp [compareTokens, Compatible]
            | some names => exact ih rest.length (Nat.lt_of_succ_lt_succ shorter) rest names rfl
        case isFalse different => simp [different]

/-! ## Components of strings -/

theorem noColon_components {s : List UInt8} {c : Component} (member : c ∈ components s) :
    colon ∉ c := by
  induction size : s.length using Nat.strong_induction_on generalizing s with
  | _ size ih =>
    subst size
    rw [components_strsep] at member
    have shorter := strsep_shorter colon s
    rcases List.mem_cons.mp member with rfl | later
    · intro inside
      simpa using List.mem_takeWhile_imp inside
    · cases rest : (strsep colon s).2 with
      | none =>
        rw [rest] at later
        cases later
      | some tail =>
        rw [rest] at later shorter
        exact ih tail.length (Nat.lt_of_succ_lt_succ shorter) later rfl

theorem components_ne_nil (s : List UInt8) : components s ≠ [] := List.splitOn_ne_nil colon s

@[simp] theorem joined_components (s : List UInt8) : joined (components s) = s :=
  List.intercalate_splitOn colon

theorem components_injective {s t : List UInt8} (same : components s = components t) : s = t := by
  rw [← joined_components s, same, joined_components]

variable {parts : List Component}

theorem components_joined (noColon : ∀ c ∈ parts, colon ∉ c) (nonempty : parts ≠ []) :
    components (joined parts) = parts :=
  List.splitOn_intercalate colon noColon nonempty

theorem components_append (s t : List UInt8) :
    components (s ++ colon :: t) = components s ++ components t :=
  List.splitOn_append_cons_self s t

theorem joined_cons (c : Component) (nonempty : parts ≠ []) :
    joined (c :: parts) = c ++ colon :: joined parts := by
  obtain ⟨first, rest, rfl⟩ := List.exists_cons_of_ne_nil nonempty
  simp [joined, List.intercalate, List.intersperse]

theorem startsWith_iff {s hier : List UInt8} : hier.take s.length = s ∧
        (hier[s.length]? = some colon ∨ hier[s.length]? = none) ↔
      components s <+: components hier := by
  constructor
  · rintro ⟨same, ends⟩
    have parts := List.take_append_drop s.length hier
    rw [same] at parts
    cases behind : hier.drop s.length with
    | nil =>
      rw [behind, List.append_nil] at parts
      rw [parts]
    | cons first rest =>
      have separator : hier[s.length]? = some first := by
        rw [← List.head?_drop, behind, List.head?_cons]
      rcases ends with isColon | isEnd
      · obtain rfl : colon = first :=
          Option.some.inj (isColon.symm.trans separator)
        rw [behind] at parts
        rw [← parts, components_append]
        exact List.prefix_append _ _
      · rw [separator] at isEnd
        cases isEnd
  · rintro ⟨rest, parts⟩
    by_cases whole : rest = []
    · rw [whole, List.append_nil] at parts
      obtain rfl := components_injective parts
      exact ⟨List.take_length, .inr (by simp)⟩
    · have noColon : ∀ c ∈ rest, colon ∉ c := by
        intro c member
        apply noColon_components (s := hier)
        rw [← parts]
        exact List.mem_append_right _ member
      have hierarchy : hier = s ++ colon :: joined rest := by
        apply components_injective
        rw [components_append, components_joined noColon whole, parts]
      rw [hierarchy]
      exact ⟨List.take_left, .inl (by simp)⟩

/-! ## Patterns and lengths -/

variable {pattern names : List Component}

theorem patternMatches_cons_cons {c d s : Component} :
    PatternMatches (c :: d :: pattern) (s :: names) ↔
      (c = wildcard ∨ c = s) ∧ PatternMatches (d :: pattern) names := by
  simp [PatternMatches]

theorem patternMatches_iff (nonempty : pattern ≠ []) :
    PatternMatches pattern names ↔ Compatible pattern names ∧ LongEnough pattern names := by
  induction pattern generalizing names with
  | nil => exact absurd rfl nonempty
  | cons c pattern ih =>
    cases pattern with
    | nil =>
      by_cases wild : c = wildcard
      · cases names <;>
          simp [PatternMatches, Compatible, LongEnough, wild]
      · rcases names with _ | ⟨s, _ | ⟨t, names⟩⟩ <;>
          simp [PatternMatches, Compatible, LongEnough, wild, eq_comm]
    | cons d pattern =>
      have later {names : List Component} :
          PatternMatches (d :: pattern) names ↔ Compatible (d :: pattern) names ∧
              LongEnough (d :: pattern) names :=
        ih (List.cons_ne_nil d pattern)
      cases names with
      | nil =>
        simp only [PatternMatches, LongEnough, List.length_cons,
          List.length_nil, false_iff, not_and]
        intro _
        split <;> omega
      | cons s names =>
        rw [patternMatches_cons_cons, later, Compatible, and_assoc,
          LongEnough, LongEnough, List.getLast?_cons_cons]
        simp only [List.length_cons, Nat.add_right_cancel_iff, Nat.add_le_add_iff_right]

theorem patternMatches_names (noWildcard : wildcard ∉ pattern) :
    PatternMatches pattern names ↔ names = pattern := by
  induction pattern generalizing names with
  | nil => rfl
  | cons c pattern ih =>
    obtain ⟨named, later⟩ : wildcard ≠ c ∧ wildcard ∉ pattern := by simpa using noWildcard
    have named : c ≠ wildcard := named.symm
    cases pattern with
    | nil => simp [PatternMatches, named]
    | cons d pattern =>
      cases names with
      | nil => simp [PatternMatches]
      | cons s names =>
        rw [patternMatches_cons_cons, ih later, or_iff_right named, List.cons.injEq, eq_comm]

theorem patternMatches_trailing {leading : List Component} (noWildcard : wildcard ∉ leading) :
    PatternMatches (leading ++ [wildcard]) names ↔ leading <+: names := by
  induction leading generalizing names with
  | nil => simp [PatternMatches]
  | cons c leading ih =>
    obtain ⟨named, later⟩ : wildcard ≠ c ∧ wildcard ∉ leading := by simpa using noWildcard
    have named : c ≠ wildcard := named.symm
    obtain ⟨d, rest, longer⟩ :=
      List.exists_cons_of_ne_nil (List.append_ne_nil_of_right_ne_nil leading
          (List.cons_ne_nil wildcard []))
    cases names with
    | nil =>
      rw [List.cons_append, longer]
      simp [PatternMatches]
    | cons s names =>
      rw [List.cons_append, longer, patternMatches_cons_cons, ← longer,
        ih later, or_iff_right named,
        List.cons_prefix_cons]

theorem length_le_of_agrees {c s : Component} (agrees : c = wildcard ∨ c = s) (named : s ≠ []) :
    c.length ≤ s.length := by
  rcases agrees with rfl | rfl
  · exact List.length_pos_of_ne_nil named
  · exact le_rfl

theorem length_joined_cons (s : Component) (nonempty : names ≠ []) :
    (joined (s :: names)).length = s.length + (1 + (joined names).length) := by
  rw [joined_cons s nonempty, List.length_append, List.length_cons]
  omega

theorem compatible_take {length : Nat} (nonempty : pattern ≠ [])
    (noColon : ∀ c ∈ pattern, colon ∉ c) (named : ∀ s ∈ names, s ≠ [])
    (fits : (joined names).length ≤ length) (matching : PatternMatches pattern names) :
    Compatible (components ((joined pattern).take length)) names := by
  induction pattern generalizing names length with
  | nil => exact absurd rfl nonempty
  | cons c pattern ih =>
    obtain ⟨cNoColon, later⟩ := List.forall_mem_cons.mp noColon
    cases names with
    | nil =>
      cases components ((joined (c :: pattern)).take length) <;>
        exact trivial
    | cons s names =>
      obtain ⟨sNamed, namesNamed⟩ := List.forall_mem_cons.mp named
      cases pattern with
      | nil =>
        have agrees : c = wildcard ∨ c = s := by
          rcases matching with wild | same
          · exact .inl wild
          · exact .inr (List.cons.inj same).1.symm
        have short : s.length ≤ (joined (s :: names)).length := by
          cases names with
          | nil => simp [joined]
          | cons t names =>
            rw [length_joined_cons s (List.cons_ne_nil t names)]
            exact Nat.le_add_right _ _
        have whole : (joined [c]).take length = c := by
          rw [show joined [c] = c by simp [joined]]
          exact List.take_of_length_le ((length_le_of_agrees agrees sNamed).trans
              (short.trans fits))
        rw [whole, components, List.splitOn_eq_singleton cNoColon]
        exact ⟨agrees, by cases names <;> exact trivial⟩
      | cons d pattern =>
        obtain ⟨agrees, matching⟩ := patternMatches_cons_cons.mp matching
        have short := length_le_of_agrees agrees sNamed
        rw [joined_cons c (List.cons_ne_nil d pattern), List.take_append]
        cases room : length - c.length with
        | zero =>
          rw [List.take_zero, List.append_nil, components, List.splitOn_eq_singleton
              fun inside => cNoColon (List.mem_of_mem_take inside)]
          have whole : c.take length = c := by
            apply List.take_of_length_le
            apply short.trans
            cases names with
            | nil => simpa [joined] using fits
            | cons t names =>
              rw [length_joined_cons s (List.cons_ne_nil t names)] at fits
              exact (Nat.le_add_right _ _).trans fits
          rw [whole]
          exact ⟨agrees, by cases names <;> exact trivial⟩
        | succ more =>
          rw [List.take_of_length_le (by omega), List.take_succ_cons, components_append, components,
            List.splitOn_eq_singleton cNoColon]
          apply And.intro agrees
          apply ih (List.cons_ne_nil d pattern) later namesNamed _ matching
          cases names with
          | nil => simp [joined]
          | cons t names =>
            rw [length_joined_cons s (List.cons_ne_nil t names)] at fits
            omega

/-! ## Wildcards -/

theorem count_star (valid : ∀ c ∈ parts, ValidComponent c) :
    (joined parts).count star = parts.count wildcard := by
  induction parts with
  | nil => rfl
  | cons c parts ih =>
    obtain ⟨cValid, later⟩ := List.forall_mem_cons.mp valid
    have first : c.count star = if c = wildcard then 1 else 0 := by
      rcases cValid with rfl | ⟨_, noStar⟩
      · rfl
      · have named : c ≠ wildcard := by
          rintro rfl
          exact noStar (List.mem_singleton_self star)
        rw [if_neg named, List.count_eq_zero]
        exact noStar
    have separator : (colon == star) = false := rfl
    cases parts with
    | nil => simp [joined, first, List.count_cons]
    | cons d parts =>
      rw [joined_cons c (List.cons_ne_nil d parts), List.count_append,
        List.count_cons, ih later, first, separator]
      simp [List.count_cons, add_comm]

theorem joined_concat {leading : List Component} (nonempty : leading ≠ []) (c : Component) :
    joined (leading ++ [c]) = joined leading ++ colon :: c := by
  induction leading with
  | nil => exact absurd rfl nonempty
  | cons first leading ih =>
    cases leading with
    | nil => simp [joined]
    | cons second leading =>
      rw [List.cons_append, joined_cons first (by simp), ih (List.cons_ne_nil second leading),
        joined_cons first (List.cons_ne_nil second leading),
        List.append_assoc, List.cons_append]

theorem trailing_wildcard {pat : List UInt8} (valid : ∀ c ∈ components pat, ValidComponent c)
    (last : pat.getLast? = some star) : ∃ leading, components pat = leading ++ [wildcard] := by
  obtain ⟨leading, c, parts⟩ :=
    (List.eq_nil_or_concat' (components pat)).resolve_left (components_ne_nil pat)
  have member : c ∈ components pat := by
    rw [parts]
    exact List.mem_append_right _ (List.mem_singleton_self c)
  refine ⟨leading, ?_⟩
  rcases valid c member with rfl | ⟨nonempty, noStar⟩
  · exact parts
  · have ends : pat.getLast? = c.getLast? := by
      obtain ⟨first, rest, rfl⟩ := List.exists_cons_of_ne_nil nonempty
      rw [← joined_components pat, parts]
      by_cases only : leading = []
      · rw [only]
        simp [joined]
      · rw [joined_concat only, List.getLast?_append_of_ne_nil _ (by simp), List.getLast?_cons_cons]
    rw [ends] at last
    exact absurd (List.mem_of_getLast? last) noStar

theorem any_suffix_iff (text : List UInt8) (test : Nat → Prop) [DecidablePred test] :
    ((List.range (text ++ [colon, star]).length).any fun c =>
        (text ++ [colon, star]).drop c = [colon, star] ∧ test c) = true ↔
      test text.length := by
  simp only [List.any_eq_true, List.mem_range, decide_eq_true_eq]
  constructor
  · intro found
    obtain ⟨c, inside, suffix, holds⟩ := found
    have place : c = text.length := by
      have length := congrArg List.length suffix
      simp only [List.length_drop, List.length_append, List.length_cons,
        List.length_nil] at length inside
      omega
    rwa [place] at holds
  · intro holds
    refine ⟨text.length, ?_, List.drop_left, holds⟩
    rw [List.length_append]
    exact Nat.lt_add_of_pos_right (Nat.succ_pos _)

/-! ## The matchers -/

/-- A string made of colon-separated names and wildcards. -/
structure ValidPattern (pat : List UInt8) : Prop where
  noNul : 0 ∉ pat
  components : ∀ c ∈ components pat, ValidComponent c

/-- A string made of colon-separated names. -/
def ValidHierarchy (hier : List UInt8) : Prop := ∀ s ∈ components hier, s ≠ []

/-- The class matches the pattern, component by component. -/
def Matches (cls : ObjectClass) (pat : List UInt8) : Prop :=
  PatternMatches (components pat) (components cls.hier.bytes)

/-- Both matchers answer whether the class matches the pattern. -/
def MatchersAgree (cls : ObjectClass) (pat : List UInt8) : Prop :=
  (classIsNamed cls pat = true ↔ classIsNamedGeneral cls pat = true) ∧
    (classIsNamedGeneral cls pat = true ↔ Matches cls pat)

/--
Nothing of the class contradicts the pattern: they agree as far as both go
and the general matcher copies the pattern, or the pattern starts with its
only wildcard.
-/
def Uncontradicted (cls : ObjectClass) (pat : List UInt8) : Prop :=
  Compatible (components (pat.take (objectHierMax - 1))) (components cls.hier.bytes) ∨
    pat.count star = 1 ∧ pat.head? = some star

/--
The pattern is not the wildcard alone, and it agrees with the class to the
end of both where nothing contradicts it.
-/
def Decided (cls : ObjectClass) (pat : List UInt8) : Prop :=
  pat ≠ wildcard ∧ (Uncontradicted cls pat →
      Compatible (components pat) (components cls.hier.bytes) ∧
        LongEnough (components pat) (components cls.hier.bytes))

theorem classIsNamedGeneral_iff {cls : ObjectClass} {pat : List UInt8} (noNul : 0 ∉ pat) :
    classIsNamedGeneral cls pat = true ↔ Compatible (components (pat.take (objectHierMax - 1)))
        (components cls.hier.bytes) := by
  have copied : (CString.strlcpy pat : CString objectHierMax).bytes =
        pat.take (objectHierMax - 1) := by
    simp only [CString.strlcpy]
    rw [cString_of_noNul noNul]
  simp only [classIsNamedGeneral]
  rw [compareTokens_eq, copied, CString.strlcpy_bytes]

section

variable {cls : ObjectClass} {pat : List UInt8} (named : ValidHierarchy cls.hier.bytes)
  (valid : ValidPattern pat)

include valid in
theorem count_star_components : pat.count star = (components pat).count wildcard := by
  conv_lhs => rw [← joined_components pat]
  exact count_star valid.components

include named valid in
theorem classIsNamedGeneral_of_matches (matching : Matches cls pat) :
    classIsNamedGeneral cls pat = true := by
  rw [classIsNamedGeneral_iff valid.noNul]
  have fits : (joined (components cls.hier.bytes)).length ≤ objectHierMax - 1 := by
    rw [joined_components]
    exact Nat.le_sub_one_of_lt cls.hier.fits
  have agrees :=
    compatible_take (components_ne_nil pat)
      (fun c member => noColon_components member) named fits matching
  rwa [joined_components] at agrees

include valid in
theorem classIsNamed_name (noWildcard : pat.count star = 0) :
    classIsNamed cls pat = true ↔ Matches cls pat := by
  have names : wildcard ∉ components pat := by
    rwa [count_star_components valid, List.count_eq_zero] at noWildcard
  rw [Matches, patternMatches_names names, classIsNamed, if_pos noWildcard, decide_eq_true_eq]
  exact ⟨congrArg components, components_injective⟩

include valid in
theorem classIsNamed_trailing (one : pat.count star = 1) (last : pat.getLast? = some star)
    (other : pat ≠ wildcard) : classIsNamed cls pat = true ↔ Matches cls pat := by
  obtain ⟨leading, parts⟩ := trailing_wildcard valid.components last
  have names : wildcard ∉ leading := by
    have counted := count_star_components valid
    rw [one, parts, List.count_append, List.count_singleton_self] at counted
    exact List.count_eq_zero.mp (Nat.succ.inj counted).symm
  have some : leading ≠ [] := by
    rintro rfl
    apply other
    apply components_injective
    rw [parts]
    rfl
  have noColon : ∀ c ∈ leading, colon ∉ c := by
    intro c member
    apply noColon_components (s := pat)
    rw [parts]
    exact List.mem_append_left _ member
  have nonempty : joined leading ≠ [] := by
    intro empty
    have first : components (joined leading) = [[]] := by
      rw [empty]
      rfl
    rw [components_joined noColon some] at first
    have member : [] ∈ components pat := by
      rw [parts, first]
      exact List.mem_cons_self
    rcases valid.components [] member with isWildcard | ⟨isEmpty, _⟩
    · cases isWildcard
    · exact isEmpty rfl
  have text : pat = joined leading ++ [colon, star] := by
    rw [← joined_components pat, parts, joined_concat some]
    rfl
  have place : (joined leading).length ≠ 0 := by rwa [Ne, List.length_eq_zero_iff]
  rw [Matches, parts, patternMatches_trailing names, classIsNamed, one,
    if_neg Nat.one_ne_zero, if_pos rfl, if_pos last]
  rw [text, any_suffix_iff, or_iff_right place, List.take_left,
    startsWith_iff, components_joined noColon some]

omit named valid in
theorem classIsNamed_leading (one : pat.count star = 1) (first : pat.head? = some star)
    (other : pat ≠ wildcard) : classIsNamed cls pat = true := by
  obtain ⟨rest, rfl⟩ := List.head?_eq_some_iff.mp first
  have once : star ∉ rest := by
    rw [List.count_cons_self] at one
    exact List.count_eq_zero.mp (Nat.succ.inj one)
  have last : (star :: rest).getLast? ≠ some star := by
    intro ends
    cases rest with
    | nil => exact other rfl
    | cons next rest =>
      rw [List.getLast?_cons_cons] at ends
      exact once (List.mem_of_getLast? ends)
  rw [classIsNamed, one, if_neg Nat.one_ne_zero, if_pos rfl, if_neg last, if_pos first]

omit named valid in
theorem classIsNamed_general (wild : pat.count star ≠ 0)
    (general : pat.count star = 1 → pat.getLast? ≠ some star ∧ pat.head? ≠ some star) :
    classIsNamed cls pat = classIsNamedGeneral cls pat := by
  rw [classIsNamed, if_neg wild]
  split
  case isTrue one =>
    obtain ⟨last, first⟩ := general one
    rw [if_neg last, if_neg first]
  case isFalse => rfl

omit named valid in
theorem classIsNamed_wildcard : classIsNamed cls wildcard = false := rfl

include named valid in
/-- The matchers answer correctly exactly where the class decides. -/
theorem matchersAgree_iff_decided : MatchersAgree cls pat ↔ Decided cls pat := by
  have accepted := classIsNamedGeneral_of_matches named valid
  have general : classIsNamedGeneral cls pat = true ↔
        Compatible (components (pat.take (objectHierMax - 1))) (components cls.hier.bytes) :=
    classIsNamedGeneral_iff valid.noNul
  have whole : Matches cls pat ↔ _ := patternMatches_iff (components_ne_nil pat)
  unfold Decided
  rw [← whole]
  constructor
  · intro agree
    obtain ⟨same, right⟩ := agree
    have other : pat ≠ wildcard := by
      rintro rfl
      have matching : Matches cls wildcard := .inl rfl
      have named := same.mpr (right.mpr matching)
      rw [classIsNamed_wildcard] at named
      cases named
    apply And.intro other
    intro uncontradicted
    rcases uncontradicted with agrees | ⟨one, first⟩
    · exact right.mp (general.mpr agrees)
    · exact right.mp (same.mp (classIsNamed_leading one first other))
  · intro decided
    obtain ⟨other, decides⟩ := decided
    have right : classIsNamedGeneral cls pat = true ↔ Matches cls pat :=
      ⟨fun agrees => decides (.inl (general.mp agrees)), accepted⟩
    refine ⟨?_, right⟩
    by_cases none : pat.count star = 0
    · rw [right]
      exact classIsNamed_name valid none
    by_cases last : pat.count star = 1 ∧ pat.getLast? = some star
    · rw [right]
      exact classIsNamed_trailing valid last.1 last.2 other
    by_cases first : pat.count star = 1 ∧ pat.head? = some star
    · rw [right]
      exact iff_of_true (classIsNamed_leading first.1 first.2 other) (decides (.inr first))
    · rw [classIsNamed_general none fun one =>
        ⟨fun ends => last ⟨one, ends⟩, fun starts => first ⟨one, starts⟩⟩]

end

def agWindowClass : ObjectClass where
  hier := .strlcpy (ascii "AG_Widget:AG_Window")
  name := .strlcpy (ascii "AG_Window")
  libs := .strlcpy []
  ver := { major := 0, minor := 0 }

theorem components_agWindowClass : components agWindowClass.hier.bytes =
      [ascii "AG_Widget", ascii "AG_Window"] := by
  decide

theorem validHierarchy_agWindowClass : ValidHierarchy agWindowClass.hier.bytes := by
  unfold ValidHierarchy
  rw [components_agWindowClass]
  decide

theorem validPattern_of_components {pat : List UInt8} (noNul : 0 ∉ pat)
    (same : components pat = parts) (valid : ∀ c ∈ parts, c = wildcard ∨ c ≠ [] ∧ star ∉ c) :
    ValidPattern pat where
  noNul := noNul
  components := by
    rw [same]
    exact valid

/-- `"AG_Widget:*"` -/
def widgetPattern : List UInt8 := ascii "AG_Widget:*"

/-- `"*:AG_Object"` -/
def objectPattern : List UInt8 := ascii "*:AG_Object"

theorem components_objectPattern : components objectPattern = [wildcard, ascii "AG_Object"] := by
  decide

theorem validPattern_objectPattern : ValidPattern objectPattern :=
  validPattern_of_components (by decide) components_objectPattern (by decide)

theorem matchersAgree_window : MatchersAgree agWindowClass widgetPattern := by
  have parts : components widgetPattern = [ascii "AG_Widget", wildcard] := by decide
  have valid : ValidPattern widgetPattern :=
    validPattern_of_components (by decide) parts (by decide)
  rw [matchersAgree_iff_decided validHierarchy_agWindowClass valid]
  apply And.intro (by decide)
  intro _
  rw [parts, components_agWindowClass]
  simp [Compatible, LongEnough]

theorem window_passes_for_object : ¬ ∀ cls pat, ValidHierarchy cls.hier.bytes → ValidPattern pat →
        MatchersAgree cls pat := by
  intro agree
  obtain ⟨same, right⟩ :=
    agree agWindowClass objectPattern validHierarchy_agWindowClass validPattern_objectPattern
  have accepted : classIsNamed agWindowClass objectPattern = true :=
    classIsNamed_leading (by decide) (by decide) (by decide)
  have matching := right.mp (same.mp accepted)
  rw [Matches, components_objectPattern, components_agWindowClass,
    patternMatches_cons_cons] at matching
  rcases matching.2 with wild | named
  · exact absurd wild (by decide)
  · exact absurd named (by decide)

end Agar.Core
