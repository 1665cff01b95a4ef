import Agar.Web.FormParts

namespace Agar.Web

open Agar.Lib
open Agar.Core

/-!
# Reading a form inside of its memory

Exactly the bodies that are cut short behind a delimiter or a `Content-Type`
header line are read beyond their end.
-/

/-! ## Lengths -/

theorem formType_length {cNext contentType behind : List UInt8}
    (present : formType cNext = .present contentType behind) : behind.length ≤ cNext.length := by
  unfold formType at present
  split at present
  case isFalse => cases present
  case isTrue =>
    split at present
    · cases present
    case h_2 text rest found =>
      split at present
      · cases present
      · cases present
        have shape := (splitAtByte_eq_some found).1
        have width := congrArg List.length shape
        rw [List.length_drop, List.length_append, List.length_cons] at width
        rw [List.length_drop, List.length_append, List.length_append,
          List.length_take, List.length_cons]
        omega

theorem ValueFrom.length_le {cNext start : List UInt8} (value : ValueFrom cNext start) :
    start.length ≤ cNext.length := by
  cases value with
  | untyped absent => exact (List.dropWhile_suffix _).length_le
  | typed present =>
    have within := formType_length present
    rw [List.length_cons, List.length_cons] at within
    omega

/-! ## One turn -/

variable {fresh : UInt8} {delimiter c : List UInt8}

theorem formPart_eq_part {key contentType cStart cEnd : List UInt8} {arg : WebArgument}
    (parted : formPart fresh delimiter key contentType cStart = .part arg cEnd) :
    ∃ part, splitAtInfix delimiter cStart = some (part, cEnd) ∧ part.length + 1 ≤ argLengthMax := by
  unfold formPart at parted
  split at parted
  · cases parted
  case h_2 part next found =>
    split at parted
    · cases parted
    case isFalse fits =>
      cases parted
      exact ⟨part, found, Nat.le_of_not_lt fits⟩

theorem ValueFrom.unique {cNext start other : List UInt8} (first : ValueFrom cNext start)
    (second : ValueFrom cNext other) : start = other := by
  cases first with
  | untyped absent =>
    cases second with
    | untyped => rfl
    | typed present =>
      rw [absent] at present
      cases present
  | typed present =>
    cases second with
    | untyped absent =>
      rw [absent] at present
      cases present
    | typed again =>
      rw [present] at again
      cases again
      rfl

/-- How one turn ends, and what of the body is then left to be cut short -/
inductive TurnFrom (delimiter c : List UInt8) : Except Stop FormTurn → Prop
  | outside
      (cut : CutShort delimiter c) :
      TurnFrom delimiter c (.error .undefined)
  | ends
      (whole : ¬ CutShort delimiter c) :
      TurnFrom delimiter c (.ok .ends)
  | fails
      (whole : ¬ CutShort delimiter c) :
      TurnFrom delimiter c (.ok .fails)
  | part
      {arg : WebArgument}
      {cEnd : List UInt8}
      (same : CutShort delimiter c ↔ CutShort delimiter cEnd)
      (there : delimiter <+: cEnd)
      (shorter : cEnd.length < c.length) :
      TurnFrom delimiter c (.ok (.part arg cEnd))

section Header

variable {line cNext key start contentType : List UInt8} (enough : delimiter.length + 2 ≤ c.length)
  (first : splitAtByte 10 (c.drop (delimiter.length + 2)) = some (line, cNext))

include enough

theorem not_cutShort_of_no_line (none : splitAtByte 10 (c.drop (delimiter.length + 2)) = none) :
    ¬ CutShort delimiter c := by
  intro cut
  cases cut with
  | delimiter cut => omega
  | header first | later first =>
    rw [none] at first
    cases first

include first

theorem not_cutShort_of_no_name (unnamed : formName line = none) : ¬ CutShort delimiter c := by
  intro cut
  cases cut with
  | delimiter cut => omega
  | header other named | later other named =>
    rw [first] at other
    cases other
    rw [unnamed] at named
    cases named

theorem cutShort_behind_header (value : ValueFrom cNext start) (cut : CutShort delimiter c) :
    ∃ part cEnd, splitAtInfix delimiter start = some (part, cEnd) ∧ part.length + 1 ≤ argLengthMax ∧
        CutShort delimiter cEnd := by
  cases cut with
  | delimiter cut => omega
  | header other _ present short =>
    rw [first] at other
    cases other
    cases value with
    | untyped absent =>
      rw [absent] at present
      cases present
    | typed whole =>
      rw [whole] at present
      cases present
      exact absurd short (by simp)
  | later other _ otherValue next fits behind =>
    rw [first] at other
    cases other
    cases otherValue.unique value
    exact ⟨_, _, next, fits, behind⟩

theorem turnFrom_formPart (named : formName line = some key) (value : ValueFrom cNext start) :
    TurnFrom delimiter c (.ok (formPart fresh delimiter key contentType start)) := by
  cases parted : formPart fresh delimiter key contentType start with
  | ends =>
    unfold formPart at parted
    split at parted
    · cases parted
    · split at parted
      all_goals cases parted
  | fails =>
    refine .fails fun cut => ?_
    obtain ⟨part, cEnd, next, fits, _⟩ := cutShort_behind_header enough first value cut
    rw [formPart, next] at parted
    dsimp only at parted
    rw [if_neg (Nat.not_lt.mpr fits)] at parted
    cases parted
  | part arg cEnd =>
    obtain ⟨part, next, fits⟩ := formPart_eq_part parted
    obtain ⟨shape, there⟩ := splitAtInfix_eq_some next
    refine .part ⟨fun cut => ?_, .later first named value next fits⟩ there ?_
    · obtain ⟨_, _, again, _, behind⟩ :=
        cutShort_behind_header enough first value cut
      rw [next] at again
      cases again
      exact behind
    · have split := congrArg List.length (splitAtByte_eq_some first).1
      have within := value.length_le
      have width := congrArg List.length shape
      rw [List.length_drop, List.length_append, List.length_cons] at split
      rw [List.length_append] at width
      omega

end Header

theorem turnFrom_formTurn (fresh : UInt8) (delimiter c : List UInt8) :
    TurnFrom delimiter c (formTurn fresh delimiter c) := by
  unfold formTurn advance
  by_cases enough : delimiter.length + 2 ≤ c.length
  · rw [if_pos enough, ok_bind]
    cases first : splitAtByte 10 (c.drop (delimiter.length + 2)) with
    | none => exact .fails (not_cutShort_of_no_line enough first)
    | some parts =>
      obtain ⟨line, cNext⟩ := parts
      dsimp only
      cases named : formName line with
      | none => exact .ends (not_cutShort_of_no_name enough first named)
      | some key =>
        dsimp only
        cases typed : formType cNext with
        | absent => exact turnFrom_formPart enough first named (.untyped typed)
        | incomplete =>
          refine .fails fun cut => ?_
          cases cut with
          | delimiter cut => omega
          | header other _ present =>
            rw [first] at other
            cases other
            rw [typed] at present
            cases present
          | later other _ value =>
            rw [first] at other
            cases other
            cases value with
            | untyped type | typed type =>
              rw [typed] at type
              cases type
        | present contentType behind =>
          dsimp only
          match behind, typed with
          | [], typed | [_], typed => exact .outside (.header first named typed (by simp))
          | _ :: _ :: start, typed => exact turnFrom_formPart enough first named (.typed typed)
  · rw [if_neg enough]
    exact .outside (.delimiter (Nat.lt_of_not_le enough))

/-! ## The loop -/

theorem formDelimiter_dash {contentType : List UInt8}
    (named : formDelimiter contentType = some delimiter) : ∃ rest, delimiter = 45 :: rest := by
  unfold formDelimiter at named
  split at named
  · cases named
  · dsimp only at named
    split at named
    · cases named
    · cases named
      exact ⟨_, rfl⟩

section Loop

variable (dashes : ∃ rest, delimiter = 45 :: rest)

include dashes

theorem formLoop_at (there : delimiter <+: c) (fuel partIndex : Nat) (q : WebQuery) :
    formLoop fresh delimiter (fuel + 1) c partIndex q = (do
        match ← formTurn fresh delimiter c with
        | .ends => return (0, q)
        | .fails => return (-1, q)
        | .part arg cEnd =>
          formLoop fresh delimiter fuel cEnd (partIndex + 1)
            { q with args := q.args ++ [arg] }) := by
  obtain ⟨dashed, rfl⟩ := dashes
  obtain ⟨rest, rfl⟩ := there
  have prefixed : (45 :: dashed).isPrefixOf (45 :: (dashed ++ rest)) = true :=
    List.isPrefixOf_iff_prefix.mpr ⟨rest, rfl⟩
  rw [List.cons_append, formLoop, if_neg (by decide)]
  exact if_neg (by simp [prefixed])

theorem formLoop_later_ok_iff {fuel partIndex : Nat} (fuelled : c.length ≤ fuel)
    (there : delimiter <+: c) (q : WebQuery) :
    (∃ result, formLoop fresh delimiter fuel c partIndex q = .ok result) ↔
      ¬ CutShort delimiter c := by
  induction fuel generalizing c partIndex q with
  | zero =>
    obtain ⟨dashed, rfl⟩ := dashes
    obtain rfl := List.length_eq_zero_iff.mp (Nat.le_zero.mp fuelled)
    exact absurd (List.prefix_nil.mp there) (List.cons_ne_nil _ _)
  | succ fuel ih =>
    rw [formLoop_at dashes there]
    have turn := turnFrom_formTurn fresh delimiter c
    cases taken : formTurn fresh delimiter c with
    | error stop =>
      rw [taken] at turn
      cases turn with
      | outside cut =>
        refine iff_of_false ?_ (not_not.mpr cut)
        rintro ⟨_, failed⟩
        cases failed
    | ok result =>
      rw [taken] at turn
      rw [ok_bind]
      cases turn with
      | ends whole | fails whole => exact iff_of_true ⟨_, rfl⟩ whole
      | part same next shorter =>
        rw [same]
        exact ih (by omega) next _

theorem formLoop_ok_iff {fuel : Nat} (fuelled : c.length ≤ fuel) (q : WebQuery) :
    (∃ result, formLoop fresh delimiter fuel c 0 q = .ok result) ↔ ¬ CutBody delimiter c := by
  induction c generalizing fuel with
  | nil =>
    refine iff_of_true ⟨(0, q), by cases fuel <;> rfl⟩ ?_
    rintro ⟨skipped, c, found, _⟩
    obtain ⟨dashed, rfl⟩ := dashes
    cases found
  | cons first rest ih =>
    obtain ⟨fuel, rfl⟩ : ∃ turns, fuel = turns + 1 :=
      ⟨fuel - 1, by rw [List.length_cons] at fuelled; omega⟩
    by_cases there : delimiter <+: first :: rest
    · have same : CutBody delimiter (first :: rest) ↔ CutShort delimiter (first :: rest) := by
        rw [CutBody, splitAtInfix_prefixOf there]
        constructor
        · rintro ⟨_, _, found, _, cut⟩
          cases found
          exact cut
        · exact fun cut => ⟨_, _, rfl, List.not_mem_nil, cut⟩
      rw [same]
      exact formLoop_later_ok_iff dashes fuelled there q
    · rw [formLoop]
      split
      case isTrue terminator =>
        refine iff_of_true ⟨_, rfl⟩ ?_
        rintro ⟨skipped, c, found, noNul, _⟩
        rw [splitAtInfix_cons there] at found
        obtain ⟨_, _, same⟩ := Option.map_eq_some_iff.mp found
        cases same
        exact noNul (terminator ▸ List.mem_cons_self)
      case isFalse character =>
        have skips : first ≠ 45 ∨ (0 = 0 ∧ ¬ delimiter.isPrefixOf (first :: rest) = true) :=
          .inr ⟨rfl, fun here => there (List.isPrefixOf_iff_prefix.mp here)⟩
        have same : CutBody delimiter (first :: rest) ↔ CutBody delimiter rest := by
          rw [CutBody, splitAtInfix_cons there]
          constructor
          · rintro ⟨_, _, found, noNul, cut⟩
            obtain ⟨⟨skipped, c⟩, later, parts⟩ := Option.map_eq_some_iff.mp found
            cases parts
            exact ⟨skipped, _, later, fun member => noNul (List.mem_cons_of_mem _ member), cut⟩
          · rintro ⟨skipped, c, later, noNul, cut⟩
            refine ⟨first :: skipped, c, by rw [later]; rfl, ?_, cut⟩
            rw [List.mem_cons, not_or]
            exact ⟨Ne.symm character, noNul⟩
        rw [if_pos skips, same]
        exact ih (Nat.le_of_succ_le_succ fuelled)

end Loop

theorem readsInside_iff (fresh : UInt8) (q : WebQuery) (received : List UInt8) :
    ReadsInside fresh q received ↔ ∀ delimiter, formDelimiter q.contentType.bytes = some delimiter →
        q.contentLength ≤ received.length →
          ¬ CutBody delimiter (received.take q.contentLength) := by
  unfold ReadsInside readFormData
  cases named : formDelimiter q.contentType.bytes with
  | none => exact iff_of_true ⟨_, rfl⟩ nofun
  | some delimiter =>
    dsimp only
    by_cases short : received.length < q.contentLength
    · rw [if_pos short]
      exact iff_of_true ⟨_, rfl⟩ fun _ _ long => absurd long (by omega)
    · rw [if_neg short]
      refine (formLoop_ok_iff (formDelimiter_dash named) (Nat.le_refl _)
        q).trans ⟨?_, fun whole => whole delimiter rfl (by omega)⟩
      rintro whole _ ⟨⟩ _
      exact whole

end Agar.Web
