import Agar.Web.EscapeURL

namespace Agar.Web

open Agar.Lib
open Agar.Core

/-!
# URL-encoded forms

The text of a form as it is encoded, and `WEB_ParseFormUrlEncoded` with the
memory of its arguments.  Values are decoded and keys are not; and what is
allocated before a token that fails is neither released nor taken out of the
query.
-/

/-! ## The encoded form -/

/-- A character that stands for itself in `application/x-www-form-urlencoded` -/
def isFormPlain (c : UInt8) : Bool := isAlnum c || (ascii "*-._").contains c

/-- An upper-case hexadecimal digit -/
def upperDigit (n : UInt8) : UInt8 :=
  if n < 10 then 48 + n else 55 + n

/-- What stands for a character in a form -/
def formChar (c : UInt8) : List UInt8 :=
  if isFormPlain c then [c]
  else if c = 32 then [43]
  else [37, upperDigit (c >>> 4), upperDigit (c &&& 15)]

/-- A key or a value in a form -/
def formEncode (text : List UInt8) : List UInt8 := text.flatMap formChar

/-- A key with its value in a form -/
def formPair (pair : List UInt8 × List UInt8) : List UInt8 :=
  formEncode pair.1 ++ 61 :: formEncode pair.2

/-- The text of a form -/
def formText (pairs : List (List UInt8 × List UInt8)) : List UInt8 :=
  [38].intercalate (pairs.map formPair)

/-- A key that is the same in a form -/
def PlainKey (key : List UInt8) : Prop := key ≠ [] ∧ ∀ c ∈ key, isFormPlain c = true

instance (key : List UInt8) : Decidable (PlainKey key) := inferInstanceAs (Decidable (_ ∧ _))

/-- The pairs are strings within the limits of `WEB_ParseFormUrlEncoded`. -/
structure WithinLimits (pairs : List (List UInt8 × List UInt8)) : Prop where
  count : pairs.length ≤ maxArgs
  keyNoNul : ∀ pair ∈ pairs, 0 ∉ pair.1
  keyShort : ∀ pair ∈ pairs, pair.1.length < argKeyMax
  valueNoNul : ∀ pair ∈ pairs, 0 ∉ pair.2
  valueShort : ∀ pair ∈ pairs, pair.2.length + 1 ≤ argLengthMax

/-- The argument of a pair -/
def argumentOf (type : UInt8) (pair : List UInt8 × List UInt8) : WebArgument where
  type := type
  key := .strlcpy pair.1
  value := pair.2 ++ [0]
  len := pair.2.length + 1
  contentType := .strlcpy []

/-! ## The function, with its memory -/

/-- The answers to the requests for memory, for each turn of the loop -/
structure FormRequests where
  /-- `TryStrdup(qsinput)` -/
  copy : Bool
  /-- `TryMalloc(sizeof(WEB_Argument))` -/
  argument : Nat → Bool
  /-- the value, by `WEB_UnescapeURL` or `TryStrdup` -/
  value : Nat → Bool

/--
The arguments that were allocated so far, by their number, those of them that
are in the list of the query, and those that were passed to `free`
-/
structure FormState where
  allocated : Nat
  inserted : List (Nat × WebArgument)
  freed : List Nat
  deriving DecidableEq

/-- `free(arg)` -/
def FormState.free (state : FormState) (arg : Nat) : FormState :=
  { state with freed := state.freed ++ [arg] }

/-- How a turn of the loop ends -/
inductive TokenTurn where
  | next (state : FormState)
  /-- The function returns -1. -/
  | failed (state : FormState)
  deriving DecidableEq

/-- A turn of the loop, with a token -/
def tokenTurn (requests : FormRequests) (type : UInt8) (state : FormState)
    (s : List UInt8) : TokenTurn :=
  let arg := state.allocated
  if requests.argument arg = false then .failed state
  else
    let state := { state with allocated := arg + 1 }
    let tokens := strsep (ascii "=") s
    let name := tokens.headD []
    let (value, len) := formValue tokens[1]?
    if name = [] then .next state
    else if name.length ≥ argKeyMax then .failed (state.free arg)
    else if requests.value arg = false then .failed (state.free arg)
    else if len > argLengthMax then
      -- the argument is freed here, and once more where the function fails
      .failed ((state.free arg).free arg)
    else
      .next
        { state with
          inserted := state.inserted ++ [(arg,
            { type := type
              key := .strlcpy name
              value := value
              len := len
              contentType := .strlcpy [] })] }

/-- The loop: whether the function returns 0, and the memory then -/
def tokenLoop (requests : FormRequests)
    (type : UInt8) : FormState → List (List UInt8) → Bool × FormState
  | state, [] => (true, state)
  | state, s :: rest =>
    match tokenTurn requests type state s with
    | .next state => tokenLoop requests type state rest
    | .failed state => (false, state)

/-- The tokens that the loop sees -/
def formTokens (qsinput : List UInt8) : List (List UInt8) :=
  (strsep (ascii "&") (cString qsinput)).take maxArgs

/-- Nothing is allocated. -/
def FormState.start : FormState where
  allocated := 0
  inserted := []
  freed := []

/-- `WEB_ParseFormUrlEncoded`: whether it returns 0, the query, and the memory -/
def parseForm (requests : FormRequests) (q : WebQuery) (qsinput : List UInt8)
    (type : UInt8) : Bool × WebQuery × FormState :=
  if requests.copy = false then (false, q, .start)
  else
    let (done, state) := tokenLoop requests type .start (formTokens qsinput)
    (done, { q with args := q.args ++ state.inserted.map (·.2) }, state)

/--
Every argument that was allocated is released exactly once, and none is in the
query.
-/
structure FormState.Released (state : FormState) : Prop where
  once : ∀ arg < state.allocated, state.freed.count arg = 1
  removed : state.inserted = []

/-- Every request is granted. -/
def FormRequests.granted : FormRequests where
  copy := true
  argument _ := true
  value _ := true

/-- A token for which the function fails before it has a value -/
def FailsEarly (requests : FormRequests) (s : List UInt8) : Prop :=
  requests.argument 0 = false ∨ (strsep (ascii "=") s).headD [] ≠ [] ∧
      (argKeyMax ≤ ((strsep (ascii "=") s).headD []).length ∨ requests.value 0 = false)

/-! ## Encoding -/

section

variable {c : UInt8} {text key : List UInt8} {pairs : List (List UInt8 × List UInt8)}

theorem isFormPlain_ne (plain : isFormPlain c = true) : c ≠ 37 ∧ c ≠ 38 ∧ c ≠ 43 ∧ c ≠ 61 := by
  refine ⟨?_, ?_, ?_, ?_⟩
  all_goals
    rintro rfl
    exact absurd plain (by decide)

theorem upperDigit_ne (small : c < 16) :
    upperDigit c ≠ 0 ∧ upperDigit c ≠ 38 ∧ upperDigit c ≠ 61 := by
  revert c
  decide +kernel

theorem nibbles_lt (c : UInt8) : c >>> 4 < 16 ∧ c &&& 15 < 16 := by
  revert c
  decide +kernel

theorem formChar_separates : ∀ d ∈ formChar c, d ≠ 38 ∧ d ≠ 61 ∧ (c ≠ 0 → d ≠ 0) := by
  obtain ⟨high, low⟩ := nibbles_lt c
  unfold formChar
  split_ifs with plain blank
  · obtain ⟨-, notAnd, -, notEqual⟩ := isFormPlain_ne plain
    intro d same
    rw [List.mem_singleton.mp same]
    exact ⟨notAnd, notEqual, id⟩
  · rw [List.forall_mem_singleton]
    exact ⟨by decide, by decide, fun _ => by decide⟩
  · rw [List.forall_mem_cons, List.forall_mem_cons, List.forall_mem_singleton]
    obtain ⟨highNonzero, highNotAnd, highNotEqual⟩ := upperDigit_ne high
    obtain ⟨lowNonzero, lowNotAnd, lowNotEqual⟩ := upperDigit_ne low
    exact ⟨⟨by decide, by decide, fun _ => by decide⟩,
      ⟨highNotAnd, highNotEqual, fun _ => highNonzero⟩,
      lowNotAnd, lowNotEqual, fun _ => lowNonzero⟩

theorem formEncode_separates {d : UInt8} (member : d ∈ formEncode text) : d ≠ 38 ∧ d ≠ 61 := by
  obtain ⟨c, -, inside⟩ := List.mem_flatMap.mp member
  obtain ⟨notAnd, notEqual, -⟩ := formChar_separates d inside
  exact ⟨notAnd, notEqual⟩

theorem formEncode_noNul (noNul : 0 ∉ text) : 0 ∉ formEncode text := by
  intro member
  obtain ⟨c, listed, inside⟩ := List.mem_flatMap.mp member
  obtain ⟨-, -, nonzero⟩ := formChar_separates 0 inside
  exact nonzero (fun zero => noNul (zero ▸ listed)) rfl

theorem read_upperDigits (c : UInt8) : isXDigit (upperDigit (c >>> 4)) = true ∧
      isXDigit (upperDigit (c &&& 15)) = true ∧ (16 : UInt8) * hexValue (upperDigit (c >>> 4)) +
          hexValue (upperDigit (c &&& 15)) = c := by
  revert c
  decide +kernel

theorem unescape_formChar (nonzero : c ≠ 0) (rest : List UInt8) :
    unescape (formChar c ++ rest) = c :: unescape rest := by
  unfold formChar
  split
  case isTrue plain =>
    obtain ⟨notPercent, -, notPlus, -⟩ := isFormPlain_ne plain
    rw [List.singleton_append, unescape]
    · exact fun _ _ _ same _ => notPercent same
    · exact notPlus
  case isFalse =>
    split
    case isTrue blank => rw [List.singleton_append, unescape, blank]
    case isFalse =>
      obtain ⟨high, low, value⟩ := read_upperDigits c
      rw [List.cons_append, List.cons_append, List.singleton_append, unescape, high, low]
      simp only [Bool.and_self, if_true, value, if_neg nonzero]

theorem unescape_formEncode (noNul : 0 ∉ text) : unescape (formEncode text) = text := by
  induction text with
  | nil => rfl
  | cons c text ih =>
    rw [List.mem_cons, not_or] at noNul
    rw [formEncode, List.flatMap_cons, unescape_formChar (Ne.symm noNul.1), ← formEncode,
      ih noNul.2]

theorem length_formChar_pos (c : UInt8) : 0 < (formChar c).length := by
  unfold formChar
  split_ifs <;> exact Nat.succ_pos _

theorem length_le_formEncode (text : List UInt8) : text.length ≤ (formEncode text).length := by
  induction text with
  | nil => exact Nat.zero_le _
  | cons c text ih =>
    have one := length_formChar_pos c
    rw [formEncode, List.flatMap_cons, List.length_append, ← formEncode, List.length_cons]
    omega

theorem formEncode_eq_self : formEncode text = text ↔ ∀ c ∈ text, isFormPlain c = true := by
  induction text with
  | nil => simp [formEncode]
  | cons c text ih =>
    rw [List.forall_mem_cons, ← ih, formEncode, List.flatMap_cons, ← formEncode]
    have longer := length_le_formEncode text
    by_cases plain : isFormPlain c = true
    · rw [formChar, if_pos plain]
      simp [plain]
    · refine iff_of_false ?_ fun both => plain both.1
      rw [formChar, if_neg plain]
      split
      case isTrue blank =>
        rw [blank]
        exact fun same => absurd (List.cons.inj same).1 (by decide)
      case isFalse =>
        intro same
        have lengths := congrArg List.length same
        simp only [List.length_append, List.length_cons, List.length_nil] at lengths
        omega

/-! ## The tokens of a form -/

theorem strsep_singleton (separator : UInt8) (text : List UInt8) :
    strsep [separator] text = text.splitOn separator := by
  rw [strsep, List.splitOn_eq_splitOnP]
  congr 1
  funext c
  simp [beq_eq_decide]

theorem notMem_intercalate {separator : UInt8} (different : c ≠ separator)
    {parts : List (List UInt8)} (absent : ∀ part ∈ parts, c ∉ part) :
    c ∉ [separator].intercalate parts := by
  induction parts with
  | nil => exact List.not_mem_nil
  | cons part rest ih =>
    rw [List.forall_mem_cons] at absent
    by_cases last : rest = []
    · rw [last, List.intercalate_singleton]
      exact absent.1
    · rw [List.intercalate_cons_of_ne_nil last, List.mem_append,
        List.mem_append, List.mem_singleton, not_or, not_or]
      exact ⟨⟨absent.1, different⟩, ih absent.2⟩

theorem formPair_separates (pair : List UInt8 × List UInt8) : 38 ∉ formPair pair := by
  rw [formPair, List.mem_append, List.mem_cons]
  rintro (key | equal | value)
  · exact (formEncode_separates key).1 rfl
  · exact absurd equal (by decide)
  · exact (formEncode_separates value).1 rfl

theorem formPair_noNul {pair : List UInt8 × List UInt8} (keyNoNul : 0 ∉ pair.1)
    (valueNoNul : 0 ∉ pair.2) : 0 ∉ formPair pair := by
  rw [formPair, List.mem_append, List.mem_cons]
  rintro (key | equal | value)
  · exact formEncode_noNul keyNoNul key
  · exact absurd equal (by decide)
  · exact formEncode_noNul valueNoNul value

theorem strsep_formPair (pair : List UInt8 × List UInt8) : strsep (ascii "=") (formPair pair) =
      [formEncode pair.1, formEncode pair.2] := by
  rw [show ascii "=" = [61] from rfl, strsep_singleton, formPair,
    List.splitOn_append_cons_self_of_not_mem (fun member => (formEncode_separates member).2 rfl),
    List.splitOn_eq_singleton (fun member => (formEncode_separates member).2 rfl)]

theorem formTokens_formText (limits : WithinLimits pairs) (some : pairs ≠ []) :
    formTokens (formText pairs) = pairs.map formPair := by
  have noNul : 0 ∉ formText pairs := by
    refine notMem_intercalate (by decide) fun part listed => ?_
    obtain ⟨pair, member, rfl⟩ := List.mem_map.mp listed
    exact formPair_noNul (limits.keyNoNul pair member) (limits.valueNoNul pair member)
  have separate : ∀ part ∈ pairs.map formPair, 38 ∉ part := by
    intro part listed
    obtain ⟨pair, -, rfl⟩ := List.mem_map.mp listed
    exact formPair_separates pair
  rw [formTokens, cString_of_noNul noNul, show ascii "&" = [38] from rfl,
    strsep_singleton, formText,
    List.splitOn_intercalate 38 separate (by simpa using some),
    List.take_of_length_le (by rw [List.length_map]; exact limits.count)]

end

/-! ## The loop -/

section

variable {requests : FormRequests} {type : UInt8} {state next : FormState}
  {pairs : List (List UInt8 × List UInt8)}

variable {s : List UInt8}

theorem tokenTurn_next (turned : tokenTurn requests type state s = .next next) :
    next.allocated = state.allocated + 1 ∧ next.freed = state.freed ∧ ∃ added,
        next.inserted = state.inserted ++ added ∧ added.length ≤ 1 := by
  unfold tokenTurn at turned
  simp only at turned
  split_ifs at turned
  · cases turned
    exact ⟨rfl, rfl, [], (List.append_nil _).symm, Nat.zero_le _⟩
  · cases turned
    exact ⟨rfl, rfl, _, rfl, le_rfl⟩

theorem tokenTurn_failed (turned : tokenTurn requests type state s = .failed next) :
    next.inserted = state.inserted ∧ state.allocated ≤ next.allocated ∧
      ∀ arg < state.allocated, next.freed.count arg = state.freed.count arg := by
  unfold tokenTurn at turned
  simp only at turned
  split_ifs at turned
  · cases turned
    exact ⟨rfl, le_rfl, fun _ _ => rfl⟩
  all_goals
    cases turned
    refine ⟨rfl, Nat.le_succ _, fun arg below => ?_⟩
    simp [FormState.free, List.count_append, Ne.symm (Nat.ne_of_lt below)]

theorem tokenLoop_keeps (tokens : List (List UInt8)) :
    state.allocated ≤ (tokenLoop requests type state tokens).2.allocated ∧ ∀ arg < state.allocated,
        (tokenLoop requests type state tokens).2.freed.count arg = state.freed.count arg := by
  induction tokens generalizing state with
  | nil => exact ⟨le_rfl, fun _ _ => rfl⟩
  | cons s rest ih =>
    rw [tokenLoop]
    cases turned : tokenTurn requests type state s with
    | failed next => exact (tokenTurn_failed turned).2
    | next next =>
      obtain ⟨more, same, -⟩ := tokenTurn_next turned
      obtain ⟨later, kept⟩ := @ih next
      dsimp only
      refine ⟨by omega, fun arg below => ?_⟩
      rw [kept arg (by omega), same]

theorem tokenLoop_inserted (tokens : List (List UInt8)) : ∃ added,
      (tokenLoop requests type state tokens).2.inserted = state.inserted ++ added ∧
        added.length ≤ tokens.length := by
  induction tokens generalizing state with
  | nil => exact ⟨[], (List.append_nil _).symm, le_rfl⟩
  | cons s rest ih =>
    rw [tokenLoop]
    cases turned : tokenTurn requests type state s with
    | failed next => exact ⟨[], by rw [(tokenTurn_failed turned).1, List.append_nil], Nat.zero_le _⟩
    | next next =>
      obtain ⟨-, -, first, inserted, one⟩ := tokenTurn_next turned
      obtain ⟨later, whole, fewer⟩ := @ih next
      refine ⟨first ++ later, ?_, ?_⟩
      · rw [whole, inserted, List.append_assoc]
      · rw [List.length_append, List.length_cons]
        omega

/-! ## Decoding a form -/

theorem tokenTurn_unnamed {pair : List UInt8 × List UInt8} (empty : pair.1 = []) :
    tokenTurn .granted type state (formPair pair) =
      .next { state with allocated := state.allocated + 1 } := by
  unfold tokenTurn
  rw [strsep_formPair, empty]
  rfl

theorem tokenTurn_pair {pair : List UInt8 × List UInt8} (named : pair.1 ≠ []) (noNul : 0 ∉ pair.2)
    (short : pair.2.length + 1 ≤ argLengthMax) :
    tokenTurn .granted type state (formPair pair) = if argKeyMax ≤ (formEncode pair.1).length then
        .failed
          { state with allocated := state.allocated + 1, freed := state.freed ++ [state.allocated] }
      else
        .next
          { state with
            allocated := state.allocated + 1
            inserted := state.inserted ++
              [(state.allocated, argumentOf type (formEncode pair.1, pair.2))]
          } := by
  have encoded : formEncode pair.1 ≠ [] := by
    intro empty
    have longer := length_le_formEncode pair.1
    rw [empty] at longer
    exact named (List.eq_nil_of_length_eq_zero (Nat.le_zero.mp longer))
  unfold tokenTurn
  rw [strsep_formPair]
  simp only [List.headD_cons, List.getElem?_cons_succ, List.getElem?_cons_zero,
    formValue, unescape_formEncode noNul, FormRequests.granted,
    Bool.true_eq_false, if_false, if_neg encoded, Nat.not_lt.mpr short,
    ge_iff_le]
  rfl

theorem strlcpy_injective {first second : List UInt8} (firstNoNul : 0 ∉ first)
    (firstFits : first.length < argKeyMax) (secondNoNul : 0 ∉ second)
    (secondFits : second.length < argKeyMax)
    (same : (CString.strlcpy first : CString argKeyMax) = .strlcpy second) : first = second := by
  have bytes := congrArg CString.bytes same
  rwa [CString.strlcpy_bytes_of_fits firstNoNul firstFits,
    CString.strlcpy_bytes_of_fits secondNoNul secondFits] at bytes

theorem WithinLimits.tail {pair : List UInt8 × List UInt8} (limits : WithinLimits (pair :: pairs)) :
    WithinLimits pairs := by
  obtain ⟨count, keyNoNul, keyShort, valueNoNul, valueShort⟩ := limits
  rw [List.forall_mem_cons] at keyNoNul keyShort valueNoNul valueShort
  rw [List.length_cons] at count
  exact ⟨by omega, keyNoNul.2, keyShort.2, valueNoNul.2, valueShort.2⟩

theorem tokenLoop_pairs_iff (limits : WithinLimits pairs) :
    ((tokenLoop .granted type state (pairs.map formPair)).1 = true ∧
        (tokenLoop .granted type state (pairs.map formPair)).2.inserted.map (·.2) =
          state.inserted.map (·.2) ++ pairs.map (argumentOf type)) ↔
      ∀ pair ∈ pairs, PlainKey pair.1 := by
  induction pairs generalizing state with
  | nil => simp [tokenLoop]
  | cons pair rest ih =>
    have valueNoNul := limits.valueNoNul pair List.mem_cons_self
    have valueShort := limits.valueShort pair List.mem_cons_self
    have keyNoNul := limits.keyNoNul pair List.mem_cons_self
    have keyShort := limits.keyShort pair List.mem_cons_self
    rw [List.forall_mem_cons, List.map_cons, List.map_cons, tokenLoop]
    by_cases named : pair.1 = []
    · -- the tokens that are left give too few arguments
      rw [tokenTurn_unnamed named]
      refine iff_of_false ?_ fun plain => plain.1.1 named
      rintro ⟨-, whole⟩
      dsimp only at whole
      obtain ⟨added, inserted, fewer⟩ :=
        @tokenLoop_inserted .granted type
          { state with allocated := state.allocated + 1 }
          (rest.map formPair)
      rw [inserted, List.map_append] at whole
      have lengths := congrArg List.length (List.append_cancel_left whole)
      simp only [List.length_map, List.length_cons] at lengths fewer
      omega
    · rw [tokenTurn_pair named valueNoNul valueShort]
      by_cases long : argKeyMax ≤ (formEncode pair.1).length
      · rw [if_pos long]
        refine iff_of_false (fun ends => Bool.noConfusion ends.1) ?_
        rintro ⟨⟨-, plain⟩, -⟩
        rw [formEncode_eq_self.mpr plain] at long
        omega
      · rw [if_neg long]
        dsimp only
        by_cases plain : formEncode pair.1 = pair.1
        · rw [plain]
          have both : PlainKey pair.1 := ⟨named, formEncode_eq_self.mp plain⟩
          rw [← @ih
            { state with
              allocated := state.allocated + 1
              inserted := state.inserted ++ [(state.allocated, argumentOf type (pair.1, pair.2))] }
            limits.tail]
          simp only [both, true_and, List.map_append, List.map_cons,
            List.map_nil, List.append_assoc, List.singleton_append]
        · refine iff_of_false ?_ fun both =>
            plain (formEncode_eq_self.mpr both.1.2)
          rintro ⟨-, whole⟩
          obtain ⟨added, inserted, -⟩ :=
            @tokenLoop_inserted .granted type
              { state with
                allocated := state.allocated + 1
                inserted := state.inserted ++ [(state.allocated,
                    argumentOf type (formEncode pair.1, pair.2))] }
              (rest.map formPair)
          rw [inserted, List.map_append, List.map_append, List.append_assoc] at whole
          have first := (List.cons.inj (List.append_cancel_left whole)).1
          exact plain (strlcpy_injective (formEncode_noNul keyNoNul)
            (Nat.lt_of_not_le long) keyNoNul keyShort
            (congrArg WebArgument.key first))

/-! ## Releasing arguments -/

theorem formTokens_ne_nil (qsinput : List UInt8) : formTokens qsinput ≠ [] := by
  unfold formTokens strsep
  rw [Ne, List.take_eq_nil_iff, not_or]
  exact ⟨by decide, List.splitOnP_ne_nil _ _⟩

theorem not_released_of_next {tokens : List (List UInt8)}
    (turned : tokenTurn requests type .start s = .next next) :
    ¬ (tokenLoop requests type next tokens).2.Released := by
  intro released
  obtain ⟨more, same, -⟩ := tokenTurn_next turned
  obtain ⟨later, kept⟩ := @tokenLoop_keeps requests type next tokens
  have one : next.allocated = 1 := more
  have once := released.once 0 (by omega)
  rw [kept 0 (by omega), same] at once
  exact absurd once (by decide)

theorem not_failsEarly_of_next (turned : tokenTurn requests type .start s = .next next) :
    ¬ FailsEarly requests s := by
  unfold tokenTurn at turned
  simp only at turned
  rintro (refused | ⟨named, late⟩)
  · rw [if_pos (show requests.argument FormState.start.allocated = false from
      refused)] at turned
    exact TokenTurn.noConfusion turned
  · rw [if_neg named] at turned
    split_ifs at turned with refused long noValue
    rcases late with late | late
    · exact long late
    · exact noValue late

theorem released_failed_iff (turned : tokenTurn requests type .start s = .failed next) :
    next.Released ↔ FailsEarly requests s := by
  have freedOnce : (FormState.free { FormState.start with allocated := 1 } 0).Released := by
    refine ⟨fun arg below => ?_, rfl⟩
    obtain rfl : arg = 0 := Nat.lt_one_iff.mp below
    rfl
  unfold tokenTurn at turned
  simp only at turned
  split_ifs at turned with refused unnamed long noValue big
  · cases turned
    exact iff_of_true ⟨fun _ below => absurd below (Nat.not_lt_zero _), rfl⟩ (.inl refused)
  · cases turned
    exact iff_of_true freedOnce (.inr ⟨unnamed, .inl long⟩)
  · cases turned
    exact iff_of_true freedOnce (.inr ⟨unnamed, .inr noValue⟩)
  · cases turned
    -- the value is too long, and the argument is freed twice
    refine iff_of_false (fun released => ?_) ?_
    · exact absurd (released.once 0 Nat.one_pos) (by decide)
    · rintro (early | ⟨-, early | early⟩)
      · exact refused early
      · exact long early
      · exact noValue early

theorem tokenLoop_released_iff {tokens : List (List UInt8)} :
    (tokenLoop requests type .start (s :: tokens)).1 = false →
      ((tokenLoop requests type .start (s :: tokens)).2.Released ↔ FailsEarly requests s) := by
  rw [tokenLoop]
  cases turned : tokenTurn requests type .start s with
  | next next =>
    intro
    exact iff_of_false (not_released_of_next turned) (not_failsEarly_of_next turned)
  | failed next =>
    intro
    exact released_failed_iff turned

end

/-! ## The function -/

section

variable {requests : FormRequests} {q : WebQuery} {qsinput : List UInt8} {type : UInt8}
  {pairs : List (List UInt8 × List UInt8)}

theorem parseForm_formText_iff (limits : WithinLimits pairs) :
    ((parseForm .granted q (formText pairs) type).1 = true ∧
        (parseForm .granted q (formText pairs) type).2.1 =
          { q with args := q.args ++ pairs.map (argumentOf type) }) ↔
      ∀ pair ∈ pairs, PlainKey pair.1 := by
  by_cases none : pairs = []
  · subst none
    refine iff_of_true ?_ (fun _ member => absurd member List.not_mem_nil)
    exact ⟨rfl, rfl⟩
  · rw [← @tokenLoop_pairs_iff type .start pairs limits]
    unfold parseForm
    rw [formTokens_formText limits none, if_neg (by decide)]
    simp only [WebQuery.mk.injEq, List.append_cancel_left_eq, true_and,
      and_true, FormState.start, List.map_nil, List.nil_append]

theorem parseForm_released_iff (fails : (parseForm requests q qsinput type).1 = false) :
    (parseForm requests q qsinput type).2.2.Released ↔ requests.copy = false ∨
        FailsEarly requests ((formTokens qsinput).headD []) := by
  unfold parseForm at fails ⊢
  by_cases copied : requests.copy = false
  · rw [if_pos copied]
    exact iff_of_true ⟨fun _ below => absurd below (Nat.not_lt_zero _), rfl⟩ (.inl copied)
  · rw [if_neg copied] at fails ⊢
    cases tokens : formTokens qsinput with
    | nil => exact absurd tokens (formTokens_ne_nil qsinput)
    | cons s rest =>
      rw [tokens] at fails
      rw [tokenLoop_released_iff fails, List.headD_cons, or_iff_right copied]

end

/--
A form is decoded exactly if its keys are the same in it, and a form that fails
leaves nothing behind exactly if it fails before its first argument has a value.
-/
theorem parseForm_iff (q : WebQuery) (type : UInt8) : (∀ pairs : List (List UInt8 × List UInt8),
      WithinLimits pairs → (((parseForm .granted q (formText pairs) type).1 = true ∧
            (parseForm .granted q (formText pairs) type).2.1 =
              { q with args := q.args ++ pairs.map (argumentOf type) }) ↔
          ∀ pair ∈ pairs, PlainKey pair.1)) ∧
      ∀ (requests : FormRequests) (qsinput : List UInt8),
        (parseForm requests q qsinput type).1 = false →
          ((parseForm requests q qsinput type).2.2.Released ↔ requests.copy = false ∨
              FailsEarly requests ((formTokens qsinput).headD [])) :=
  ⟨fun _ limits => parseForm_formText_iff limits, fun _ _ fails => parseForm_released_iff fails⟩

theorem parseForm_iff_separators : (parseForm .granted (queryInit ⟨0, 0⟩ [])
          (formText [(ascii "a", ascii "1=2&3")]) getArgument).2.1.args =
        [argumentOf getArgument (ascii "a", ascii "1=2&3")] ∧
      (parseForm .granted (queryInit ⟨0, 0⟩ []) (List.replicate argKeyMax 98)
          getArgument).2.2.Released := by
  constructor
  · have limits : WithinLimits [(ascii "a", ascii "1=2&3")] := by
      refine ⟨by decide, ?_, ?_, ?_, ?_⟩
      all_goals
        rw [List.forall_mem_singleton]
        decide
    have plain : ∀ pair ∈ [(ascii "a", ascii "1=2&3")], PlainKey pair.1 := by decide +kernel
    rw [(((parseForm_iff _ _).1 _ limits).mpr plain).2]
    rfl
  · have early : FailsEarly .granted ((formTokens (List.replicate argKeyMax 98)).headD []) := by
      unfold FailsEarly
      exact .inr ⟨by decide +kernel, .inl (by decide +kernel)⟩
    exact ((parseForm_iff _ _).2 _ _ (by decide +kernel)).mpr (.inr early)

theorem parseForm_blank_key : WithinLimits [(ascii "a b", ascii "c")] ∧
      (parseForm .granted (queryInit ⟨0, 0⟩ [])
          (formText [(ascii "a b", ascii "c")]) getArgument).2.1.args =
        [argumentOf getArgument (ascii "a+b", ascii "c")] ∧
      argumentOf getArgument (ascii "a+b", ascii "c") ≠
        argumentOf getArgument (ascii "a b", ascii "c") ∧
      (parseForm .granted (queryInit ⟨0, 0⟩ [])
          (ascii "a=1&" ++ List.replicate argKeyMax 98) getArgument).1 =
        false ∧
      (parseForm .granted (queryInit ⟨0, 0⟩ [])
          (ascii "a=1&" ++ List.replicate argKeyMax 98) getArgument).2.1.args =
        [argumentOf getArgument (ascii "a", ascii "1")] := by
  refine ⟨⟨by decide, ?_, ?_, ?_, ?_⟩, by decide +kernel, by decide +kernel,
    by decide +kernel, by decide +kernel⟩
  all_goals
    rw [List.forall_mem_singleton]
    decide

end Agar.Web
