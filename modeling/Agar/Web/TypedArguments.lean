import Agar.Web.Query

namespace Agar.Web

open Agar.Lib
open Agar.Core

/-!
# Arguments that are numbers

`WEB_GetInt` and its relatives give the value of an argument as a number.  They
have `strtol` or `strtoul` read it, which go on where a number begins behind
white space, and they narrow what was read to the type that is asked for.

`long` and `long long` have 64 bits.
-/

/-- Why an argument is not given as a number -/
inductive NumberError where
  /-- `Argument "…" is missing` -/
  | missing
  /-- `…: Not a number` -/
  | notANumber
  /-- `…: Out of range` -/
  | outOfRange
  /-- `…: Out of range (…-…)` -/
  | outOfRangeBetween (min max : Int)
  deriving Repr, DecidableEq

/-- The value of some decimal digits -/
def decimalValue (digits : List UInt8) : Nat :=
  digits.foldl (fun value c => 10 * value + (c.toNat - 48)) 0

/-- The number that a string starts with, and where it ends -/
def readNumber (s : List UInt8) : Option (Int × List UInt8) :=
  let (sign, behind) := signOf (s.dropWhile isSpace)
  let digits := behind.takeWhile isDigit
  if digits = [] then none else some (sign * decimalValue digits, behind.drop digits.length)

/-- A number as a `long`, and whether `errno` is `ERANGE` -/
def narrowLong (number : Int) : Int × Bool :=
  if number < -2 ^ 63 then (-2 ^ 63, true)
  else if 2 ^ 63 - 1 < number then (2 ^ 63 - 1, true)
  else (number, false)

/--
A number as an `unsigned long`, and whether `errno` is `ERANGE`: one with a
sign is negated as an unsigned one
-/
def narrowUlong (number : Int) : Int × Bool :=
  if 2 ^ 64 ≤ number.natAbs then (2 ^ 64 - 1, true) else (number % 2 ^ 64, false)

/--
`strtol(s, &ep, 10)` or `strtoul(s, &ep, 10)`: the number, whether `errno` is
`ERANGE`, and what `ep` points to
-/
def strto (narrow : Int → Int × Bool) (s : List UInt8) : Int × Bool × List UInt8 :=
  match readNumber s with
  | none => (0, false, s)
  | some (number, ep) => ((narrow number).1, (narrow number).2, ep)

namespace WebQuery

/-- The string of the first argument with a key -/
def argumentString (q : WebQuery) (key : List UInt8) : Option (List UInt8) :=
  (q.args.find? fun arg => arg.key.bytes = key).map fun arg => cString arg.value

/-- What the functions share: `refuses` are the tests of a range. -/
def getNumber {α : Type} (narrow : Int → Int × Bool) (refuses : Int → Bool → Option NumberError)
    (store : Int → α) (q : WebQuery) (key : List UInt8) : Except NumberError α :=
  match q.argumentString key with
  | none => .error .missing
  | some s =>
    let (rv, erange, ep) := strto narrow s
    if s = [] ∨ ep ≠ [] then .error .notANumber
    else
      match refuses rv erange with
      | some error => .error error
      | none => .ok (store rv)

/-- `WEB_GetInt` -/
def getInt (q : WebQuery) (key : List UInt8) : Except NumberError Int32 :=
  q.getNumber narrowLong (fun rv erange =>
      if erange ∧ ((rv = 2 ^ 63 - 1 ∨ rv = -2 ^ 63) ∨ (2 ^ 31 - 1 < rv ∨ rv < -2 ^ 31)) then
        some .outOfRange
      else none)
    Int32.ofInt key

/-- `WEB_GetUint` -/
def getUint (q : WebQuery) (key : List UInt8) : Except NumberError UInt32 :=
  q.getNumber narrowUlong (fun rv erange =>
      if erange ∧ rv = 2 ^ 64 - 1 then some .outOfRange else none)
    (fun rv => UInt32.ofNat rv.toNat) key

/-- `WEB_GetUint64` -/
def getUint64 (q : WebQuery) (key : List UInt8) : Except NumberError UInt64 :=
  q.getNumber narrowUlong (fun rv erange =>
      if erange ∧ rv = 2 ^ 64 - 1 then some .outOfRange else none)
    (fun rv => UInt64.ofNat rv.toNat) key

/-- `WEB_GetSint64` -/
def getSint64 (q : WebQuery) (key : List UInt8) : Except NumberError Int64 :=
  q.getNumber narrowLong (fun rv erange =>
      if erange ∧ rv = 2 ^ 63 - 1 then some .outOfRange else none)
    Int64.ofInt key

/-- `WEB_GetIntR` -/
def getIntR (q : WebQuery) (key : List UInt8) (min max : Int32) : Except NumberError Int32 :=
  q.getNumber narrowLong (fun rv erange =>
      if erange ∧ ((rv = 2 ^ 63 - 1 ∨ rv = -2 ^ 63) ∨ (2 ^ 31 - 1 < rv ∨ rv < -2 ^ 31)) then
        some .outOfRange
      else if rv < min.toInt ∨ max.toInt < rv then some (.outOfRangeBetween min.toInt max.toInt)
      else none)
    Int32.ofInt key

/-- `WEB_GetUintR` -/
def getUintR (q : WebQuery) (key : List UInt8) (max : UInt32) : Except NumberError UInt32 :=
  q.getNumber narrowUlong (fun rv erange =>
      if erange ∧ (rv = 2 ^ 32 - 1 ∨ 2 ^ 32 - 1 < rv) then some .outOfRange
      else if (max.toNat : Int) < rv then some (.outOfRangeBetween 0 max.toNat)
      else none)
    (fun rv => UInt32.ofNat rv.toNat) key

end WebQuery

/-! ## Numerals -/

/-- The value of a decimal numeral: digits, and maybe a sign in front -/
def numeral (s : List UInt8) : Option Int :=
  let (sign, digits) := signOf s
  if digits ≠ [] ∧ digits.all isDigit then some (sign * decimalValue digits) else none

theorem readNumber_eq_some_iff {s : List UInt8} {number : Int} : readNumber s = some (number, []) ↔
      numeral (s.dropWhile isSpace) = some number := by
  rcases signed : signOf (s.dropWhile isSpace) with ⟨sign, behind⟩
  simp only [readNumber, numeral, signed]
  constructor
  · intro read
    split at read
    · cases read
    · rename_i some
      simp only [Option.some.injEq, Prod.mk.injEq, List.drop_eq_nil_iff] at read
      obtain ⟨same, whole⟩ := read
      have all : behind.takeWhile isDigit = behind :=
        (List.takeWhile_prefix _).eq_of_length_le whole
      have digits := List.takeWhile_eq_self_iff.mp all
      rw [all] at some same
      rw [if_pos ⟨some, List.all_eq_true.mpr digits⟩, same]
  · intro read
    split at read
    · rename_i digits
      have all : behind.takeWhile isDigit = behind :=
        List.takeWhile_eq_self_iff.mpr (List.all_eq_true.mp digits.2)
      simp only [all, if_neg digits.1, List.drop_length]
      simpa using read
    · cases read

theorem isDigit_of_isSpace {c : UInt8} (space : isSpace c = true) : isDigit c = false := by
  simp only [isSpace, Bool.or_eq_true, Bool.and_eq_true, decide_eq_true_eq] at space
  rcases space with rfl | ⟨_, low⟩
  · rfl
  · have low : ¬ 48 ≤ c := fun high =>
      absurd (UInt8.le_trans high low) (by decide)
    simp [isDigit, low]

theorem numeral_dropWhile {s : List UInt8} {number : Int} (read : numeral s = some number) :
    s.dropWhile isSpace = s := by
  cases s with
  | nil => rfl
  | cons c rest =>
    cases space : isSpace c with
    | false => simp [space]
    | true =>
      have unsigned : signOf (c :: rest) = (1, c :: rest) := by
        unfold signOf
        split
        · rename_i same
          cases same
          cases space
        · rename_i same
          cases same
          cases space
        · rfl
      have noDigit := isDigit_of_isSpace space
      simp [numeral, unsigned, noDigit] at read

/-! ## What the functions store -/

section Store

variable {α : Type} {narrow : Int → Int × Bool}
  {refuses : Int → Bool → Option NumberError} {store : Int → α}

theorem getNumber_eq_ok {q : WebQuery} {key : List UInt8} {value : α} :
    q.getNumber narrow refuses store key = .ok value ↔ ∃ s number, q.argumentString key = some s ∧
          numeral (s.dropWhile isSpace) = some number ∧
            refuses (narrow number).1 (narrow number).2 = none ∧
              store (narrow number).1 = value := by
  unfold WebQuery.getNumber
  cases there : q.argumentString key with
  | none => simp
  | some s =>
    simp only [Option.some.injEq, exists_and_left, exists_eq_left', ← readNumber_eq_some_iff]
    cases read : readNumber s with
    | none =>
      have refused : s = [] ∨ (strto narrow s).2.2 ≠ [] := by
        by_cases empty : s = [] <;> simp [strto, read, empty]
      simp [refused]
    | some pair =>
      obtain ⟨number, ep⟩ := pair
      have some : s ≠ [] := by
        rintro rfl
        cases read
      simp only [strto, read, some, false_or, Option.some.injEq, Prod.mk.injEq]
      by_cases ends : ep = []
      · cases refused : refuses (narrow number).1 (narrow number).2 <;>
          simp [ends, refused]
      · simp [ends]

end Store

/--
A function succeeds exactly when the argument is a decimal numeral whose value
is in the type and in the range, and it gives that value.
-/
def StoresNumeral {α : Type} (toInt : α → Int) (range : Set Int) (q : WebQuery) (key : List UInt8)
    (result : Except NumberError α) : Prop :=
  ∀ value, result = .ok value ↔ ∃ s, q.argumentString key = some s ∧
          numeral s = some (toInt value) ∧ toInt value ∈ range

/--
Where white space and a numeral in the first set make up the argument, there is
no white space and the value is in the second.
-/
def OnlyReads (q : WebQuery) (key : List UInt8) (accepted wanted : Set Int) : Prop :=
  ∀ s number, q.argumentString key = some s → numeral (s.dropWhile isSpace) = some number →
    number ∈ accepted → s.dropWhile isSpace = s ∧ number ∈ wanted

section Store

variable {α : Type} {narrow : Int → Int × Bool}
  {refuses : Int → Bool → Option NumberError} {store : Int → α}
  {toInt : α → Int} {range accepted wanted : Set Int}

theorem storesNumeral_iff
    (accepts : ∀ number, refuses (narrow number).1 (narrow number).2 = none ↔ number ∈ accepted)
    (wants : ∀ number, number ∈ wanted ↔ ∃ value, toInt value = number ∧ number ∈ range)
    (included : wanted ⊆ accepted)
    (keeps : ∀ value, toInt value ∈ wanted → store (narrow (toInt value)).1 = value) (q : WebQuery)
    (key : List UInt8) :
    StoresNumeral toInt range q key (q.getNumber narrow refuses store key) ↔
      OnlyReads q key accepted wanted := by
  constructor
  · intro stores s number there read inside
    have given :=
      (@getNumber_eq_ok _ _ _ store _ _ _).mpr
        ⟨s, number, there, read, (accepts number).mpr inside, rfl⟩
    obtain ⟨other, same, numeral, within⟩ := (stores _).mp given
    obtain rfl := Option.some.inj (there.symm.trans same)
    have bare := numeral_dropWhile numeral
    rw [bare] at read
    have value := Option.some.inj (read.symm.trans numeral)
    refine ⟨bare, (wants number).mpr ⟨_, value.symm, ?_⟩⟩
    rw [value]
    exact within
  · intro reads value
    rw [getNumber_eq_ok]
    constructor
    · rintro ⟨s, number, there, read, taken, rfl⟩
      obtain ⟨bare, inside⟩ := reads s number there read ((accepts number).mp taken)
      obtain ⟨value, rfl, within⟩ := (wants number).mp inside
      rw [bare] at read
      rw [keeps value inside]
      exact ⟨s, there, read, within⟩
    · rintro ⟨s, there, read, within⟩
      have inside := (wants _).mpr ⟨value, rfl, within⟩
      have bare := numeral_dropWhile read
      exact ⟨s, toInt value, there, by rw [bare, read],
          (accepts _).mpr (included inside), keeps value inside⟩

end Store

/-! ## The functions -/

variable (number : Int)

theorem narrowLong_cases : (number < -2 ^ 63 ∧ narrowLong number = (-2 ^ 63, true)) ∨
      (2 ^ 63 ≤ number ∧ narrowLong number = (2 ^ 63 - 1, true)) ∨
        ((-2 ^ 63 ≤ number ∧ number < 2 ^ 63) ∧ narrowLong number = (number, false)) := by
  unfold narrowLong
  split_ifs with low high
  · exact .inl ⟨low, rfl⟩
  · exact .inr (.inl ⟨by omega, rfl⟩)
  · exact .inr (.inr ⟨by omega, rfl⟩)

theorem narrowUlong_cases : ((number ≤ -2 ^ 64 ∨ 2 ^ 64 ≤ number) ∧
        narrowUlong number = (2 ^ 64 - 1, true)) ∨
      ((-2 ^ 64 < number ∧ number < 2 ^ 64) ∧ narrowUlong number = (number % 2 ^ 64, false)) := by
  unfold narrowUlong
  split_ifs with long
  · exact .inl ⟨by omega, rfl⟩
  · exact .inr ⟨by omega, rfl⟩

theorem mem_int32_iff : number ∈ Set.Ico (-2 ^ 31 : Int) (2 ^ 31) ↔
      ∃ value : Int32, value.toInt = number := by
  constructor
  · rintro ⟨low, high⟩
    exact ⟨Int32.ofInt number, Int32.toInt_ofInt_of_le low high⟩
  · rintro ⟨value, rfl⟩
    exact ⟨value.le_toInt, value.toInt_lt⟩

theorem mem_int64_iff : number ∈ Set.Ico (-2 ^ 63 : Int) (2 ^ 63) ↔
      ∃ value : Int64, value.toInt = number := by
  constructor
  · rintro ⟨low, high⟩
    exact ⟨Int64.ofInt number, Int64.toInt_ofInt_of_le low high⟩
  · rintro ⟨value, rfl⟩
    exact ⟨value.le_toInt, value.toInt_lt⟩

theorem mem_uint32_iff : number ∈ Set.Ico (0 : Int) (2 ^ 32) ↔
      ∃ value : UInt32, (value.toNat : Int) = number := by
  constructor
  · rintro ⟨low, high⟩
    refine ⟨UInt32.ofNat number.toNat, ?_⟩
    rw [UInt32.toNat_ofNat_of_lt' (by change number.toNat < 2 ^ 32; omega)]
    omega
  · rintro ⟨value, rfl⟩
    have bound := value.toNat_lt
    exact ⟨by omega, by omega⟩

theorem mem_uint64_iff : number ∈ Set.Ico (0 : Int) (2 ^ 64) ↔
      ∃ value : UInt64, (value.toNat : Int) = number := by
  constructor
  · rintro ⟨low, high⟩
    refine ⟨UInt64.ofNat number.toNat, ?_⟩
    rw [UInt64.toNat_ofNat_of_lt' (by change number.toNat < 2 ^ 64; omega)]
    omega
  · rintro ⟨value, rfl⟩
    have bound := value.toNat_lt
    exact ⟨by omega, by omega⟩

section Functions

variable (q : WebQuery) (key : List UInt8)

theorem getInt_iff : StoresNumeral Int32.toInt Set.univ q key (q.getInt key) ↔
      OnlyReads q key (Set.Ico (-2 ^ 63) (2 ^ 63)) (Set.Ico (-2 ^ 31) (2 ^ 31)) := by
  refine storesNumeral_iff ?_ ?_ ?_ ?_ q key
  · intro number
    rcases narrowLong_cases number with ⟨low, same⟩ | ⟨high, same⟩ | ⟨inside, same⟩ <;>
      simp [same, Set.mem_Ico] <;> omega
  · intro number
    simpa using mem_int32_iff number
  · exact Set.Ico_subset_Ico (by decide) (by decide)
  · rintro value ⟨low, high⟩
    rcases narrowLong_cases value.toInt with ⟨cut, -⟩ | ⟨cut, -⟩ | ⟨-, same⟩
    · omega
    · omega
    · rw [same, Int32.ofInt_toInt]

theorem getUint_iff : StoresNumeral (fun value : UInt32 => (value.toNat : Int)) Set.univ q key
        (q.getUint key) ↔
      OnlyReads q key (Set.Ioo (-2 ^ 64) (2 ^ 64)) (Set.Ico 0 (2 ^ 32)) := by
  refine storesNumeral_iff ?_ ?_ ?_ ?_ q key
  · intro number
    rcases narrowUlong_cases number with ⟨cut, same⟩ | ⟨inside, same⟩ <;>
      simp [same, Set.mem_Ioo] <;> omega
  · intro number
    simpa using mem_uint32_iff number
  · rintro number ⟨low, high⟩
    exact ⟨by omega, by omega⟩
  · rintro value ⟨low, high⟩
    rcases narrowUlong_cases (value.toNat : Int) with ⟨cut, -⟩ | ⟨-, same⟩
    · omega
    · have whole : (value.toNat : Int) % 2 ^ 64 = value.toNat := by omega
      rw [same, whole, Int.toNat_natCast, UInt32.ofNat_toNat]

theorem getUint64_iff : StoresNumeral (fun value : UInt64 => (value.toNat : Int)) Set.univ q key
        (q.getUint64 key) ↔
      OnlyReads q key (Set.Ioo (-2 ^ 64) (2 ^ 64)) (Set.Ico 0 (2 ^ 64)) := by
  refine storesNumeral_iff ?_ ?_ ?_ ?_ q key
  · intro number
    rcases narrowUlong_cases number with ⟨cut, same⟩ | ⟨inside, same⟩ <;>
      simp [same, Set.mem_Ioo] <;> omega
  · intro number
    simpa using mem_uint64_iff number
  · rintro number ⟨low, high⟩
    exact ⟨by omega, by omega⟩
  · rintro value ⟨low, high⟩
    rcases narrowUlong_cases (value.toNat : Int) with ⟨cut, -⟩ | ⟨-, same⟩
    · omega
    · have whole : (value.toNat : Int) % 2 ^ 64 = value.toNat := by omega
      rw [same, whole, Int.toNat_natCast, UInt64.ofNat_toNat]

theorem getSint64_iff : StoresNumeral Int64.toInt Set.univ q key (q.getSint64 key) ↔
      OnlyReads q key (Set.Iio (2 ^ 63)) (Set.Ico (-2 ^ 63) (2 ^ 63)) := by
  refine storesNumeral_iff ?_ ?_ ?_ ?_ q key
  · intro number
    rcases narrowLong_cases number with ⟨low, same⟩ | ⟨high, same⟩ | ⟨inside, same⟩ <;>
      simp [same, Set.mem_Iio] <;> omega
  · intro number
    simpa using mem_int64_iff number
  · exact fun number inside => inside.2
  · rintro value ⟨low, high⟩
    rcases narrowLong_cases value.toInt with ⟨cut, -⟩ | ⟨cut, -⟩ | ⟨-, same⟩
    · omega
    · omega
    · rw [same, Int64.ofInt_toInt]

theorem getIntR_iff (min max : Int32) :
    StoresNumeral Int32.toInt (Set.Icc min.toInt max.toInt) q key (q.getIntR key min max) ↔
      OnlyReads q key (Set.Icc min.toInt max.toInt) (Set.Icc min.toInt max.toInt) := by
  have lowest := min.le_toInt
  have highest := max.toInt_lt
  refine storesNumeral_iff ?_ ?_ ?_ ?_ q key
  · intro number
    rcases narrowLong_cases number with ⟨low, same⟩ | ⟨high, same⟩ | ⟨inside, same⟩ <;>
      simp [same, Set.mem_Icc] <;> omega
  · intro number
    constructor
    · rintro ⟨low, high⟩
      obtain ⟨value, same⟩ := (mem_int32_iff number).mp ⟨by omega, by omega⟩
      exact ⟨value, same, low, high⟩
    · rintro ⟨-, -, inside⟩
      exact inside
  · exact Set.Subset.refl _
  · rintro value ⟨low, high⟩
    rcases narrowLong_cases value.toInt with ⟨cut, -⟩ | ⟨cut, -⟩ | ⟨-, same⟩
    · omega
    · omega
    · rw [same, Int32.ofInt_toInt]

theorem getUintR_iff (max : UInt32) : StoresNumeral (fun value : UInt32 => (value.toNat : Int))
        (Set.Icc 0 (max.toNat : Int)) q key (q.getUintR key max) ↔
      OnlyReads q key (Set.Icc (0 : Int) max.toNat ∪ Set.Ioc (-2 ^ 64 : Int) (max.toNat - 2 ^ 64))
        (Set.Icc 0 (max.toNat : Int)) := by
  have highest := max.toNat_lt
  refine storesNumeral_iff ?_ ?_ ?_ ?_ q key
  · intro number
    rcases narrowUlong_cases number with ⟨cut, same⟩ | ⟨inside, same⟩ <;>
      simp [same, Set.mem_Icc, Set.mem_Ioc] <;> omega
  · intro number
    constructor
    · rintro ⟨low, high⟩
      obtain ⟨value, same⟩ := (mem_uint32_iff number).mp ⟨by omega, by omega⟩
      exact ⟨value, same, low, high⟩
    · rintro ⟨-, -, inside⟩
      exact inside
  · exact Set.subset_union_left
  · rintro value ⟨low, high⟩
    rcases narrowUlong_cases (value.toNat : Int) with ⟨cut, -⟩ | ⟨-, same⟩
    · omega
    · have whole : (value.toNat : Int) % 2 ^ 64 = value.toNat := by omega
      rw [same, whole, Int.toNat_natCast, UInt32.ofNat_toNat]

/--
Each function succeeds exactly for the decimal numerals of its type and range,
and gives their value, exactly where the argument is no numeral behind white
space that it accepts, and none that it accepts without it being one of them.
-/
theorem typedArguments_iff (min max : Int32) (last : UInt32) :
    (StoresNumeral Int32.toInt Set.univ q key (q.getInt key) ↔
        OnlyReads q key (Set.Ico (-2 ^ 63) (2 ^ 63)) (Set.Ico (-2 ^ 31) (2 ^ 31))) ∧
      (StoresNumeral (fun value : UInt32 => (value.toNat : Int)) Set.univ q key (q.getUint key) ↔
        OnlyReads q key (Set.Ioo (-2 ^ 64) (2 ^ 64)) (Set.Ico 0 (2 ^ 32))) ∧
      (StoresNumeral Int32.toInt (Set.Icc min.toInt max.toInt) q key (q.getIntR key min max) ↔
        OnlyReads q key (Set.Icc min.toInt max.toInt) (Set.Icc min.toInt max.toInt)) ∧
      (StoresNumeral (fun value : UInt32 => (value.toNat : Int))
          (Set.Icc 0 (last.toNat : Int)) q key (q.getUintR key last) ↔
        OnlyReads q key (Set.Icc (0 : Int) last.toNat ∪
            Set.Ioc (-2 ^ 64 : Int) (last.toNat - 2 ^ 64))
          (Set.Icc 0 (last.toNat : Int))) ∧
      (StoresNumeral (fun value : UInt64 => (value.toNat : Int)) Set.univ q key (q.getUint64 key) ↔
        OnlyReads q key (Set.Ioo (-2 ^ 64) (2 ^ 64)) (Set.Ico 0 (2 ^ 64))) ∧
      (StoresNumeral Int64.toInt Set.univ q key (q.getSint64 key) ↔
        OnlyReads q key (Set.Iio (2 ^ 63)) (Set.Ico (-2 ^ 63) (2 ^ 63))) :=
  ⟨getInt_iff q key, getUint_iff q key, getIntR_iff q key min max,
    getUintR_iff q key last, getUint64_iff q key, getSint64_iff q key⟩

end Functions

def queryOf (key value : List UInt8) : WebQuery :=
  { queryInit ⟨0, 0⟩ [] with
    args := [
      { type := getArgument
        key := .strlcpy key
        value := value ++ [0]
        len := value.length + 1
        contentType := .strlcpy [] }] }

theorem large_number_cut : ¬ StoresNumeral Int32.toInt Set.univ
        (queryOf (ascii "n") (ascii "4294967297")) (ascii "n")
        ((queryOf (ascii "n") (ascii "4294967297")).getInt (ascii "n")) := by
  intro stores
  have given : (queryOf (ascii "n") (ascii "4294967297")).getInt (ascii "n") = .ok 1 := by decide
  obtain ⟨s, there, read, -⟩ := (stores 1).mp given
  have argument : (queryOf (ascii "n") (ascii "4294967297")).argumentString (ascii "n") =
        some (ascii "4294967297") := by
    decide
  obtain rfl := Option.some.inj (argument.symm.trans there)
  have value : numeral (ascii "4294967297") = some 4294967297 := by decide
  rw [value] at read
  cases read

end Agar.Web
