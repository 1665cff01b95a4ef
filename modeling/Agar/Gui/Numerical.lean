import Agar.Gui.Stepping
import Agar.Lib.CString
import Agar.Web.RangeRequests

namespace Agar.Gui

open Agar.Lib
open Agar.Core
open Agar.Web

/-!
# Numbers that are typed

A numerical field has a text box with the decimal numeral of its variable.
`AG_NumericalUpdate` writes the numeral, and `UpdateFromText` reads it: what
`strtol` or `strtoul` gives is narrowed to the type of the variable, and only
then compared with the limits.
-/

/-! ## Text and numbers -/

/-- A number as `%d` or `%ld` print it -/
def signedDecimal (value : Int) : List UInt8 :=
  if value < 0 then ascii "-" ++ decimal value.natAbs else decimal value.natAbs

/-- `AG_StrlcpyUint`, to a buffer that has a string -/
def strlcpyUint (s : List UInt8) (val : CInt ⟨.w32, false⟩) (size : Nat) : List UInt8 :=
  if size < 1 then s
  else
    let (digits, trunc) := storeDigits size 0 val.val.toNat
    if trunc then
      -- `s[size-1] = '\0'`
      (digits.take (size - 1)).reverse
    else digits.reverse

/-- `AG_StrlcpyInt`, to a buffer that has a string -/
def strlcpyInt (s : List UInt8) (val : CInt .int) (size : Nat) : Except Stop (List UInt8) :=
  if size < 1 then .ok s
  else
    match if val.val < 0 then CType.int.compute (-val.val) else some val with
    | none => .error .undefined
    | some magnitude =>
      let (digits, trunc) := storeDigits size 0 magnitude.val.toNat
      if trunc then .ok (digits.take (size - 1)).reverse
      else if val.val < 0 then
        if digits.length + 2 > size then .ok ((digits ++ ascii "-").take (size - 1)).reverse
        else .ok (digits ++ ascii "-").reverse
      else .ok digits.reverse

/-- `strtol(s, NULL, 10)`, or `strtoll` -/
def strtol (s : List UInt8) : Int := (strto narrowLong s).1

/-- `strtoul(s, NULL, 10)`, or `strtoull` -/
def strtoul (s : List UInt8) : Int := (strto narrowUlong s).1

/-! ## The field -/

/-- The size of `inTxt` -/
def inTxtSize : Nat := 64

instance : NeZero inTxtSize := ⟨by decide⟩

/-- An `AG_Numerical` whose variable is of an integer type -/
structure Numerical (v : IntVariable) where
  min : CInt v.type
  max : CInt v.type
  value : CInt v.type
  inTxt : CString inTxtSize

/-- `SET_NUM` of a type -/
def setNum {t : CType} (min max : CInt t) (expr : Int) : CInt t :=
  let val : CInt t := ⟨t.wrap expr, t.holds_wrap expr⟩
  if val.lt min then min
  else if max.lt val then max
  else val

/-- What `UpdateFromText` reads for a type of variable -/
def IntVariable.read : IntVariable → List UInt8 → Int
  | .int => strtol
  | .uint => strtoul
  | .uint8 => strtoul
  | .sint8 => strtol
  | .uint16 => strtoul
  | .sint16 => strtol
  | .uint32 => strtoul
  | .sint32 => strtol
  | .uint64 => strtoul
  | .sint64 => strtol

/-- What `AG_NumericalUpdate` writes for a type of variable -/
def IntVariable.format : (v : IntVariable) → CInt v.type → Except Stop (List UInt8)
  | .int, value => strlcpyInt [] value 64
  | .uint, value => .ok (strlcpyUint [] value 64)
  | .uint8, value => .ok (strlcpyUint [] (value.convert ⟨.w32, false⟩) 64)
  | .sint8, value => strlcpyInt [] (value.convert .int) 64
  | .uint16, value => .ok (strlcpyUint [] (value.convert ⟨.w32, false⟩) 64)
  | .sint16, value => strlcpyInt [] (value.convert .int) 64
  | .uint32, value => .ok (strlcpyTo (decimal value.val.toNat) 64)
  | .sint32, value => .ok (strlcpyTo (signedDecimal value.val) 64)
  | .uint64, value => .ok (strlcpyTo (decimal value.val.toNat) 64)
  | .sint64, value => .ok (strlcpyTo (signedDecimal value.val) 64)

namespace Numerical

section

variable {v : IntVariable}

/-- `UpdateFromText`, without its events -/
def updateFromText (num : Numerical v) : Numerical v :=
  { num with value := setNum num.min num.max (v.read num.inTxt.bytes) }

/-- `AG_NumericalUpdate`, without the events of the text box -/
def numericalUpdate (num : Numerical v) : Except Stop (Numerical v) := do
  let s ← v.format num.value
  if num.inTxt.bytes ≠ s then return { num with inTxt := CString.strlcpy s } else return num

end

end Numerical

/-! ## What the field is for -/

/-- The number of a range that is nearest to a number -/
def clamp (low high number : Int) : Int := max low (min number high)

theorem clamp_of_mem {low high number : Int} (above : low ≤ number) (below : number ≤ high) :
    clamp low high number = number := by
  rw [clamp, min_eq_left below, max_eq_right above]

/-- The number that is read for a numeral -/
def IntVariable.reads (v : IntVariable) (number : Int) : Int :=
  if v.type.signed then (narrowLong number).1 else (narrowUlong number).1

/--
A numeral leads into a range as it should: the type holds its value, or the
range has one number only, or what wraps is still on the same side of the range.
-/
def IntVariable.Leads (v : IntVariable) (low high number : Int) : Prop :=
  v.type.Holds number ∨ low = high ∨
    (v.type.greatest < number ∧ high ≤ v.type.wrap (v.reads number)) ∨
    (number < v.type.least ∧ v.type.wrap (v.reads number) ≤ low)

/-! ## Reading -/

section

variable {v : IntVariable}

theorem strto_of_numeral {narrow : Int → Int × Bool} {s : List UInt8} {number : Int}
    (isNumeral : Web.numeral s = some number) : (strto narrow s).1 = (narrow number).1 := by
  rw [strto, readNumber_eq_some_iff.mpr
    ((congrArg Web.numeral (numeral_dropWhile isNumeral)).trans isNumeral)]

theorem read_of_numeral {s : List UInt8} {number : Int} (isNumeral : Web.numeral s = some number) :
    v.read s = v.reads number := by
  cases v <;> exact strto_of_numeral isNumeral

theorem reads_of_holds {number : Int} (holds : v.type.Holds number) : v.reads number = number := by
  unfold CType.Holds at holds
  cases v <;>
    simp only [IntVariable.reads, IntVariable.type, CType.int, CType.least,
      CType.greatest, Width.bits, narrowLong, narrowUlong, Bool.false_eq_true,
      if_true, if_false] at holds ⊢ <;>
    norm_num at holds ⊢ <;> split_ifs <;> omega

theorem setNum_val {t : CType} (low high : CInt t) (expr : Int) : (setNum low high expr).val =
      if t.wrap expr < low.val then low.val
      else if high.val < t.wrap expr then high.val
      else t.wrap expr := by
  unfold setNum
  dsimp only
  rw [CInt.lt_eq (CInt.holds_common_self _) low.holds_common_self,
    CInt.lt_eq high.holds_common_self (CInt.holds_common_self _)]
  simp only [decide_eq_true_eq]
  split_ifs <;> rfl

theorem setNum_eq_clamp_iff (low high : CInt v.type) (inOrder : low.val ≤ high.val) (number : Int) :
    (setNum low high (v.reads number)).val = clamp low.val high.val number ↔
      v.Leads low.val high.val number := by
  have lowHolds := low.holds
  have highHolds := high.holds
  rw [setNum_val, clamp, IntVariable.Leads]
  by_cases holds : v.type.Holds number
  · rw [reads_of_holds holds, CType.wrap_of_holds holds]
    refine iff_of_true ?_ (.inl holds)
    split_ifs <;> omega
  · rw [or_iff_right holds]
    unfold CType.Holds at holds lowHolds highHolds
    generalize v.type.wrap (v.reads number) = wrapped
    split_ifs <;> omega

end

/-! ## Writing -/

variable {t : CType} (value : CInt t)

theorem natAbs_lt : value.val.natAbs < 2 ^ 64 := by
  obtain ⟨width, signed⟩ := t
  obtain ⟨number, low, high⟩ := value
  cases width <;> cases signed <;>
    simp only [CType.least, CType.greatest, Width.bits, Bool.false_eq_true,
      if_true, if_false] at low high ⊢ <;>
    norm_num at low high ⊢ <;> omega

theorem nonneg_of_unsigned (unsigned : t.signed = false) (value : CInt t) : 0 ≤ value.val := by
  rw [← CType.least_of_unsigned unsigned]
  exact value.holds.1

theorem storeDigits_of_fits {size val : Nat} (fits : (decimalDigits val).length < size) :
    storeDigits size 0 val = (decimalDigits val, false) := by
  rw [storeDigits_eq, List.take_of_length_le (by omega), decide_eq_false (by omega)]

theorem length_decimalDigits_of_lt {val : Nat} (small : val < 2 ^ 64) :
    (decimalDigits val).length ≤ 20 :=
  length_decimalDigits_le (small.trans (by norm_num)) (by decide)

theorem signedDecimal_of_nonneg {value : Int} (nonneg : 0 ≤ value) :
    signedDecimal value = decimal value.toNat := by
  have magnitude : value.natAbs = value.toNat := by omega
  rw [signedDecimal, if_neg (by omega), magnitude]

theorem strlcpyUint_eq (s : List UInt8) (val : CInt ⟨.w32, false⟩) :
    strlcpyUint s val 64 = signedDecimal val.val := by
  have small := natAbs_lt val
  have digits : (decimalDigits val.val.toNat).length ≤ 20 := length_decimalDigits_of_lt (by omega)
  rw [strlcpyUint, if_neg (by decide), storeDigits_of_fits (by omega),
    signedDecimal_of_nonneg (nonneg_of_unsigned rfl val)]
  exact rfl

theorem strlcpyInt_eq (s : List UInt8) (val : CInt .int) : strlcpyInt s val 64 =
      if val.val = CType.int.least then .error .undefined
      else
        .ok (signedDecimal val.val) := by
  have low : -2 ^ 31 ≤ val.val := val.holds.1
  have high : val.val ≤ 2 ^ 31 - 1 := val.holds.2
  have least : CType.int.least = -2 ^ 31 := rfl
  have digits : (decimalDigits val.val.natAbs).length ≤ 20 := length_decimalDigits_of_lt (by omega)
  rw [strlcpyInt, if_neg (by decide), least]
  by_cases negative : val.val < 0
  · rw [if_pos negative]
    by_cases isLeast : val.val = -2 ^ 31
    · have outside : ¬ CType.int.Holds (-val.val) := by
        rw [isLeast]
        decide
      rw [CType.compute_of_signed rfl outside, if_pos isLeast]
    · have holds : CType.int.Holds (-val.val) := by
        change -2 ^ 31 ≤ -val.val ∧ -val.val ≤ 2 ^ 31 - 1
        omega
      have magnitude : (-val.val).toNat = val.val.natAbs := by omega
      rw [CType.compute_of_holds holds, if_neg isLeast, signedDecimal, if_pos negative]
      simp only [magnitude]
      rw [storeDigits_of_fits (by omega)]
      simp only [Bool.false_eq_true, if_false, if_pos negative]
      rw [if_neg (by omega), List.reverse_append]
      exact rfl
  · have magnitude : val.val.toNat = val.val.natAbs := by omega
    rw [if_neg negative, if_neg (by omega), signedDecimal, if_neg negative]
    simp only [magnitude]
    rw [storeDigits_of_fits (by omega)]
    simp only [Bool.false_eq_true, if_false, if_neg negative]
    exact rfl

theorem length_signedDecimal_le {value : Int} (small : value.natAbs < 2 ^ 64) :
    (signedDecimal value).length ≤ 21 := by
  have digits := length_decimalDigits_of_lt small
  rw [signedDecimal, decimal]
  split_ifs
  · rw [List.length_append, List.length_reverse]
    exact Nat.add_le_add_left digits 1
  · rw [List.length_reverse]
    omega

theorem numeral_signedDecimal (value : Int) : Web.numeral (signedDecimal value) = some value := by
  have digits : decimal value.natAbs ≠ [] ∧ (decimal value.natAbs).all isDigit = true :=
    ⟨decimal_ne_nil _, List.all_eq_true.mpr fun _ => isDigit_decimal⟩
  have magnitude : (decimalValue (decimal value.natAbs) : Int) = |value| := by
    rw [decimalValue, foldl_decimal, Int.natCast_natAbs]
  rw [signedDecimal]
  split_ifs with negative
  · have sign : signOf (ascii "-" ++ decimal value.natAbs) = (-1, decimal value.natAbs) :=
      rfl
    simp only [Web.numeral, sign]
    rw [if_pos digits, magnitude, abs_of_neg negative, neg_mul_neg, one_mul]
  · simp only [Web.numeral, signOf_decimal]
    rw [if_pos digits, magnitude, abs_of_nonneg (not_lt.mp negative), one_mul]

theorem noNul_signedDecimal (value : Int) : 0 ∉ signedDecimal value := by
  have digits : 0 ∉ decimal value.natAbs := fun member =>
    Bool.false_ne_true (isDigit_decimal member)
  rw [signedDecimal]
  split_ifs
  · exact fun member => (List.mem_cons.mp member).elim (by decide) digits
  · exact digits

section

variable {v : IntVariable}

/-- The only value of a variable whose numeral is not written -/
def IntVariable.Unprinted (v : IntVariable) (value : Int) : Prop :=
  v = .int ∧ value = CType.int.least

instance (v : IntVariable) (value : Int) : Decidable (v.Unprinted value) :=
  inferInstanceAs (Decidable (_ ∧ _))

theorem convert_of_wider {u : CType} (value : CInt t)
    (wider : u.least ≤ t.least ∧ t.greatest ≤ u.greatest) : (value.convert u).val = value.val :=
  CInt.convert_val ⟨wider.1.trans value.holds.1, value.holds.2.trans wider.2⟩

theorem strlcpyUint_convert
    (wider : CType.least ⟨.w32, false⟩ ≤ t.least ∧ t.greatest ≤ CType.greatest ⟨.w32, false⟩) :
    strlcpyUint [] (value.convert ⟨.w32, false⟩) 64 = signedDecimal value.val := by
  rw [strlcpyUint_eq, convert_of_wider value wider]

theorem strlcpyInt_convert (below : CType.int.least < t.least)
    (above : t.greatest ≤ CType.int.greatest) :
    strlcpyInt [] (value.convert .int) 64 = .ok (signedDecimal value.val) := by
  rw [strlcpyInt_eq, convert_of_wider value ⟨below.le, above⟩,
    if_neg (below.trans_le value.holds.1).ne']

theorem strlcpyTo_signedDecimal :
    strlcpyTo (signedDecimal value.val) 64 = signedDecimal value.val := by
  have bound := length_signedDecimal_le (natAbs_lt value)
  exact List.take_of_length_le (by omega)

theorem strlcpyTo_decimal (unsigned : t.signed = false) (value : CInt t) :
    strlcpyTo (decimal value.val.toNat) 64 = signedDecimal value.val := by
  rw [← signedDecimal_of_nonneg (nonneg_of_unsigned unsigned value), strlcpyTo_signedDecimal]

theorem format_eq (value : CInt v.type) : v.format value = if v.Unprinted value.val then
        .error Stop.undefined
      else
        .ok (signedDecimal value.val) := by
  cases v with
  | int =>
    refine (strlcpyInt_eq [] value).trans ?_
    simp only [IntVariable.Unprinted, true_and]
  | uint => exact congrArg Except.ok (strlcpyUint_eq [] value)
  | uint8 => exact congrArg Except.ok (strlcpyUint_convert value (by decide))
  | sint8 => exact strlcpyInt_convert value (by decide) (by decide)
  | uint16 => exact congrArg Except.ok (strlcpyUint_convert value (by decide))
  | sint16 => exact strlcpyInt_convert value (by decide) (by decide)
  | uint32 => exact congrArg Except.ok (strlcpyTo_decimal rfl value)
  | sint32 => exact congrArg Except.ok (strlcpyTo_signedDecimal value)
  | uint64 => exact congrArg Except.ok (strlcpyTo_decimal rfl value)
  | sint64 => exact congrArg Except.ok (strlcpyTo_signedDecimal value)

end

namespace Numerical

section

variable {v : IntVariable} {num : Numerical v}

/-- The value of the numeral that was typed is stored, clamped to the range. -/
def Takes (num : Numerical v) (number : Int) : Prop :=
  num.updateFromText.value.val = clamp num.min.val num.max.val number

/-- The value is the same after its numeral was written and read back. -/
def ReadsBack (num : Numerical v) : Prop :=
  ∃ written, num.numericalUpdate = .ok written ∧ written.updateFromText.value = num.value

theorem takes_iff {number : Int} (inOrder : num.min.val ≤ num.max.val)
    (typed : Web.numeral num.inTxt.bytes = some number) :
    num.Takes number ↔ v.Leads num.min.val num.max.val number := by
  rw [Takes, updateFromText, read_of_numeral typed]
  exact setNum_eq_clamp_iff num.min num.max inOrder number

theorem numericalUpdate_eq (printed : ¬ v.Unprinted num.value.val) : ∃ inTxt,
      num.numericalUpdate = .ok { num with inTxt := inTxt } ∧
        Web.numeral inTxt.bytes = some num.value.val := by
  have text := numeral_signedDecimal num.value.val
  rw [numericalUpdate, format_eq, if_neg printed]
  by_cases same : num.inTxt.bytes = signedDecimal num.value.val
  · rw [← same] at text
    refine ⟨num.inTxt, ?_, text⟩
    exact if_neg (not_not.mpr same)
  · have kept : (CString.strlcpy (signedDecimal num.value.val) : CString inTxtSize).bytes =
          signedDecimal num.value.val := by
      refine CString.strlcpy_bytes_of_fits (noNul_signedDecimal _) ?_
      have bound := length_signedDecimal_le (natAbs_lt num.value)
      change _ < 64
      omega
    rw [← kept] at text
    exact ⟨_, if_pos same, text⟩

theorem readsBack_iff (above : num.min.val ≤ num.value.val) (below : num.value.val ≤ num.max.val) :
    num.ReadsBack ↔ ¬ v.Unprinted num.value.val := by
  constructor
  · rintro ⟨written, wrote, _⟩ unprinted
    rw [numericalUpdate, format_eq, if_pos unprinted] at wrote
    cases wrote
  · intro printed
    obtain ⟨inTxt, wrote, text⟩ := numericalUpdate_eq printed
    refine ⟨_, wrote, CInt.eq_of_val_eq ?_⟩
    have taken :=
      (@takes_iff v { num with inTxt := inTxt } _ (above.trans below) text).mpr
        (.inl num.value.holds)
    exact taken.trans (clamp_of_mem above below)

/--
What is typed is stored, clamped to the range, exactly when it leads there; a
value in the range is written and read back exactly when it can be printed.
-/
theorem typed_holds_iff {number : Int} (above : num.min.val ≤ num.value.val)
    (below : num.value.val ≤ num.max.val) (typed : Web.numeral num.inTxt.bytes = some number) :
    (num.Takes number ↔ v.Leads num.min.val num.max.val number) ∧
      (num.ReadsBack ↔ ¬ v.Unprinted num.value.val) :=
  ⟨takes_iff (above.trans below) typed, readsBack_iff above below⟩

end

theorem holds_no_percent : CType.int.Holds 0 := by decide

theorem holds_all_percent : CType.int.Holds 100 := by decide

/-- A field with an `int` between 0 and 100, in which something was typed -/
def percentage (value : CInt .int) (inTxt : List UInt8) : Numerical .int where
  min := ⟨0, holds_no_percent⟩
  max := ⟨100, holds_all_percent⟩
  value := value
  inTxt := CString.strlcpy inTxt

theorem typed_holds_iff_percentage : ((percentage ⟨7, by decide⟩ (ascii "120")).Takes 120 ↔
        IntVariable.int.Leads 0 100 120) ∧
      ((percentage ⟨7, by decide⟩ (ascii "120")).ReadsBack ↔ ¬ IntVariable.int.Unprinted 7) :=
  typed_holds_iff (by decide) (by decide) (by decide)

theorem large_number_wraps : ¬ ∀ number,
        Web.numeral (percentage ⟨7, by decide⟩ (ascii "4294967297")).inTxt.bytes = some number →
          (percentage ⟨7, by decide⟩ (ascii "4294967297")).Takes number := by
  intro takes
  have taken := takes 4294967297 (by decide)
  exact absurd taken (by unfold Takes; decide)

end Numerical

end Agar.Gui
