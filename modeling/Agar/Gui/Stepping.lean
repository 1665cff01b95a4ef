import Agar.Lib.CInteger

namespace Agar.Gui

open Agar.Lib

/-!
# Increments and decrements

A slider and a numerical field step through the range of a variable of any
integer type.  The next value is formed in the type that C promotes the
variable's to, before it is compared with the limits: it is the right one where
that type holds it.
-/

/-! ## Bound variables -/

/-- The integer types of variables -/
inductive IntVariable where
  | int
  | uint
  | uint8
  | sint8
  | uint16
  | sint16
  | uint32
  | sint32
  | uint64
  | sint64
  deriving Repr, DecidableEq

/-- The type that a macro is instantiated at -/
def IntVariable.type : IntVariable → CType
  | .int => .int
  | .uint => ⟨.w32, false⟩
  | .uint8 => ⟨.w8, false⟩
  | .sint8 => ⟨.w8, true⟩
  | .uint16 => ⟨.w16, false⟩
  | .sint16 => ⟨.w16, true⟩
  | .uint32 => ⟨.w32, false⟩
  | .sint32 => ⟨.w32, true⟩
  | .uint64 => ⟨.w64, false⟩
  | .sint64 => ⟨.w64, true⟩

/-- A value with the limits that it is between -/
structure RangedValue (t : CType) where
  min : CInt t
  max : CInt t
  value : CInt t
  min_le : min.val ≤ value.val
  le_max : value.val ≤ max.val

namespace RangedValue

section

variable {t : CType}

/-! ## Stepping -/

/-- `INCREMENT` of a slider -/
def sliderIncrement (range : RangedValue t) (inc : CInt t) : Option (CInt t) := do
  let sum ← range.value.add inc
  if range.max.lt sum then return range.max else return sum.convert t

/-- `DECREMENT` of a slider -/
def sliderDecrement (range : RangedValue t) (inc : CInt t) : Option (CInt t) := do
  let difference ← range.value.sub inc
  if difference.lt range.min then return range.min else return difference.convert t

/-- What `ADD_INT` and `SUB_INT` do with the next value -/
def limited (range : RangedValue t) (next : CInt (t.common t)) : CInt t :=
  if next.lt range.min then range.min
  else if range.max.lt next then range.max
  else next.convert t

/-- `AG_NumericalIncrement`, by `ADD_INT` -/
def numericalIncrement (range : RangedValue t) (inc : CInt t) : Option (CInt t) := do
  let sum ← range.value.add inc
  return range.limited sum

/-- `AG_NumericalDecrement`, by `SUB_INT` -/
def numericalDecrement (range : RangedValue t) (inc : CInt t) : Option (CInt t) := do
  let difference ← range.value.sub inc
  return range.limited difference

/-! ## What stepping is for -/

/-- The value an increment is to lead to -/
def above (range : RangedValue t) (inc : CInt t) : Int :=
  if range.value.val + inc.val ≤ range.max.val then range.value.val + inc.val else range.max.val

/-- The value a decrement is to lead to -/
def below (range : RangedValue t) (inc : CInt t) : Int :=
  if range.min.val ≤ range.value.val - inc.val then range.value.val - inc.val else range.min.val

/-- A step leads to a value, which is in the range. -/
def StepsTo (range : RangedValue t) (result : Option (CInt t)) (value : Int) : Prop :=
  ∃ next, result = some next ∧ range.min.val ≤ next.val ∧ next.val ≤ range.max.val ∧
      next.val = value

end

/-! ## Comparing with the limits -/

section

variable {t : CType} {range : RangedValue t} {inc : CInt t} {next : CInt (t.common t)}

theorem max_lt : range.max.lt next = decide (range.max.val < next.val) :=
  CInt.lt_eq (by simpa using CType.holds_promoted range.max.holds) (by simpa using next.holds)

theorem lt_min : next.lt range.min = decide (next.val < range.min.val) :=
  CInt.lt_eq (by simpa using next.holds) (by simpa using CType.holds_promoted range.min.holds)

theorem convert_val (above : range.min.val ≤ next.val) (below : next.val ≤ range.max.val) :
    (next.convert t).val = next.val :=
  CInt.convert_val (range.min.holds.between range.max.holds above below)

theorem limited_val : (range.limited next).val = if next.val < range.min.val then range.min.val
      else if range.max.val < next.val then range.max.val
      else next.val := by
  rw [limited, lt_min, max_lt]
  by_cases low : next.val < range.min.val
  · rw [if_pos (decide_eq_true low), if_pos low]
  · rw [if_neg (by simpa using low), if_neg low]
    by_cases high : range.max.val < next.val
    · rw [if_pos (decide_eq_true high), if_pos high]
    · rw [if_neg (by simpa using high), if_neg high,
        convert_val (Int.not_lt.mp low) (Int.not_lt.mp high)]

theorem stepsTo_iff {result : Option (CInt t)} {value : Int} (above : range.min.val ≤ value)
    (below : value ≤ range.max.val) :
    range.StepsTo result value ↔ result.map CInt.val = some value := by
  rw [StepsTo, Option.map_eq_some_iff]
  refine exists_congr fun next => and_congr_right fun _ => ?_
  constructor
  · rintro ⟨-, -, same⟩
    exact same
  · rintro rfl
    exact ⟨above, below, rfl⟩

end

/-! ## Steps that are formed, and steps that are not -/

section

variable {t : CType} {range : RangedValue t} {inc : CInt t}

theorem above_mem (nonneg : 0 ≤ inc.val) :
    range.value.val ≤ range.above inc ∧ range.above inc ≤ range.max.val := by
  have high := range.le_max
  unfold above
  split_ifs <;> omega

theorem below_mem (nonneg : 0 ≤ inc.val) :
    range.min.val ≤ range.below inc ∧ range.below inc ≤ range.value.val := by
  have low := range.min_le
  unfold below
  split_ifs <;> omega

theorem sliderIncrement_of_formed {sum : CInt (t.common t)}
    (formed : range.value.add inc = some sum) :
    range.sliderIncrement inc =
      some (if range.max.val < sum.val then range.max else sum.convert t) := by
  unfold sliderIncrement
  rw [formed, Option.bind_eq_bind, Option.bind_some, max_lt]
  by_cases high : range.max.val < sum.val
  · rw [if_pos (decide_eq_true high), if_pos high]
    rfl
  · rw [if_neg (by simpa using high), if_neg high]
    rfl

theorem sliderDecrement_of_formed {difference : CInt (t.common t)}
    (formed : range.value.sub inc = some difference) :
    range.sliderDecrement inc = some (if difference.val < range.min.val then range.min
        else difference.convert t) := by
  unfold sliderDecrement
  rw [formed, Option.bind_eq_bind, Option.bind_some, lt_min]
  by_cases low : difference.val < range.min.val
  · rw [if_pos (decide_eq_true low), if_pos low]
    rfl
  · rw [if_neg (by simpa using low), if_neg low]
    rfl

theorem convert_val_of_same {next : CInt (t.common t)} (same : t.promoted = t) :
    (next.convert t).val = next.val := by
  have sameType : t.common t = t := by rw [CType.common_self, same]
  exact CInt.convert_val ((congrArg (fun u => CType.Holds u next.val) sameType).mp next.holds)

theorem sliderIncrement_iff (positive : 0 < inc.val) :
    range.StepsTo (range.sliderIncrement inc) (range.above inc) ↔
      t.promoted.Holds (range.value.val + inc.val) := by
  obtain ⟨atLeast, atMost⟩ := @above_mem _ range _ positive.le
  rw [stepsTo_iff (range.min_le.trans atLeast) atMost]
  by_cases holds : t.promoted.Holds (range.value.val + inc.val)
  · refine iff_of_true ?_ holds
    obtain ⟨sum, formed, value⟩ := CInt.add_of_holds holds
    rw [sliderIncrement_of_formed formed, above]
    by_cases high : range.max.val < sum.val
    · rw [if_pos high, if_neg (by omega)]
      rfl
    · have low := range.min_le
      rw [if_neg high, if_pos (by omega), Option.map_some,
        @convert_val _ range _ (by omega) (by omega), value]
  · refine iff_of_false ?_ holds
    rcases CInt.add_of_not_holds positive.le holds with
      ⟨-, undefined⟩ | ⟨-, same, sum, formed, value⟩
    · unfold sliderIncrement
      rw [undefined]
      simp
    · have high := range.le_max
      rw [sliderIncrement_of_formed formed, if_neg (by omega),
        Option.map_some, convert_val_of_same same, Option.some_inj]
      omega

theorem sliderDecrement_iff (positive : 0 < inc.val) :
    range.StepsTo (range.sliderDecrement inc) (range.below inc) ↔
      t.promoted.Holds (range.value.val - inc.val) := by
  obtain ⟨atLeast, atMost⟩ := @below_mem _ range _ positive.le
  rw [stepsTo_iff atLeast (atMost.trans range.le_max)]
  by_cases holds : t.promoted.Holds (range.value.val - inc.val)
  · refine iff_of_true ?_ holds
    obtain ⟨difference, formed, value⟩ := CInt.sub_of_holds holds
    rw [sliderDecrement_of_formed formed, below]
    by_cases low : difference.val < range.min.val
    · rw [if_pos low, if_neg (by omega)]
      rfl
    · have high := range.le_max
      rw [if_neg low, if_pos (by omega), Option.map_some,
        @convert_val _ range _ (by omega) (by omega), value]
  · refine iff_of_false ?_ holds
    rcases CInt.sub_of_not_holds positive.le holds with
      ⟨-, undefined⟩ | ⟨-, same, difference, formed, value⟩
    · unfold sliderDecrement
      rw [undefined]
      simp
    · have low := range.min_le
      rw [sliderDecrement_of_formed formed, if_neg (by omega),
        Option.map_some, convert_val_of_same same, Option.some_inj]
      omega

theorem numericalIncrement_of_formed {sum : CInt (t.common t)}
    (formed : range.value.add inc = some sum) :
    range.numericalIncrement inc = some (range.limited sum) := by
  unfold numericalIncrement
  rw [formed]
  rfl

theorem numericalDecrement_of_formed {difference : CInt (t.common t)}
    (formed : range.value.sub inc = some difference) :
    range.numericalDecrement inc = some (range.limited difference) := by
  unfold numericalDecrement
  rw [formed]
  rfl

theorem numericalIncrement_iff (positive : 0 < inc.val) :
    range.StepsTo (range.numericalIncrement inc) (range.above inc) ↔
      t.promoted.Holds (range.value.val + inc.val) ∨
        t.promoted.signed = false ∧ range.min.val = range.max.val := by
  have low := range.min_le
  have high := range.le_max
  obtain ⟨atLeast, atMost⟩ := @above_mem _ range _ positive.le
  rw [stepsTo_iff (low.trans atLeast) atMost]
  by_cases holds : t.promoted.Holds (range.value.val + inc.val)
  · refine iff_of_true ?_ (.inl holds)
    obtain ⟨sum, formed, value⟩ := CInt.add_of_holds holds
    rw [numericalIncrement_of_formed formed, Option.map_some, limited_val,
      above, if_neg (by omega), value]
    by_cases beyond : range.max.val < range.value.val + inc.val
    · rw [if_pos beyond, if_neg (Int.not_le.mpr beyond)]
    · rw [if_neg beyond, if_pos (Int.not_lt.mp beyond)]
  · rw [or_iff_right holds]
    rcases CInt.add_of_not_holds positive.le holds with
      ⟨signed, undefined⟩ | ⟨unsigned, same, sum, formed, value⟩
    · refine iff_of_false ?_ fun one => ?_
      · unfold numericalIncrement
        rw [undefined]
        simp
      · exact Bool.false_ne_true (one.1.symm.trans signed)
    · have atMax : range.above inc = range.max.val :=
        if_neg fun inside => holds (CType.holds_promoted
          (range.value.holds.between range.max.holds (by omega) inside))
      rw [numericalIncrement_of_formed formed, Option.map_some, limited_val,
        Option.some_inj, and_iff_right unsigned, atMax]
      by_cases one : range.min.val = range.max.val
      · refine iff_of_true ?_ one
        rw [if_pos (by omega)]
        omega
      · refine iff_of_false ?_ one
        split_ifs <;> omega

theorem numericalDecrement_iff (positive : 0 < inc.val) :
    range.StepsTo (range.numericalDecrement inc) (range.below inc) ↔
      t.promoted.Holds (range.value.val - inc.val) ∨
        t.promoted.signed = false ∧ range.min.val = range.max.val := by
  have low := range.min_le
  have high := range.le_max
  obtain ⟨atLeast, atMost⟩ := @below_mem _ range _ positive.le
  rw [stepsTo_iff atLeast (atMost.trans high)]
  by_cases holds : t.promoted.Holds (range.value.val - inc.val)
  · refine iff_of_true ?_ (.inl holds)
    obtain ⟨difference, formed, value⟩ := CInt.sub_of_holds holds
    rw [numericalDecrement_of_formed formed, Option.map_some, limited_val, below, value]
    by_cases beyond : range.value.val - inc.val < range.min.val
    · rw [if_pos beyond, if_neg (Int.not_le.mpr beyond)]
    · rw [if_neg beyond, if_neg (by omega), if_pos (Int.not_lt.mp beyond)]
  · rw [or_iff_right holds]
    rcases CInt.sub_of_not_holds positive.le holds with
      ⟨signed, undefined⟩ | ⟨unsigned, same, difference, formed, value⟩
    · refine iff_of_false ?_ fun one => ?_
      · unfold numericalDecrement
        rw [undefined]
        simp
      · exact Bool.false_ne_true (one.1.symm.trans signed)
    · have atMin : range.below inc = range.min.val :=
        if_neg fun inside => holds (CType.holds_promoted
          (range.min.holds.between range.value.holds inside (by omega)))
      rw [numericalDecrement_of_formed formed, Option.map_some, limited_val,
        Option.some_inj, and_iff_right unsigned, atMin]
      by_cases one : range.min.val = range.max.val
      · refine iff_of_true ?_ one
        rw [if_neg (by omega), if_pos (by omega)]
        omega
      · refine iff_of_false ?_ one
        split_ifs <;> omega

end

end RangedValue

/--
A step leads to the right value exactly if the type that the variable's is
promoted to holds the sum or difference, or, of an unsigned variable, a
numerical field has a range of one value.
-/
theorem steps_iff (bound : IntVariable) (range : RangedValue bound.type) (inc : CInt bound.type)
    (positive : 0 < inc.val) :
    (range.StepsTo (range.sliderIncrement inc) (range.above inc) ↔
        bound.type.promoted.Holds (range.value.val + inc.val)) ∧
      (range.StepsTo (range.sliderDecrement inc) (range.below inc) ↔
        bound.type.promoted.Holds (range.value.val - inc.val)) ∧
      (range.StepsTo (range.numericalIncrement inc) (range.above inc) ↔
        bound.type.promoted.Holds (range.value.val + inc.val) ∨ bound.type.promoted.signed = false ∧
            range.min.val = range.max.val) ∧
      (range.StepsTo (range.numericalDecrement inc) (range.below inc) ↔
        bound.type.promoted.Holds (range.value.val - inc.val) ∨ bound.type.promoted.signed = false ∧
            range.min.val = range.max.val) :=
  ⟨RangedValue.sliderIncrement_iff positive, RangedValue.sliderDecrement_iff positive,
    RangedValue.numericalIncrement_iff positive,
    RangedValue.numericalDecrement_iff positive⟩

/-- The value 4294967290 of a `Uint32` without limits of its own -/
def unlimitedValue : RangedValue IntVariable.uint32.type where
  min := ⟨0, by decide⟩
  max := ⟨4294967295, by decide⟩
  value := ⟨4294967290, by decide⟩
  min_le := by decide
  le_max := by decide

theorem steps_iff_five : unlimitedValue.StepsTo (unlimitedValue.sliderIncrement ⟨5, by decide⟩)
      4294967295 :=
  (steps_iff .uint32 unlimitedValue ⟨5, by decide⟩ (by decide)).1.mpr (by decide)

theorem large_value_wraps : (unlimitedValue.sliderIncrement ⟨10, by decide⟩).map CInt.val = some 4 ∧
      ¬ unlimitedValue.StepsTo (unlimitedValue.sliderIncrement ⟨10, by decide⟩)
        (unlimitedValue.above ⟨10, by decide⟩) := by
  refine ⟨by decide, ?_⟩
  rintro ⟨next, stepped, -, -, value⟩
  have four := congrArg (Option.map CInt.val) stepped
  rw [Option.map_some, value] at four
  exact absurd four (by decide)

end Agar.Gui
