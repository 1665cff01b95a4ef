import Agar.Gui.Scrollbar

namespace Agar.Gui

open Agar.Lib

/-!
# Steps of a scrollbar

A scrollbar's value goes up and down by its increment, and to the pixel that
its control is moved to.  It is to stay between the minimum and the last value
that shows the visible part, or at the minimum if all of the range is visible.
-/

namespace Scrollbar

section

variable {t : CType}

/-- The greatest value that the scrollbar is to have -/
def last (sb : Scrollbar t) : Int := Max.max sb.min.val (sb.max.val - sb.visible.val)

/-- A value is stored that the scrollbar is to have. -/
def Stays (sb : Scrollbar t) (result : Option (CInt t)) : Prop :=
  ∃ next, result = some next ∧ sb.min.val ≤ next.val ∧ next.val ≤ sb.last

/-- A scrollbar with a value that it is to have, and sums that the type holds -/
structure Scrolled (sb : Scrollbar t) (value : CInt t) : Prop where
  ordered : sb.min.val ≤ sb.max.val
  visible : 0 ≤ sb.visible.val
  inc : 0 ≤ sb.inc.val
  low : sb.min.val ≤ value.val
  high : value.val ≤ sb.last
  sum : t.Holds (value.val + sb.inc.val)
  sumMin : t.Holds (sb.min.val + sb.inc.val)

/-- What is added to the minimum, for a pixel in the extent -/
def added (sb : Scrollbar t) (x : CInt .int) : Int :=
  (t.promoted.wrap (x.val * sb.range)).tdiv sb.travel

/--
The extent is defined, and the pixel is outside of it, or the value is
computed without overflow, and not above the minimum if all is visible.
-/
structure SeekFits (sb : Scrollbar t) (x : CInt .int) : Prop where
  extent : sb.ExtentDefined
  range : 0 < x.val → x.val < sb.travel → t.promoted.Defined sb.range
  product : 0 < x.val → x.val < sb.travel → t.promoted.Defined (x.val * sb.range)
  wraps : 0 < x.val → x.val < sb.travel → sb.range < 0 → t.promoted.signed = false →
      sb.added x = 0 ∨ t.promoted.size ≤ sb.min.val + sb.added x

end

/-! ## Increments and decrements -/

section

variable {t : CType} {sb : Scrollbar t} {value : CInt t}

theorem visible_lt_max : sb.visible.lt sb.max = decide (sb.visible.val < sb.max.val) :=
  CInt.lt_eq sb.visible.holds_common_self sb.max.holds_common_self

theorem Scrolled.stays (scrolled : sb.Scrolled value) : sb.Stays (some value) :=
  ⟨value, rfl, scrolled.low, scrolled.high⟩

theorem stays_min : sb.Stays (some sb.min) := ⟨sb.min, rfl, le_rfl, le_max_left _ _⟩

theorem max_sub_visible_of_lt (visible : 0 ≤ sb.visible.val) (less : sb.visible.val < sb.max.val) :
    ∃ last, sb.max.sub sb.visible = some last ∧ last.val = sb.max.val - sb.visible.val ∧
      t.Holds last.val := by
  have holds : t.Holds (sb.max.val - sb.visible.val) := sb.max.holds.of_le (by omega) (by omega)
  obtain ⟨last, isLast, lastVal⟩ :=
    @CInt.sub_of_holds t sb.max sb.visible (CType.holds_promoted holds)
  exact ⟨last, isLast, lastVal, by rwa [lastVal]⟩

theorem lt_of_promoted {first second : CInt (t.common t)} :
    first.lt second = decide (first.val < second.val) :=
  CInt.lt_eq (by simpa using first.holds) (by simpa using second.holds)

theorem lt_of_right_promoted {first : CInt t} {second : CInt (t.common t)} :
    first.lt second = decide (first.val < second.val) :=
  CInt.lt_eq (by simpa using CType.holds_promoted first.holds) (by simpa using second.holds)

theorem lt_of_left_promoted {first : CInt (t.common t)} {second : CInt t} :
    first.lt second = decide (first.val < second.val) :=
  CInt.lt_eq (by simpa using first.holds) (by simpa using CType.holds_promoted second.holds)

theorem increment_iff (scrolled : sb.Scrolled value) : sb.Stays (sb.increment value) ↔
      sb.max.val ≤ sb.visible.val ∨ sb.min.val + sb.visible.val ≤ sb.max.val := by
  have low := scrolled.low
  have high := scrolled.high
  have inc := scrolled.inc
  have isLast : sb.last = Max.max sb.min.val (sb.max.val - sb.visible.val) := rfl
  unfold increment
  rw [visible_lt_max]
  by_cases less : sb.visible.val < sb.max.val
  case neg =>
    rw [if_neg (by simpa using less)]
    exact iff_of_true scrolled.stays (.inl (Int.not_lt.mp less))
  rw [if_pos (decide_eq_true less), or_iff_right (Int.not_le.mpr less)]
  obtain ⟨sum, isSum, sumVal⟩ := CInt.add_of_holds (CType.holds_promoted scrolled.sum)
  obtain ⟨last, formed, lastVal, lastHolds⟩ := max_sub_visible_of_lt scrolled.visible less
  rw [isSum, formed, Option.bind_eq_bind, Option.bind_some, Option.bind_some, lt_of_promoted]
  by_cases beyond : last.val < sum.val
  · rw [if_pos (decide_eq_true beyond)]
    constructor
    · rintro ⟨next, stored, above, -⟩
      obtain rfl : last.convert t = next := Option.some_inj.mp stored
      rw [CInt.convert_val lastHolds] at above
      omega
    · intro fits
      refine ⟨last.convert t, rfl, ?_, ?_⟩ <;>
        rw [CInt.convert_val lastHolds] <;> omega
  · rw [if_neg (by simpa using beyond)]
    have sumHolds : t.Holds sum.val := by
      rw [sumVal]
      exact scrolled.sum
    refine iff_of_true ⟨sum.convert t, rfl, ?_, ?_⟩ (by omega) <;>
      rw [CInt.convert_val sumHolds] <;> omega

theorem decrement_stays (scrolled : sb.Scrolled value) : sb.Stays (sb.decrement value) := by
  have low := scrolled.low
  have high := scrolled.high
  have inc := scrolled.inc
  unfold decrement
  rw [visible_lt_max]
  by_cases less : sb.visible.val < sb.max.val
  case neg =>
    rw [if_neg (by simpa using less)]
    exact scrolled.stays
  rw [if_pos (decide_eq_true less)]
  obtain ⟨sum, isSum, sumVal⟩ := CInt.add_of_holds (CType.holds_promoted scrolled.sumMin)
  rw [isSum, Option.bind_eq_bind, Option.bind_some, lt_of_right_promoted]
  by_cases below : value.val < sum.val
  · rw [if_pos (decide_eq_true below)]
    exact stays_min
  · rw [if_neg (by simpa using below)]
    have holds : t.Holds (value.val - sb.inc.val) :=
      sb.min.holds.between value.holds (by omega) (by omega)
    obtain ⟨difference, formed, differenceVal⟩ := CInt.sub_of_holds (CType.holds_promoted holds)
    rw [formed]
    refine ⟨difference.convert t, rfl, ?_, ?_⟩ <;>
      rw [CInt.convert_val (by rwa [differenceVal]), differenceVal] <;> omega

end

/-! ## Pixels in the extent -/

section

variable {t : CType} {sb : Scrollbar t} {value : CInt t} {x : CInt .int}

/-- What is stored for a sum that the type holds, between the limits -/
def clamped {u : CType} (sb : Scrollbar t) (sum : CInt u) : CInt t :=
  let value := sum.convert t
  let value := if value.lt sb.min then sb.min else value
  if sb.max.lt value then sb.max else value

theorem clamped_val {u : CType} {sum : CInt u} (ordered : sb.min.val ≤ sb.max.val)
    (holds : t.Holds sum.val) :
    (sb.clamped sum).val = if sum.val < sb.min.val then sb.min.val
      else if sb.max.val < sum.val then sb.max.val
      else sum.val := by
  have stored : (sum.convert t).val = sum.val := CInt.convert_val holds
  have compare : ∀ first second : CInt t,
      first.lt second = decide (first.val < second.val) := fun first second =>
    CInt.lt_eq first.holds_common_self second.holds_common_self
  unfold clamped
  simp only [compare, decide_eq_true_eq, stored]
  by_cases below : sum.val < sb.min.val
  · rw [if_pos below, if_pos below, if_neg (Int.not_lt.mpr ordered)]
  · rw [if_neg below, if_neg below, stored]
    by_cases above : sb.max.val < sum.val
    · rw [if_pos above, if_pos above]
    · rw [if_neg above, if_neg above, stored]

theorem product_div_extent {range : CInt ((t.common t).common t)} {extent : CInt .int}
    (rangeVal : range.val = t.promoted.wrap sb.range) (extentVal : extent.val = sb.travel)
    (positive : 0 < sb.travel) (rangeDefined : t.promoted.Defined sb.range)
    (defined : t.promoted.Defined (x.val * sb.range)) :
    ∃ product quotient, x.mul range = some product ∧ product.div extent = some quotient ∧
        quotient.val = sb.added x := by
  have same : t.promoted.Defined (x.val * range.val) ∧ t.promoted.wrap (x.val * range.val) =
          t.promoted.wrap (x.val * sb.range) := by
    cases signed : t.promoted.signed with
    | true =>
      rw [rangeVal, CType.wrap_of_holds (rangeDefined signed)]
      exact ⟨defined, rfl⟩
    | false =>
      refine ⟨CType.defined_of_unsigned signed, ?_⟩
      rw [rangeVal, CType.wrap_of_unsigned signed,
        CType.wrap_of_unsigned signed, CType.wrap_of_unsigned signed,
        Int.mul_emod, Int.emod_emod, ← Int.mul_emod]
  obtain ⟨product, isProduct, productVal⟩ :=
    @CType.compute_of_defined (CType.int.common ((t.common t).common t)) _ (by simpa using same.1)
  obtain ⟨quotient, isQuotient, quotientVal⟩ :=
    @CInt.div_of_pos _ _ product extent (by simpa using product.holds) (by
        have holds := @CType.holds_promoted_of_int t _ extent.holds (by omega)
        simpa using holds)
      (by omega)
  refine ⟨product, quotient, ?_, isQuotient, ?_⟩
  · rw [CInt.mul_eq_compute, isProduct]
  · rw [quotientVal, productVal, extentVal, added, ← same.2]
    simp

theorem added_mem (left : 0 < x.val) (right : x.val < sb.travel)
    (product : t.promoted.Defined (x.val * sb.range)) (some : 0 ≤ sb.range) :
    0 ≤ sb.added x ∧ sb.added x ≤ sb.range := by
  have nonneg : 0 ≤ x.val * sb.range := Int.mul_nonneg left.le some
  obtain ⟨low, high⟩ : 0 ≤ t.promoted.wrap (x.val * sb.range) ∧
        t.promoted.wrap (x.val * sb.range) ≤ x.val * sb.range := by
    cases signed : t.promoted.signed with
    | true =>
      rw [CType.wrap_of_holds (product signed)]
      exact ⟨nonneg, le_rfl⟩
    | false => exact CType.wrap_mem_of_unsigned signed nonneg
  have positive : 0 < sb.travel := left.trans right
  rw [added, Int.tdiv_eq_ediv_of_nonneg low]
  refine ⟨Int.ediv_nonneg low positive.le, Int.ediv_le_of_le_mul positive (high.trans ?_)⟩
  rw [Int.mul_comm]
  exact Int.mul_le_mul_of_nonneg_left right.le some

theorem added_mem_of_signed (left : 0 < x.val) (right : x.val < sb.travel)
    (signed : t.promoted.signed = true) (product : t.promoted.Defined (x.val * sb.range))
    (all : sb.range < 0) : sb.range ≤ sb.added x ∧ sb.added x ≤ 0 := by
  have positive : 0 < sb.travel := left.trans right
  have nonneg : 0 ≤ x.val * -sb.range := Int.mul_nonneg left.le (by omega)
  have shape : x.val * sb.range = -(x.val * -sb.range) := by ring
  have most : x.val * -sb.range / sb.travel ≤ -sb.range := by
    refine Int.ediv_le_of_le_mul positive ?_
    rw [Int.mul_comm]
    exact Int.mul_le_mul_of_nonneg_left right.le (by omega)
  have least := Int.ediv_nonneg nonneg positive.le
  rw [added, CType.wrap_of_holds (product signed), shape, Int.neg_tdiv,
    Int.tdiv_eq_ediv_of_nonneg nonneg]
  omega

theorem seekToPxCoords_between (visible : 0 ≤ sb.visible.val) (ordered : sb.min.val ≤ sb.max.val)
    (less : sb.visible.val < sb.max.val) (left : 0 < x.val) (right : x.val < sb.travel)
    (extentDefined : sb.ExtentDefined) (rangeDefined : t.promoted.Defined sb.range)
    (product : t.promoted.Defined (x.val * sb.range))
    (sumDefined : t.promoted.Defined (sb.min.val + sb.added x))
    (sumHolds : t.Holds (t.promoted.wrap (sb.min.val + sb.added x))) :
    ∃ next, sb.seekToPxCoords value x = some next ∧ next.val =
        if t.promoted.wrap (sb.min.val + sb.added x) < sb.min.val then sb.min.val
        else if sb.max.val < t.promoted.wrap (sb.min.val + sb.added x) then sb.max.val
        else
          t.promoted.wrap (sb.min.val + sb.added x) := by
  obtain ⟨extent, isExtent, extentVal⟩ := extentPx_of_defined ordered extentDefined
  obtain ⟨last, isLast, lastVal, -⟩ := max_sub_visible_of_lt visible less
  have isRange : last.val - sb.min.val = sb.range := by rw [lastVal, Scrollbar.range]
  obtain ⟨range, formed, rangeVal⟩ :=
    @CType.compute_of_defined ((t.common t).common t) _ (by simpa using rangeDefined)
  obtain ⟨scaled, quotient, isScaled, isQuotient, quotientVal⟩ :=
    @product_div_extent t sb x range extent (by simpa using rangeVal)
      extentVal (left.trans right) rangeDefined product
  obtain ⟨sum, isSum, sumVal⟩ :=
    @CType.compute_of_defined (t.common ((CType.int.common ((t.common t).common t)).common .int)) _
      (by simpa using sumDefined)
  have sumEq : sum.val = t.promoted.wrap (sb.min.val + sb.added x) := by
    rw [sumVal]
    simp
  refine ⟨sb.clamped sum, ?_, ?_⟩
  · unfold seekToPxCoords
    simp only [Option.bind_eq_bind]
    rw [visible_lt_max, if_pos (decide_eq_true less), isExtent,
      Option.bind_some, if_neg (Int.not_le.mpr left),
      if_neg (by rw [extentVal]; exact Int.not_le.mpr right), isLast,
      Option.bind_some, CInt.sub_eq_compute, isRange, formed,
      Option.bind_some, isScaled, Option.bind_some, isQuotient,
      Option.bind_some, CInt.add_eq_compute, quotientVal, isSum]
    rfl
  · rw [clamped_val ordered (by rwa [sumEq]), sumEq]

theorem seekToPxCoords_of_not_defined (visible : 0 ≤ sb.visible.val)
    (ordered : sb.min.val ≤ sb.max.val) (less : sb.visible.val < sb.max.val) (left : 0 < x.val)
    (right : x.val < sb.travel) (extentDefined : sb.ExtentDefined)
    (undefined : ¬ (t.promoted.Defined sb.range ∧ t.promoted.Defined (x.val * sb.range))) :
    sb.seekToPxCoords value x = none := by
  obtain ⟨extent, isExtent, extentVal⟩ := extentPx_of_defined ordered extentDefined
  obtain ⟨last, isLast, lastVal, -⟩ := max_sub_visible_of_lt visible less
  have isRange : last.val - sb.min.val = sb.range := by rw [lastVal, Scrollbar.range]
  unfold seekToPxCoords
  simp only [Option.bind_eq_bind]
  rw [visible_lt_max, if_pos (decide_eq_true less), isExtent,
    Option.bind_some, if_neg (Int.not_le.mpr left),
    if_neg (by rw [extentVal]; exact Int.not_le.mpr right), isLast,
    Option.bind_some, CInt.sub_eq_compute, isRange]
  by_cases rangeDefined : t.promoted.Defined sb.range
  · have productUndefined : ¬ t.promoted.Defined (x.val * sb.range) :=
      fun product => undefined ⟨rangeDefined, product⟩
    obtain ⟨signed, -⟩ := Classical.not_imp.mp productUndefined
    have held : ((t.common t).common t).Holds sb.range := by simpa using rangeDefined signed
    rw [CType.compute_of_holds held, Option.bind_some, CInt.mul_eq_compute,
      CType.compute_of_not_defined (by simpa using productUndefined)]
    rfl
  · rw [CType.compute_of_not_defined (by simpa using rangeDefined)]
    rfl

theorem seek_outside_stays (scrolled : sb.Scrolled value) (less : sb.visible.val < sb.max.val)
    (extentDefined : sb.ExtentDefined) (outside : x.val ≤ 0 ∨ sb.travel ≤ x.val) :
    sb.Stays (sb.seekToPxCoords value x) := by
  obtain ⟨extent, isExtent, extentVal⟩ := extentPx_of_defined scrolled.ordered extentDefined
  unfold seekToPxCoords
  rw [visible_lt_max, if_pos (decide_eq_true less), isExtent,
    Option.bind_eq_bind, Option.bind_some, extentVal]
  by_cases left : x.val ≤ 0
  · rw [if_pos left]
    exact stays_min
  · rw [if_neg left, if_pos (outside.resolve_left left)]
    obtain ⟨last, isLast, lastVal, lastHolds⟩ := max_sub_visible_of_lt scrolled.visible less
    rw [isLast, Option.bind_eq_bind, Option.bind_some, lt_of_left_promoted]
    by_cases all : last.val < sb.min.val
    · rw [if_pos (decide_eq_true all)]
      exact stays_min
    · rw [if_neg (by simpa using all)]
      refine ⟨last.convert t, rfl, ?_, ?_⟩ <;>
        rw [CInt.convert_val lastHolds]
      · exact Int.not_lt.mp all
      · rw [lastVal]
        exact le_max_right _ _

theorem added_mem_of_unsigned (unsigned : t.promoted.signed = false) (positive : 0 < sb.travel) :
    0 ≤ sb.added x ∧ sb.added x < t.promoted.size := by
  obtain ⟨low, high⟩ := t.promoted.holds_wrap (x.val * sb.range)
  rw [CType.least_of_unsigned unsigned] at low
  rw [CType.greatest_of_unsigned unsigned] at high
  rw [added, Int.tdiv_eq_ediv_of_nonneg low]
  exact ⟨Int.ediv_nonneg low positive.le, lt_of_le_of_lt (Int.ediv_le_self _ low) (by omega)⟩

theorem wrap_min_add (unsigned : t.promoted.signed = false) (positive : 0 < sb.travel) :
    (sb.min.val + sb.added x < t.promoted.size ∧ t.promoted.wrap (sb.min.val + sb.added x) =
          sb.min.val + sb.added x) ∨
      (t.promoted.size ≤ sb.min.val + sb.added x ∧
        t.promoted.wrap (sb.min.val + sb.added x) < sb.min.val) := by
  obtain ⟨low, high⟩ := @added_mem_of_unsigned t sb x unsigned positive
  have minHolds := CType.holds_promoted sb.min.holds
  unfold CType.Holds at minHolds
  rw [CType.least_of_unsigned unsigned, CType.greatest_of_unsigned unsigned] at minHolds
  rcases Int.lt_or_le (sb.min.val + sb.added x) t.promoted.size with
    small | large
  · refine .inl ⟨small, CType.wrap_of_holds ⟨?_, ?_⟩⟩
    · rw [CType.least_of_unsigned unsigned]
      omega
    · rw [CType.greatest_of_unsigned unsigned]
      omega
  · have once : t.promoted.Holds (sb.min.val + sb.added x - 1 * t.promoted.size) := by
      refine ⟨?_, ?_⟩
      · rw [CType.least_of_unsigned unsigned]
        omega
      · rw [CType.greatest_of_unsigned unsigned]
        omega
    refine .inr ⟨large, ?_⟩
    rw [CType.wrap_eq_of_holds once]
    omega

theorem seek_between_unsigned_iff (scrolled : sb.Scrolled value)
    (less : sb.visible.val < sb.max.val) (left : 0 < x.val) (right : x.val < sb.travel)
    (extentDefined : sb.ExtentDefined) (unsigned : t.promoted.signed = false) (all : sb.range < 0) :
    sb.Stays (sb.seekToPxCoords value x) ↔
      sb.added x = 0 ∨ t.promoted.size ≤ sb.min.val + sb.added x := by
  have visible := scrolled.visible
  have ordered := scrolled.ordered
  have isRange : sb.range = sb.max.val - sb.visible.val - sb.min.val := rfl
  have isLast : sb.last = Max.max sb.min.val (sb.max.val - sb.visible.val) := rfl
  have positive : 0 < sb.travel := left.trans right
  have spans : sb.min.val < sb.max.val := by
    by_contra none
    have isTravel : sb.travel = 0 := by
      rw [travel, if_pos (by omega), if_neg (by unfold span; omega)]
    omega
  obtain ⟨same, -⟩ := CType.promoted_of_unsigned unsigned
  obtain ⟨next, stored, nextVal⟩ :=
    @seekToPxCoords_between t sb value x visible ordered less left right
      extentDefined (CType.defined_of_unsigned unsigned)
      (CType.defined_of_unsigned unsigned)
      (CType.defined_of_unsigned unsigned)
      ((congrArg (fun u => CType.Holds u _) same).mp (t.promoted.holds_wrap _))
  have sum := @wrap_min_add t sb x unsigned positive
  have nonneg := (@added_mem_of_unsigned t sb x unsigned positive).1
  have stays : sb.Stays (sb.seekToPxCoords value x) ↔
        sb.min.val ≤ next.val ∧ next.val ≤ sb.last := by
    rw [stored]
    constructor
    · rintro ⟨other, isNext, inside⟩
      rw [Option.some_inj.mp isNext]
      exact inside
    · intro inside
      exact ⟨next, rfl, inside⟩
  rw [stays, nextVal]
  split_ifs <;> omega

theorem seek_between_stays (scrolled : sb.Scrolled value) (less : sb.visible.val < sb.max.val)
    (left : 0 < x.val) (right : x.val < sb.travel) (extentDefined : sb.ExtentDefined)
    (rangeDefined : t.promoted.Defined sb.range) (product : t.promoted.Defined (x.val * sb.range))
    (some : 0 ≤ sb.range ∨ t.promoted.signed = true) : sb.Stays (sb.seekToPxCoords value x) := by
  have isRange : sb.range = sb.max.val - sb.visible.val - sb.min.val := rfl
  have isLast : sb.last = Max.max sb.min.val (sb.max.val - sb.visible.val) := rfl
  have visible := scrolled.visible
  obtain ⟨sumHolds, below⟩ : t.Holds (sb.min.val + sb.added x) ∧
        sb.min.val + sb.added x ≤ sb.last := by
    rcases Int.lt_or_le sb.range 0 with all | some'
    · have signed := some.resolve_left (Int.not_le.mpr all)
      have inside := added_mem_of_signed left right signed product all
      exact ⟨sb.min.holds.of_le (by omega) (by omega), by omega⟩
    · have inside := added_mem left right product some'
      exact ⟨sb.min.holds.between sb.max.holds (by omega) (by omega), by omega⟩
  have sum := CType.wrap_of_holds (CType.holds_promoted sumHolds)
  obtain ⟨next, stored, nextVal⟩ :=
    @seekToPxCoords_between t sb value x visible scrolled.ordered less left
      right extentDefined rangeDefined product
      (CType.holds_promoted sumHolds).defined (by rwa [sum])
  have ordered := scrolled.ordered
  rw [sum] at nextVal
  refine ⟨next, stored, ?_, ?_⟩ <;> rw [nextVal] <;> split_ifs <;> omega

theorem seek_iff (scrolled : sb.Scrolled value) : sb.Stays (sb.seekToPxCoords value x) ↔
      sb.max.val ≤ sb.visible.val ∨ sb.SeekFits x := by
  by_cases less : sb.visible.val < sb.max.val
  case neg =>
    refine iff_of_true ?_ (.inl (Int.not_lt.mp less))
    unfold seekToPxCoords
    rw [visible_lt_max, if_neg (by simpa using less)]
    exact scrolled.stays
  rw [or_iff_right (Int.not_le.mpr less)]
  by_cases extentDefined : sb.ExtentDefined
  case neg =>
    refine iff_of_false ?_ fun fits => extentDefined fits.extent
    rintro ⟨next, stored, -⟩
    unfold seekToPxCoords at stored
    rw [visible_lt_max, if_pos (decide_eq_true less)] at stored
    obtain ⟨extent, isExtent, -⟩ := Option.bind_eq_some_iff.mp stored
    exact extentDefined (extentDefined_of_extentPx scrolled.ordered isExtent)
  by_cases inside : 0 < x.val ∧ x.val < sb.travel
  case neg =>
    refine iff_of_true (seek_outside_stays scrolled less extentDefined (by omega))
      ⟨extentDefined, fun left right => absurd ⟨left, right⟩ inside,
        fun left right => absurd ⟨left, right⟩ inside,
        fun left right => absurd ⟨left, right⟩ inside⟩
  obtain ⟨left, right⟩ := inside
  by_cases defined : t.promoted.Defined sb.range ∧ t.promoted.Defined (x.val * sb.range)
  case neg =>
    refine iff_of_false ?_ fun fits => defined ⟨fits.range left right, fits.product left right⟩
    rintro ⟨next, stored, -⟩
    rw [seekToPxCoords_of_not_defined scrolled.visible scrolled.ordered less
      left right extentDefined defined] at stored
    cases stored
  obtain ⟨rangeDefined, product⟩ := defined
  by_cases wraps : sb.range < 0 ∧ t.promoted.signed = false
  · obtain ⟨all, unsigned⟩ := wraps
    rw [seek_between_unsigned_iff scrolled less left right extentDefined unsigned all]
    exact ⟨fun stays => ⟨extentDefined, fun _ _ => rangeDefined,
        fun _ _ => product, fun _ _ _ _ => stays⟩,
      fun fits => fits.wraps left right all unsigned⟩
  · refine iff_of_true (seek_between_stays scrolled less left right extentDefined rangeDefined
        product ?_)
      ⟨extentDefined, fun _ _ => rangeDefined, fun _ _ => product,
        fun _ _ all unsigned => absurd ⟨all, unsigned⟩ wraps⟩
    rcases Int.lt_or_le sb.range 0 with all | some
    · exact .inr (by simpa using fun unsigned => wraps ⟨all, unsigned⟩)
    · exact .inl some

end

end Scrollbar

/--
A step of a scrollbar leads to a value that it is to have: an increment exactly
if the visible part is not larger than a range that is scrolled, a decrement
always, and a pixel exactly if what it leads to is computed right.
-/
theorem scrollbar_stays_iff (bound : IntVariable) (sb : Scrollbar bound.type)
    (value : CInt bound.type) (x : CInt .int) (scrolled : sb.Scrolled value) :
    (sb.Stays (sb.increment value) ↔ sb.max.val ≤ sb.visible.val ∨
          sb.min.val + sb.visible.val ≤ sb.max.val) ∧
      sb.Stays (sb.decrement value) ∧
      (sb.Stays (sb.seekToPxCoords value x) ↔ sb.max.val ≤ sb.visible.val ∨ sb.SeekFits x) :=
  ⟨Scrollbar.increment_iff scrolled, Scrollbar.decrement_stays scrolled,
    Scrollbar.seek_iff scrolled⟩

def shiftedBar (visible : Int)
    (holds : CType.int.Holds visible) : Scrollbar IntVariable.int.type where
  min := ⟨5, by decide⟩
  max := ⟨10, by decide⟩
  visible := ⟨visible, holds⟩
  inc := ⟨1, by decide⟩
  length := ⟨100, by decide⟩
  wBar := ⟨-1, by decide⟩

theorem scrollbar_stays_iff_three : (shiftedBar 3 (by decide)).Stays
      ((shiftedBar 3 (by decide)).increment ⟨6, by decide⟩) :=
  (scrollbar_stays_iff .int (shiftedBar 3 (by decide)) ⟨6, by decide⟩ zero
    ⟨by decide, by decide, by decide, by decide, by decide, by decide,
      by decide⟩).1.mpr (.inr (by decide))

theorem larger_part_leaves : (shiftedBar 8 (by decide)).Scrolled ⟨5, by decide⟩ ∧
      ((shiftedBar 8 (by decide)).increment ⟨5, by decide⟩).map CInt.val = some 2 ∧
      ¬ (shiftedBar 8 (by decide)).Stays ((shiftedBar 8 (by decide)).increment ⟨5, by decide⟩) := by
  refine ⟨⟨by decide, by decide, by decide, by decide, by decide, by decide,
    by decide⟩, by decide, ?_⟩
  rintro ⟨next, stored, above, -⟩
  have two := congrArg (Option.map CInt.val) stored
  rw [show ((shiftedBar 8 (by decide)).increment ⟨5, by decide⟩).map CInt.val =
    some 2 by decide, Option.map_some, Option.some_inj] at two
  rw [← two] at above
  exact absurd above (by decide)

end Agar.Gui
