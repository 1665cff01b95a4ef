import Agar.Gui.Scrollbar
import Agar.Lib.WrappedScale

namespace Agar.Gui

open Agar.Lib

/-!
# Place and size of a scrollbar's control

The size of the control and its extent are complementary.  The place is scaled
with a product and a quotient: it is right where the product fits, and the
range of the value fits an `int`.
-/

namespace Scrollbar

section

variable {t : CType}

/-- The control is shown inside of the bar, in the order of the values. -/
structure ShowsControl (sb : Scrollbar t) : Prop where
  inside : ∀ value : CInt t, sb.min.val ≤ value.val → value.val ≤ sb.max.val - sb.visible.val →
      ∃ x len, sb.getPxCoords value = some (some (x, len)) ∧ 0 ≤ x.val ∧ 0 ≤ len.val ∧
          x.val + len.val ≤ sb.length.val
  inOrder : ∀ first second : CInt t, sb.min.val ≤ first.val → first.val ≤ second.val →
      second.val ≤ sb.max.val - sb.visible.val → ∃ x y firstLen secondLen,
          sb.getPxCoords first = some (some (x, firstLen)) ∧
            sb.getPxCoords second = some (some (y, secondLen)) ∧
            x.val ≤ y.val
  atMin : ∃ x len, sb.getPxCoords sb.min = some (some (x, len)) ∧ x.val = 0

/--
The type holds the range and the product that the control's size is computed
with, a fixed size is not larger than the bar, and either the control does not
move or the range fits an `int` and the type holds its product with the extent.
-/
structure ControlFits (sb : Scrollbar t) : Prop where
  span : t.promoted.Holds sb.span
  product : 0 < sb.visible.val → t.promoted.Defined (sb.visible.val * sb.length.val)
  fixed : sb.visible.val = 0 → sb.wBar.val = -1 ∨ (0 ≤ sb.wBar.val ∧ sb.wBar.val ≤ sb.length.val)
  moves : (sb.travel = 0 ∧ 1 ≤ CType.int.wrap sb.range) ∨ (sb.range ≤ CType.int.greatest ∧
        t.promoted.Holds (sb.range * sb.travel))

/-- A bar and a range whose visible part is smaller -/
structure Scrolls (sb : Scrollbar t) : Prop where
  visible : 0 ≤ sb.visible.val
  length : 0 ≤ sb.length.val
  range : 0 < sb.range

end

/-! ## Sizes -/

section

variable {t : CType} {sb : Scrollbar t}

theorem Scrolls.span (scrolls : sb.Scrolls) :
    sb.span = sb.range + sb.visible.val ∧ 0 < sb.span := by
  obtain ⟨visible, -, positive⟩ := scrolls
  unfold Scrollbar.range at *
  unfold Scrollbar.span
  omega

theorem Scrolls.ordered (scrolls : sb.Scrolls) : sb.min.val ≤ sb.max.val := by
  have positive := scrolls.span.2
  unfold Scrollbar.span at positive
  omega

theorem visiblePixels_mem (scrolls : sb.Scrolls)
    (defined : t.promoted.Defined (sb.visible.val * sb.length.val)) :
    0 ≤ sb.visiblePixels ∧ sb.visiblePixels ≤ sb.length.val := by
  obtain ⟨isSpan, positive⟩ := scrolls.span
  have nonneg : 0 ≤ sb.visible.val * sb.length.val := Int.mul_nonneg scrolls.visible scrolls.length
  obtain ⟨low, high⟩ : 0 ≤ t.promoted.wrap (sb.visible.val * sb.length.val) ∧
        t.promoted.wrap (sb.visible.val * sb.length.val) ≤ sb.visible.val * sb.length.val := by
    cases signed : t.promoted.signed with
    | true =>
      rw [CType.wrap_of_holds (defined signed)]
      exact ⟨nonneg, le_rfl⟩
    | false => exact CType.wrap_mem_of_unsigned signed nonneg
  rw [visiblePixels, Int.tdiv_eq_ediv_of_nonneg low]
  refine ⟨Int.ediv_nonneg low positive.le, ?_⟩
  refine Int.ediv_le_of_le_mul positive (high.trans ?_)
  rw [Int.mul_comm]
  exact Int.mul_le_mul_of_nonneg_left (by have := scrolls.range; omega) scrolls.length

/-- What the extent needs to be defined -/
structure Sized (sb : Scrollbar t) : Prop where
  span : t.promoted.Defined sb.span
  product : 0 < sb.visible.val → t.promoted.Defined (sb.visible.val * sb.length.val)
  fixed : sb.visible.val = 0 → sb.wBar.val = -1 ∨ (0 ≤ sb.wBar.val ∧ sb.wBar.val ≤ sb.length.val)

theorem travel_mem (scrolls : sb.Scrolls) (sized : sb.Sized) :
    0 ≤ sb.travel ∧ sb.travel ≤ sb.length.val := by
  have lengthNonneg := scrolls.length
  unfold travel
  split_ifs with shown positive whole
  · have pixels := visiblePixels_mem scrolls (sized.product shown)
    rw [CType.wrap_of_holds (sb.length.holds.of_le pixels.1 pixels.2)]
    omega
  · omega
  · omega
  · have fixed := sized.fixed (by have := scrolls.visible; omega)
    omega

theorem Sized.extentDefined (scrolls : sb.Scrolls) (sized : sb.Sized) : sb.ExtentDefined := by
  obtain ⟨nonneg, small⟩ := travel_mem scrolls sized
  exact ⟨fun _ => sized.span, fun shown _ => sized.product shown,
    sb.length.holds.of_le nonneg small⟩

theorem thumb_of_sized (scrolls : sb.Scrolls) (sized : sb.Sized) :
    ∃ len, sb.thumb = some len ∧ len.val = sb.length.val - sb.travel := by
  unfold thumb travel
  rw [zero_lt_visible]
  by_cases shown : 0 < sb.visible.val
  · rw [if_pos (decide_eq_true shown), if_pos shown, if_pos scrolls.span.2]
    obtain ⟨pixels, isShare, pixelsVal⟩ :=
      share_of_defined scrolls.span.2 sized.span (sized.product shown)
    have inside := visiblePixels_mem scrolls (sized.product shown)
    refine ⟨pixels.convert .int, ?_, ?_⟩
    · rw [isShare]
      rfl
    · change CType.int.wrap pixels.val = _
      rw [pixelsVal]
      omega
  · rw [if_neg (by simpa using shown), if_neg shown]
    by_cases whole : sb.wBar.val = -1
    · rw [if_pos whole, if_pos whole]
      refine ⟨_, rfl, ?_⟩
      rw [@CInt.convert_convert_int t _ (by simp)]
      omega
    · rw [if_neg whole, if_neg whole]
      refine ⟨_, rfl, ?_⟩
      rw [@CInt.convert_convert_int t _ (by simp)]
      omega

/-! ## Places -/

theorem max_sub_visible (scrolls : sb.Scrolls) : ∃ last, sb.max.sub sb.visible = some last ∧
      last.val = sb.max.val - sb.visible.val ∧ sb.min.lt last = true := by
  have visible := scrolls.visible
  have positive := scrolls.range
  unfold Scrollbar.range at positive
  obtain ⟨last, isLast, lastVal⟩ :=
    @CInt.sub_of_holds t sb.max sb.visible (CType.holds_promoted
      (sb.min.holds.between sb.max.holds (by omega) (by omega)))
  refine ⟨last, isLast, lastVal, ?_⟩
  rw [CInt.lt_eq (by simpa using CType.holds_promoted sb.min.holds)
    (by simpa using last.holds), decide_eq_true_eq]
  omega

/-- What is known where the place of a value is found -/
structure Placed (sb : Scrollbar t) (value : CInt t) (x len : CInt .int) : Prop where
  extent : sb.ExtentDefined
  range : t.promoted.Defined sb.range
  divides : 1 ≤ CType.int.wrap sb.range
  product : t.promoted.Defined ((value.val - sb.min.val) * sb.travel)
  place : x.val = CType.int.wrap ((t.promoted.wrap ((value.val - sb.min.val) * sb.travel)).tdiv
          (CType.int.wrap sb.range))
  size : sb.thumb = some len

theorem lt_one {pixels : CInt .int} : pixels.lt one = decide (pixels.val < 1) :=
  @CInt.lt_eq .int .int pixels one pixels.holds one.holds

theorem last_sub_min {last : CInt (t.common t)} (scrolls : sb.Scrolls)
    (lastVal : last.val = sb.max.val - sb.visible.val) (defined : t.promoted.Defined sb.range) :
    ∃ range, last.sub sb.min = some range ∧ range.val = sb.range := by
  have isRange : last.val - sb.min.val = sb.range := by rw [lastVal, Scrollbar.range]
  have holds : t.promoted.Holds sb.range := by
    cases signed : t.promoted.signed with
    | true => exact defined signed
    | false =>
      have low := sb.min.holds.1
      have positive := scrolls.range
      have visible := scrolls.visible
      rw [CType.least_of_unsigned (CType.promoted_of_unsigned signed).2] at low
      refine (CType.holds_promoted sb.max.holds).of_le positive.le ?_
      unfold Scrollbar.range
      omega
  rw [CInt.sub_eq_compute, isRange, CType.compute_of_holds (by simpa using holds)]
  exact ⟨_, rfl, rfl⟩

theorem product_div_range {offset : CInt (t.common t)} {extent : CInt .int}
    {range : CInt ((t.common t).common t)} (defined : t.promoted.Defined (offset.val * extent.val))
    (divides : 1 ≤ CType.int.wrap range.val) :
    ∃ product quotient, offset.mul extent = some product ∧
        product.div (range.convert .int) = some quotient ∧
        quotient.val = (t.promoted.wrap (offset.val * extent.val)).tdiv
            (CType.int.wrap range.val) := by
  obtain ⟨product, isProduct, productVal⟩ :=
    @CType.compute_of_defined ((t.common t).common .int) _ (by simpa using defined)
  have divisorHolds : t.promoted.Holds (range.convert .int).val :=
    CType.holds_promoted_of_int (range.convert .int).holds (zero_le_one.trans divides)
  obtain ⟨quotient, isQuotient, quotientVal⟩ :=
    @CInt.div_of_pos _ _ product (range.convert .int)
      (by simpa using product.holds) (by simpa using divisorHolds)
      (by change 0 < CType.int.wrap range.val; omega)
  refine ⟨product, quotient, ?_, isQuotient, ?_⟩
  · rw [CInt.mul_eq_compute, isProduct]
  · rw [quotientVal, productVal]
    simp only [CType.common_self, CType.common_int, CType.promoted_promoted]
    rfl

theorem getPxCoords_iff {value : CInt t} {x len : CInt .int} (scrolls : sb.Scrolls)
    (low : sb.min.val ≤ value.val) (high : value.val ≤ sb.max.val - sb.visible.val) :
    sb.getPxCoords value = some (some (x, len)) ↔ sb.Placed value x len := by
  obtain ⟨last, isLast, lastVal, above⟩ := max_sub_visible scrolls
  unfold getPxCoords
  simp only [Option.bind_eq_bind]
  rw [isLast, Option.bind_some, above, if_neg (by decide : ¬ true = false)]
  by_cases extentDefined : sb.ExtentDefined
  case neg =>
    refine iff_of_false (fun found => ?_) fun placed => extentDefined placed.extent
    obtain ⟨extent, isExtent, -⟩ := Option.bind_eq_some_iff.mp found
    exact extentDefined (extentDefined_of_extentPx scrolls.ordered isExtent)
  obtain ⟨extent, isExtent, extentVal⟩ := extentPx_of_defined scrolls.ordered extentDefined
  rw [isExtent, Option.bind_some]
  by_cases rangeDefined : t.promoted.Defined sb.range
  case neg =>
    have undefined : last.sub sb.min = none := by
      rw [CInt.sub_eq_compute, lastVal]
      exact CType.compute_of_not_defined (by simpa [Scrollbar.range] using rangeDefined)
    rw [undefined, Option.bind_none]
    exact iff_of_false (fun found => by cases found) fun placed => rangeDefined placed.range
  obtain ⟨range, isRange, rangeVal⟩ := last_sub_min scrolls lastVal rangeDefined
  have divisor : (range.convert .int).val = CType.int.wrap sb.range := by
    rw [← rangeVal]
    rfl
  rw [isRange, Option.bind_some, lt_one, divisor]
  by_cases divides : 1 ≤ CType.int.wrap sb.range
  case neg =>
    rw [if_pos (decide_eq_true (Int.not_le.mp divides))]
    exact iff_of_false (fun found => by cases found) fun placed => divides placed.divides
  rw [if_neg (by simpa [one] using divides)]
  obtain ⟨offset, isOffset, offsetVal⟩ :=
    @CInt.sub_of_holds t value sb.min (holds_of_defined (fun signed =>
      (rangeDefined signed).of_le (by omega) (by unfold Scrollbar.range; omega)) (by omega))
  rw [isOffset, Option.bind_some]
  by_cases productDefined : t.promoted.Defined ((value.val - sb.min.val) * sb.travel)
  case neg =>
    have undefined : offset.mul extent = none := by
      rw [CInt.mul_eq_compute, offsetVal, extentVal]
      exact CType.compute_of_not_defined (by simpa using productDefined)
    rw [undefined, Option.bind_none]
    exact iff_of_false (fun found => by cases found) fun placed => productDefined placed.product
  obtain ⟨product, quotient, isProduct, isQuotient, quotientVal⟩ :=
    @product_div_range t offset extent range (by rwa [offsetVal, extentVal]) (by rwa [rangeVal])
  rw [offsetVal, extentVal, rangeVal] at quotientVal
  rw [isProduct, Option.bind_some, isQuotient, Option.bind_some]
  have placeVal : (quotient.convert .int).val = CType.int.wrap
          ((t.promoted.wrap ((value.val - sb.min.val) * sb.travel)).tdiv
            (CType.int.wrap sb.range)) := by
    rw [← quotientVal]
    rfl
  constructor
  · intro found
    obtain ⟨size, isSize, same⟩ := Option.bind_eq_some_iff.mp found
    cases same
    exact ⟨extentDefined, rangeDefined, divides, productDefined, placeVal, isSize⟩
  · intro placed
    have same : quotient.convert .int = x := CInt.eq_of_val_eq (placeVal.trans placed.place.symm)
    rw [placed.size, Option.bind_some, same]
    rfl

/-! ## Controls that fit -/

theorem ControlFits.sized (fits : sb.ControlFits) : sb.Sized :=
  ⟨fits.span.defined, fits.product, fits.fixed⟩

theorem range_holds (scrolls : sb.Scrolls) (spanHolds : t.promoted.Holds sb.span) :
    t.promoted.Holds sb.range :=
  spanHolds.of_le scrolls.range.le (by have := scrolls.span; have := scrolls.visible; omega)

theorem placed_of_fits {value : CInt t} (scrolls : sb.Scrolls) (fits : sb.ControlFits)
    (low : sb.min.val ≤ value.val) (high : value.val ≤ sb.max.val - sb.visible.val) :
    ∃ x len, sb.getPxCoords value = some (some (x, len)) ∧
        x.val = (value.val - sb.min.val) * sb.travel / sb.range ∧
        len.val = sb.length.val - sb.travel := by
  obtain ⟨travelNonneg, travelSmall⟩ := travel_mem scrolls fits.sized
  obtain ⟨len, isLen, lenVal⟩ := thumb_of_sized scrolls fits.sized
  have positive := scrolls.range
  have nonneg : 0 ≤ (value.val - sb.min.val) * sb.travel := Int.mul_nonneg (by omega) travelNonneg
  have small : (value.val - sb.min.val) * sb.travel ≤ sb.range * sb.travel :=
    Int.mul_le_mul_of_nonneg_right (by unfold Scrollbar.range; omega) travelNonneg
  have inside : (value.val - sb.min.val) * sb.travel / sb.range ≤ sb.travel :=
    Int.ediv_le_of_le_mul positive (by rwa [Int.mul_comm sb.travel])
  have productHolds : t.promoted.Holds ((value.val - sb.min.val) * sb.travel) := by
    rcases fits.moves with ⟨still, -⟩ | ⟨-, holds⟩
    · rw [still, Int.mul_zero]
      exact CType.holds_promoted_of_int zero.holds le_rfl
    · exact holds.of_le nonneg small
  have divides : 1 ≤ CType.int.wrap sb.range := by
    rcases fits.moves with ⟨-, divides⟩ | ⟨intRange, -⟩
    · exact divides
    · rw [CType.wrap_of_holds ⟨CType.int.least_nonpos.trans positive.le, intRange⟩]
      exact positive
  have place : CType.int.wrap ((t.promoted.wrap ((value.val - sb.min.val) * sb.travel)).tdiv
            (CType.int.wrap sb.range)) =
        (value.val - sb.min.val) * sb.travel / sb.range := by
    rw [CType.wrap_of_holds productHolds, Int.tdiv_eq_ediv_of_nonneg nonneg]
    rcases fits.moves with ⟨still, -⟩ | ⟨intRange, -⟩
    · rw [still, Int.mul_zero, Int.zero_ediv, Int.zero_ediv]
      exact CType.wrap_of_holds zero.holds
    · have rangeInt : CType.int.Holds sb.range :=
        ⟨CType.int.least_nonpos.trans positive.le, intRange⟩
      rw [CType.wrap_of_holds rangeInt, CType.wrap_of_holds
        (sb.length.holds.of_le (Int.ediv_nonneg nonneg positive.le) (by omega))]
  refine ⟨⟨_, CType.int.holds_wrap _⟩, len, (getPxCoords_iff scrolls low high).mpr
      ⟨fits.sized.extentDefined scrolls, (range_holds scrolls fits.span).defined,
        divides, productHolds.defined, rfl, isLen⟩, place, lenVal⟩

theorem showsControl_of_fits (scrolls : sb.Scrolls) (fits : sb.ControlFits) : sb.ShowsControl := by
  obtain ⟨travelNonneg, travelSmall⟩ := travel_mem scrolls fits.sized
  have positive := scrolls.range
  have isRange : sb.range = sb.max.val - sb.visible.val - sb.min.val := rfl
  refine ⟨?inside, ?inOrder, ?atMin⟩
  case inside =>
    intro value low high
    obtain ⟨x, len, found, xVal, lenVal⟩ := placed_of_fits scrolls fits low high
    have nonneg : 0 ≤ (value.val - sb.min.val) * sb.travel / sb.range :=
      Int.ediv_nonneg (Int.mul_nonneg (by omega) travelNonneg) positive.le
    have most : (value.val - sb.min.val) * sb.travel / sb.range ≤ sb.travel := by
      refine Int.ediv_le_of_le_mul positive ?_
      rw [Int.mul_comm sb.travel]
      exact Int.mul_le_mul_of_nonneg_right (by omega) travelNonneg
    exact ⟨x, len, found, by omega, by omega, by omega⟩
  case inOrder =>
    intro first second low before high
    obtain ⟨x, firstLen, foundFirst, xVal, -⟩ := placed_of_fits scrolls fits low (before.trans high)
    obtain ⟨y, secondLen, foundSecond, yVal, -⟩ :=
      placed_of_fits scrolls fits (low.trans before) high
    refine ⟨x, y, firstLen, secondLen, foundFirst, foundSecond, ?_⟩
    rw [xVal, yVal]
    exact Int.ediv_le_ediv positive (Int.mul_le_mul_of_nonneg_right (by omega) travelNonneg)
  case atMin =>
    obtain ⟨x, len, found, xVal, -⟩ := @placed_of_fits t sb sb.min scrolls fits le_rfl (by omega)
    refine ⟨x, len, found, ?_⟩
    rw [xVal, Int.sub_self, Int.zero_mul, Int.zero_ediv]

/-! ## Controls that do not fit -/

/-- The value after a number of steps from the minimum -/
def valueAt (sb : Scrollbar t) (scrolls : sb.Scrolls) (steps : Nat)
    (inside : (steps : Int) ≤ sb.range) : CInt t :=
  ⟨sb.min.val + steps, sb.min.holds.between sb.max.holds (by omega) (by
    have := scrolls.visible
    unfold Scrollbar.range at inside
    omega)⟩

theorem ShowsControl.placed {steps : Nat} (shows : sb.ShowsControl) (scrolls : sb.Scrolls)
    (inside : (steps : Int) ≤ sb.range) :
    ∃ x len, sb.Placed (sb.valueAt scrolls steps inside) x len ∧ 0 ≤ x.val ∧ 0 ≤ len.val ∧
        x.val + len.val ≤ sb.length.val := by
  have low : sb.min.val ≤ (sb.valueAt scrolls steps inside).val := by
    unfold valueAt
    dsimp only
    omega
  have high : (sb.valueAt scrolls steps inside).val ≤ sb.max.val - sb.visible.val := by
    have isRange : sb.range = sb.max.val - sb.visible.val - sb.min.val := rfl
    unfold valueAt
    dsimp only
    omega
  obtain ⟨x, len, found, parts⟩ := shows.inside _ low high
  exact ⟨x, len, (getPxCoords_iff scrolls low high).mp found, parts⟩

theorem fixed_of_thumb {len : CInt .int} (isLen : sb.thumb = some len)
    (fixed : sb.visible.val = 0) : sb.wBar.val = -1 ∨ len.val = sb.wBar.val := by
  by_cases whole : sb.wBar.val = -1
  · exact .inl whole
  · unfold thumb at isLen
    rw [zero_lt_visible, if_neg (by simp [fixed]), if_neg whole] at isLen
    rw [← Option.some_inj.mp isLen]
    exact .inr (@CInt.convert_convert_int t _ (by simp) sb.wBar)

theorem ShowsControl.sized (shows : sb.ShowsControl) (scrolls : sb.Scrolls) : sb.Sized := by
  obtain ⟨x, len, placed, left, size, right⟩ :=
    shows.placed scrolls (show ((0 : Nat) : Int) ≤ sb.range from scrolls.range.le)
  refine ⟨?_, fun shown => placed.extent.product shown scrolls.span.2, ?_⟩
  · by_cases shown : 0 < sb.visible.val
    · exact placed.extent.span shown
    · have same : sb.span = sb.range := by
        have := scrolls.span
        have := scrolls.visible
        omega
      rw [same]
      exact placed.range
  · intro fixed
    rcases fixed_of_thumb placed.size fixed with whole | isFixed
    · exact .inl whole
    · exact .inr (by omega)

theorem wide_of_range {number : Int} (holds : t.promoted.Holds number)
    (wide : CType.int.greatest < number) (divides : 1 ≤ CType.int.wrap number) :
    2 * CType.int.wrap number ≤ number ∧ ∀ product : Int, 0 ≤ product → product < 2 ^ 63 →
        t.promoted.Holds product := by
  obtain ⟨width, signed⟩ := t
  unfold CType.Holds at *
  unfold CType.wrap at *
  cases width <;> cases signed <;>
    simp only [CType.promoted, Width.narrow, CType.int, CType.least,
      CType.greatest, CType.size, Width.bits, Bool.false_eq_true, if_true,
      if_false] at holds wide divides ⊢ <;>
    norm_num at holds wide divides ⊢ <;>
    refine ⟨by omega, fun product nonneg small => by omega⟩

theorem int_wrap_twice {travel : Int} (holds : CType.int.Holds travel) (positive : 0 < travel) :
    CType.int.wrap (2 * travel) < 0 ∨ travel < CType.int.wrap (2 * travel) := by
  unfold CType.Holds at holds
  unfold CType.wrap
  simp only [CType.int, CType.least, CType.greatest, CType.size, Width.bits, if_true] at holds ⊢
  norm_num at holds ⊢
  omega

theorem ShowsControl.range_le (shows : sb.ShowsControl) (scrolls : sb.Scrolls)
    (moves : 0 < sb.travel) : sb.range ≤ CType.int.greatest := by
  by_contra wide
  have sized := shows.sized scrolls
  obtain ⟨travelNonneg, travelSmall⟩ := travel_mem scrolls sized
  have holds := range_holds scrolls (holds_of_defined sized.span scrolls.span.2.le)
  obtain ⟨_, _, first, -⟩ :=
    shows.placed scrolls (show ((0 : Nat) : Int) ≤ sb.range from scrolls.range.le)
  have divides := first.divides
  obtain ⟨inside, large⟩ := wide_of_range holds (Int.not_le.mp wide) divides
  have steps : ((2 * CType.int.wrap sb.range).toNat : Int) = 2 * CType.int.wrap sb.range :=
    Int.toNat_of_nonneg (by omega)
  obtain ⟨x, len, placed, left, -, right⟩ := shows.placed scrolls (steps.trans_le inside)
  obtain ⟨size, isSize, sizeVal⟩ := thumb_of_sized scrolls sized
  obtain rfl : size = len := Option.some_inj.mp (isSize.symm.trans placed.size)
  have offset : (sb.valueAt scrolls _ (steps.trans_le inside)).val - sb.min.val =
        2 * CType.int.wrap sb.range := by
    unfold valueAt
    dsimp only
    omega
  have place := placed.place
  have travelInt : CType.int.Holds sb.travel := sb.length.holds.of_le travelNonneg travelSmall
  have product : 2 * CType.int.wrap sb.range * sb.travel =
        2 * sb.travel * CType.int.wrap sb.range := by
    ring
  have small : 2 * sb.travel * CType.int.wrap sb.range < 2 ^ 63 := by
    have most := (CType.int.holds_wrap sb.range).2
    have reach := travelInt.2
    have intGreatest : CType.int.greatest = 2 ^ 31 - 1 := rfl
    calc
      2 * sb.travel * CType.int.wrap sb.range ≤ 2 * (2 ^ 31 - 1) * (2 ^ 31 - 1) :=
        Int.mul_le_mul (by omega) (by omega) (by omega) (by norm_num)
      _ < 2 ^ 63 := by norm_num
  rw [offset, product, CType.wrap_of_holds (large _ (Int.mul_nonneg (by omega) (by omega)) small),
    Int.mul_tdiv_cancel _ (by omega)] at place
  rcases int_wrap_twice travelInt moves with negative | beyond
  · omega
  · omega

theorem Placed.scaled {steps : Nat} {inside : (steps : Int) ≤ sb.range} {x len : CInt .int}
    {scrolls : sb.Scrolls} (placed : sb.Placed (sb.valueAt scrolls steps inside) x len)
    (sized : sb.Sized) (unsigned : t.promoted.signed = false)
    (intRange : sb.range ≤ CType.int.greatest) :
    x.val = (scaled t.promoted.size.toNat sb.range.toNat sb.travel.toNat steps : Nat) := by
  obtain ⟨travelNonneg, travelSmall⟩ := travel_mem scrolls sized
  have positive := scrolls.range
  have sizePositive : 0 ≤ t.promoted.size := by
    unfold CType.size
    positivity
  have offset : (sb.valueAt scrolls steps inside).val - sb.min.val = steps := by
    unfold valueAt
    dsimp only
    omega
  have nonneg : 0 ≤ (steps : Int) * sb.travel := Int.mul_nonneg (by omega) travelNonneg
  obtain ⟨low, high⟩ := CType.wrap_mem_of_unsigned unsigned nonneg
  have most : t.promoted.wrap (steps * sb.travel) ≤ sb.travel * sb.range := by
    refine high.trans ?_
    rw [Int.mul_comm sb.travel]
    exact Int.mul_le_mul_of_nonneg_right inside travelNonneg
  rw [placed.place, offset,
    CType.wrap_of_holds ⟨CType.int.least_nonpos.trans positive.le, intRange⟩,
    Int.tdiv_eq_ediv_of_nonneg low,
    CType.wrap_of_holds (sb.length.holds.of_le (Int.ediv_nonneg low positive.le)
      ((Int.ediv_le_of_le_mul positive most).trans travelSmall)),
    CType.wrap_of_unsigned unsigned, Agar.Lib.scaled, Int.natCast_ediv,
    Int.natCast_emod, Nat.cast_mul, Int.toNat_of_nonneg travelNonneg,
    Int.toNat_of_nonneg sizePositive, Int.toNat_of_nonneg positive.le]

theorem ShowsControl.scalesInOrder (shows : sb.ShowsControl) (scrolls : sb.Scrolls)
    (unsigned : t.promoted.signed = false) (intRange : sb.range ≤ CType.int.greatest) :
    ScalesInOrder t.promoted.size.toNat sb.range.toNat sb.travel.toNat
      sb.range.toNat := by
  have sized := shows.sized scrolls
  have positive := scrolls.range
  have isRange : sb.range = sb.max.val - sb.visible.val - sb.min.val := rfl
  intro place next before within
  have insideNext : (next : Int) ≤ sb.range := by omega
  have insidePlace : (place : Int) ≤ sb.range := by omega
  have valueOf : ∀ (steps : Nat) (inside : (steps : Int) ≤ sb.range),
      (sb.valueAt scrolls steps inside).val = sb.min.val + steps :=
    fun _ _ => rfl
  obtain ⟨x, y, firstLen, secondLen, foundX, foundY, ordered⟩ :=
    shows.inOrder (sb.valueAt scrolls place insidePlace)
      (sb.valueAt scrolls next insideNext) (by rw [valueOf]; omega)
      (by rw [valueOf, valueOf]; omega) (by rw [valueOf]; omega)
  have placedX :=
    (getPxCoords_iff scrolls (by rw [valueOf]; omega) (by rw [valueOf]; omega)).mp foundX
  have placedY :=
    (getPxCoords_iff scrolls (by rw [valueOf]; omega) (by rw [valueOf]; omega)).mp foundY
  rw [placedX.scaled sized unsigned intRange, placedY.scaled sized unsigned intRange] at ordered
  exact Int.ofNat_le.mp ordered

theorem ShowsControl.product_holds (shows : sb.ShowsControl) (scrolls : sb.Scrolls)
    (moves : 0 < sb.travel) : t.promoted.Holds (sb.range * sb.travel) := by
  have sized := shows.sized scrolls
  have intRange := shows.range_le scrolls moves
  have positive := scrolls.range
  obtain ⟨travelNonneg, travelSmall⟩ := travel_mem scrolls sized
  have steps : (sb.range.toNat : Int) = sb.range := Int.toNat_of_nonneg scrolls.range.le
  cases signed : t.promoted.signed with
  | true =>
    obtain ⟨x, len, placed, -⟩ := shows.placed scrolls steps.le
    have defined := placed.product signed
    have offset : (sb.valueAt scrolls _ steps.le).val - sb.min.val = sb.range := by
      unfold valueAt
      dsimp only
      omega
    rwa [offset] at defined
  | false =>
    have inOrder := shows.scalesInOrder scrolls signed intRange
    have reach := sb.length.holds.2
    have room := CType.twice_int_lt_size signed
    by_contra outside
    have wraps : t.promoted.size.toNat ≤ sb.range.toNat * sb.travel.toNat := by
      have nonneg : 0 ≤ sb.range * sb.travel := Int.mul_nonneg positive.le travelNonneg
      unfold CType.Holds at outside
      rw [CType.least_of_unsigned signed, CType.greatest_of_unsigned signed] at outside
      zify
      rw [Int.toNat_of_nonneg (by omega), steps, Int.toNat_of_nonneg travelNonneg]
      omega
    have large := size_lt_of_inOrder inOrder (by omega) (by omega) wraps
    omega

theorem showsControl_iff_fits (scrolls : sb.Scrolls) : sb.ShowsControl ↔ sb.ControlFits := by
  refine ⟨fun shows => ?_, showsControl_of_fits scrolls⟩
  have sized := shows.sized scrolls
  refine ⟨holds_of_defined sized.span scrolls.span.2.le, sized.product, sized.fixed, ?_⟩
  rcases (travel_mem scrolls sized).1.eq_or_lt with still | moves
  · obtain ⟨_, _, placed, -⟩ :=
      shows.placed scrolls (show ((0 : Nat) : Int) ≤ sb.range from scrolls.range.le)
    exact .inl ⟨still.symm, placed.divides⟩
  · exact .inr ⟨shows.range_le scrolls moves, shows.product_holds scrolls moves⟩

end

end Scrollbar

/--
The control of a scrollbar is shown inside of the bar, in the order of the
values and from the minimum on, exactly if it fits.
-/
theorem showsControl_iff (bound : IntVariable) (sb : Scrollbar bound.type) (scrolls : sb.Scrolls) :
    sb.ShowsControl ↔ sb.ControlFits :=
  Scrollbar.showsControl_iff_fits scrolls

theorem holds_one_pixel : CType.int.Holds 1 := by decide

theorem holds_unset_width : CType.int.Holds (-1) := by decide

def documentBar (pixels : Int)
    (holds : CType.int.Holds pixels) : Scrollbar IntVariable.int.type where
  min := ⟨0, by decide⟩
  max := ⟨pixels, holds⟩
  visible := ⟨500, by decide⟩
  inc := ⟨1, holds_one_pixel⟩
  length := ⟨500, by decide⟩
  wBar := ⟨-1, holds_unset_width⟩

theorem showsControl_iff_thousand : (documentBar 1000 (by decide)).ShowsControl :=
  (showsControl_iff .int (documentBar 1000 (by decide)) ⟨by decide, by decide, by decide⟩).mpr
    ⟨by decide, fun _ _ => by decide, fun _ => by decide, by decide⟩

theorem large_document_overflows : (documentBar 10000000 (by decide)).Scrolls ∧
      ¬ (documentBar 10000000 (by decide)).ShowsControl := by
  refine ⟨⟨by decide, by decide, by decide⟩, fun shows => ?_⟩
  obtain ⟨x, len, found, -⟩ := shows.inside ⟨9999500, by decide⟩ (by decide) (by decide)
  have undefined : (documentBar 10000000 (by decide)).getPxCoords ⟨9999500, by decide⟩ = none := by
    decide
  rw [undefined] at found
  cases found

end Agar.Gui
