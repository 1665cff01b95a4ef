import Agar.Gui.Stepping
import Agar.Lib.WrappedScale

namespace Agar.Gui

open Agar.Lib

/-!
# Pixels of a slider

A slider scales its value to the extent in which its control moves, and the
position of the control to a value.  Both scale with a product and a quotient
of the type that C promotes the variable's to.
-/

/-! ## The two conversions -/

/-- The limits of a slider's value, and the extent of its control in pixels -/
structure SliderScale (t : CType) where
  min : CInt t
  max : CInt t
  extent : CInt .int
  min_lt_max : min.val < max.val
  positive : 1 ≤ extent.val

namespace SliderScale

section

variable {t : CType}

/-- `GetPosition`: the position, none where the function returns -1 -/
def getPosition (scale : SliderScale t) (value : CInt t) : Option (Option (CInt .int)) :=
  if scale.min.lt scale.max = false then return none
  else do
    let offset ← value.sub scale.min
    let product ← offset.mul scale.extent
    let span ← scale.max.sub scale.min
    let quotient ← product.div span
    return some (quotient.convert .int)

/-- `SeekToPosition`: the value that is stored -/
def seekToPosition (scale : SliderScale t) (x : CInt .int) : Option (CInt t) :=
  if x.val ≤ 0 then return scale.min
  else if scale.extent.val ≤ x.val then return scale.max
  else do
    let span ← scale.max.sub scale.min
    let product ← x.mul span
    let quotient ← product.div scale.extent
    let sum ← scale.min.add quotient
    return sum.convert t

/-- The pixels of a slider are mapped to its values and back. -/
structure MapsPixels (scale : SliderScale t) : Prop where
  seekInOrder : ∀ x y : CInt .int, x.val ≤ y.val → ∃ first second,
      scale.seekToPosition x = some first ∧ scale.seekToPosition y = some second ∧
        first.val ≤ second.val
  seekLow : ∀ x : CInt .int, x.val ≤ 0 → scale.seekToPosition x = some scale.min
  seekHigh : ∀ x : CInt .int, scale.extent.val ≤ x.val → scale.seekToPosition x = some scale.max
  seekInside : ∀ x, ∃ value, scale.seekToPosition x = some value ∧ scale.min.val ≤ value.val ∧
        value.val ≤ scale.max.val
  positionInside : ∀ value : CInt t, scale.min.val ≤ value.val → value.val ≤ scale.max.val → ∃ x,
        scale.getPosition value = some (some x) ∧ 0 ≤ x.val ∧ x.val ≤ scale.extent.val
  positionInOrder : ∀ first second : CInt t, scale.min.val ≤ first.val → first.val ≤ second.val →
      second.val ≤ scale.max.val → ∃ x y, scale.getPosition first = some (some x) ∧
            scale.getPosition second = some (some y) ∧
            x.val ≤ y.val
  seekBack : ∀ x : CInt .int, 0 ≤ x.val → x.val ≤ scale.extent.val → ∃ value back,
      scale.seekToPosition x = some value ∧ scale.getPosition value = some (some back) ∧
        back.val ≤ x.val ∧
        (scale.extent.val ∣ scale.max.val - scale.min.val → back.val = x.val)

/-- The size of the range -/
def span (scale : SliderScale t) : Int := scale.max.val - scale.min.val

/--
The promoted type holds the product of the range and the extent, or it is
unsigned, the range is all of it and the extent divides its size.
-/
def Fits (scale : SliderScale t) : Prop :=
  t.promoted.Holds (scale.span * scale.extent.val) ∨ t.promoted.signed = false ∧
      scale.span + 1 = t.promoted.size ∧
      scale.extent.val ∣ t.promoted.size

end

/-! ## Products -/

section

variable {t : CType} {scale : SliderScale t}

/--
Products up to that of the range and the extent are formed, and wrap at
`modulus`, if at all.
-/
structure Multiplies (scale : SliderScale t) (modulus : Nat) : Prop where
  span : t.promoted.Holds scale.span
  product : ∀ u, u = t.promoted → ∀ n : Nat, (n : Int) ≤ scale.span * scale.extent.val →
      ∃ product : CInt u, u.compute n = some product ∧ product.val = (n % modulus : Nat)

theorem extent_holds (scale : SliderScale t) : t.promoted.Holds scale.extent.val :=
  CType.holds_promoted_of_int scale.extent.holds (zero_le_one.trans scale.positive)

theorem sub_min {value : CInt t} (holds : t.promoted.Holds scale.span)
    (low : scale.min.val ≤ value.val) (high : value.val ≤ scale.max.val) :
    ∃ offset, value.sub scale.min = some offset ∧ offset.val = value.val - scale.min.val :=
  CInt.sub_of_holds (holds.of_le (by omega) (by unfold span; omega))

theorem Multiplies.getPosition {modulus : Nat} (multiplies : scale.Multiplies modulus)
    {value : CInt t} (low : scale.min.val ≤ value.val) (high : value.val ≤ scale.max.val) :
    ∃ x, scale.getPosition value = some (some x) ∧
        x.val = (scaled modulus scale.span.toNat scale.extent.val.toNat
          (value.val - scale.min.val).toNat : Nat) := by
  have ordered := scale.min_lt_max
  have extentPositive := scale.positive
  obtain ⟨offset, isOffset, offsetVal⟩ := sub_min multiplies.span low high
  obtain ⟨span, isSpan, spanVal⟩ := sub_min multiplies.span scale.min_lt_max.le le_rfl
  have offsetHolds : t.promoted.Holds offset.val := by simpa using offset.holds
  have spanHolds : t.promoted.Holds span.val := by simpa using span.holds
  have less : scale.min.lt scale.max = true := by
    rw [CInt.lt_eq scale.min.holds_common_self scale.max.holds_common_self]
    exact decide_eq_true scale.min_lt_max
  have formed : offset.mul scale.extent = ((t.common t).common .int).compute
          ((offset.val.toNat * scale.extent.val.toNat : Nat)) := by
    rw [CInt.mul_eq (by simpa using offsetHolds) (by simpa using extent_holds scale), Nat.cast_mul,
      Int.toNat_of_nonneg (by omega), Int.toNat_of_nonneg (by omega)]
  have small : ((offset.val.toNat * scale.extent.val.toNat : Nat) : Int) ≤
        scale.span * scale.extent.val := by
    rw [Nat.cast_mul, Int.toNat_of_nonneg (by omega), Int.toNat_of_nonneg (by omega)]
    exact Int.mul_le_mul_of_nonneg_right (by unfold SliderScale.span; omega) (by omega)
  obtain ⟨product, isProduct, productVal⟩ :=
    multiplies.product ((t.common t).common .int) (by simp) _ small
  have productHolds : t.promoted.Holds product.val := by simpa using product.holds
  obtain ⟨quotient, isQuotient, quotientVal⟩ :=
    @CInt.div_of_nonneg _ _ product span (by simpa using productHolds)
      (by simpa using spanHolds) (by omega) (by omega)
  have isScaled : quotient.val = (scaled modulus scale.span.toNat scale.extent.val.toNat
          (value.val - scale.min.val).toNat : Nat) := by
    rw [quotientVal, productVal, spanVal, offsetVal, scaled,
      Int.natCast_ediv, SliderScale.span, Int.toNat_of_nonneg (by omega)]
  have inside : quotient.val ≤ scale.extent.val := by
    rw [isScaled]
    have most := @scaled_le_extent modulus scale.span.toNat
      scale.extent.val.toNat (value.val - scale.min.val).toNat
      (Int.toNat_le_toNat (by unfold SliderScale.span; omega))
    omega
  refine ⟨quotient.convert .int, ?_, ?_⟩
  · unfold SliderScale.getPosition
    rw [if_neg (by simp [less])]
    simp only [Option.bind_eq_bind, Option.bind_some, isOffset, formed,
      isProduct, isSpan, isQuotient]
    rfl
  · rw [CInt.convert_val (scale.extent.holds.of_le (by omega) inside), isScaled]

theorem Multiplies.seekToPosition {modulus : Nat} (multiplies : scale.Multiplies modulus)
    {x : CInt .int} (left : 0 < x.val) (right : x.val < scale.extent.val) :
    ∃ value, scale.seekToPosition x = some value ∧ value.val = scale.min.val +
            (scaled modulus scale.extent.val.toNat scale.span.toNat
              x.val.toNat : Nat) := by
  have ordered := scale.min_lt_max
  obtain ⟨span, isSpan, spanVal⟩ := sub_min multiplies.span scale.min_lt_max.le le_rfl
  have spanHolds : t.promoted.Holds span.val := by simpa using span.holds
  have formed : x.mul span = (CType.int.common (t.common t)).compute
          ((x.val.toNat * scale.span.toNat : Nat)) := by
    rw [CInt.mul_eq (by simpa using CType.holds_promoted_of_int x.holds left.le)
      (by simpa using spanHolds), Nat.cast_mul,
      Int.toNat_of_nonneg left.le,
      Int.toNat_of_nonneg (by unfold SliderScale.span; omega), spanVal,
      SliderScale.span]
  have small : ((x.val.toNat * scale.span.toNat : Nat) : Int) ≤ scale.span * scale.extent.val := by
    rw [Nat.cast_mul, Int.toNat_of_nonneg left.le,
      Int.toNat_of_nonneg (by unfold SliderScale.span; omega), Int.mul_comm]
    exact Int.mul_le_mul_of_nonneg_left right.le (by unfold SliderScale.span; omega)
  obtain ⟨product, isProduct, productVal⟩ :=
    multiplies.product (CType.int.common (t.common t)) (by simp) _ small
  have productHolds : t.promoted.Holds product.val := by simpa using product.holds
  obtain ⟨quotient, isQuotient, quotientVal⟩ :=
    @CInt.div_of_nonneg _ _ product scale.extent (by simpa using productHolds)
      (by simpa using extent_holds scale) (by omega) (by omega)
  have isScaled : quotient.val = (scaled modulus scale.extent.val.toNat scale.span.toNat
          x.val.toNat : Nat) := by
    rw [quotientVal, productVal, scaled, Int.natCast_ediv, Int.toNat_of_nonneg (by omega)]
  have inside : quotient.val ≤ scale.span := by
    rw [isScaled]
    have most := @scaled_le_extent modulus scale.extent.val.toNat
      scale.span.toNat x.val.toNat (Int.toNat_le_toNat right.le)
    have nonneg : 0 ≤ scale.span := by
      unfold SliderScale.span
      omega
    omega
  have between : t.Holds (scale.min.val + quotient.val) :=
    scale.min.holds.between scale.max.holds (by omega) (by unfold SliderScale.span at inside; omega)
  obtain ⟨sum, isSum, sumVal⟩ : ∃ sum, scale.min.add quotient = some sum ∧
        sum.val = scale.min.val + quotient.val := by
    rw [CInt.add_eq (by simpa using CType.holds_promoted scale.min.holds)
      (by simpa using quotient.holds),
      CType.compute_of_holds (by simpa using CType.holds_promoted between)]
    exact ⟨_, rfl, rfl⟩
  refine ⟨sum.convert t, ?_, ?_⟩
  · unfold SliderScale.seekToPosition
    rw [if_neg (Int.not_le.mpr left), if_neg (Int.not_le.mpr right)]
    simp only [Option.bind_eq_bind, Option.bind_some, formed, isProduct, isSpan, isQuotient, isSum]
    rfl
  · rw [CInt.convert_val (by rwa [sumVal]), sumVal, isScaled]

/-! ## Places in the range -/

/-- The place in the range that a pixel stands for -/
def seekPlace (scale : SliderScale t) (modulus : Nat) (x : Int) : Nat :=
  if x ≤ 0 then 0
  else if scale.extent.val ≤ x then scale.span.toNat
  else scaled modulus scale.extent.val.toNat scale.span.toNat x.toNat

theorem seekPlace_le (scale : SliderScale t) (modulus : Nat) (x : Int) :
    scale.seekPlace modulus x ≤ scale.span.toNat := by
  unfold seekPlace
  split_ifs with left right
  · exact Nat.zero_le _
  · exact le_rfl
  · exact scaled_le_extent (Int.toNat_le_toNat (Int.not_le.mp right).le)

theorem seekPlace_mono {modulus : Nat}
    (inOrder : ScalesInOrder modulus scale.extent.val.toNat scale.span.toNat
        (scale.extent.val.toNat - 1)) {x y : Int} (ordered : x ≤ y) :
    scale.seekPlace modulus x ≤ scale.seekPlace modulus y := by
  by_cases left : x ≤ 0
  · rw [seekPlace, if_pos left]
    exact Nat.zero_le _
  · by_cases right : scale.extent.val ≤ y
    · have last : scale.seekPlace modulus y = scale.span.toNat := by
        rw [seekPlace, if_neg (by omega), if_pos right]
      rw [last]
      exact seekPlace_le scale modulus x
    · rw [seekPlace, if_neg left, if_neg (by omega), seekPlace, if_neg (by omega), if_neg right]
      exact inOrder _ _ (Int.toNat_le_toNat ordered) (by omega)

theorem Multiplies.seekToPosition_eq {modulus : Nat} (multiplies : scale.Multiplies modulus)
    (x : CInt .int) :
    ∃ value, scale.seekToPosition x = some value ∧
        value.val = scale.min.val + scale.seekPlace modulus x.val := by
  have ordered := scale.min_lt_max
  by_cases left : x.val ≤ 0
  · refine ⟨scale.min, if_pos left, ?_⟩
    rw [seekPlace, if_pos left, Int.natCast_zero, Int.add_zero]
  · by_cases right : scale.extent.val ≤ x.val
    · refine ⟨scale.max, (if_neg left).trans (if_pos right), ?_⟩
      rw [seekPlace, if_neg left, if_pos right, SliderScale.span, Int.toNat_of_nonneg (by omega)]
      omega
    · rw [seekPlace, if_neg left, if_neg right]
      exact multiplies.seekToPosition (Int.not_le.mp left) (Int.not_le.mp right)

theorem place_of_val {value : CInt t} {place : Nat} (isPlace : value.val = scale.min.val + place) :
    (value.val - scale.min.val).toNat = place := by
  omega

/-! ## Where the products are formed -/

theorem Multiplies.inOrder_of_mapsPixels {modulus : Nat} (multiplies : scale.Multiplies modulus)
    (maps : scale.MapsPixels) :
    ScalesInOrder modulus scale.span.toNat scale.extent.val.toNat scale.span.toNat ∧
      ScalesInOrder modulus scale.extent.val.toNat scale.span.toNat
        (scale.extent.val.toNat - 1) := by
  have isSpan : scale.span = scale.max.val - scale.min.val := rfl
  have ordered := scale.min_lt_max
  refine ⟨fun place next before inside => ?_, fun place next before inside => ?_⟩
  · let valueOf : (n : Nat) → n ≤ scale.span.toNat → CInt t := fun n small =>
      ⟨scale.min.val + n, scale.min.holds.between scale.max.holds (by omega) (by omega)⟩
    obtain ⟨x, y, isX, isY, follows⟩ :=
      maps.positionInOrder (valueOf place (before.trans inside))
        (valueOf next inside) (by simp only [valueOf]; omega)
        (by simp only [valueOf]; omega) (by simp only [valueOf]; omega)
    obtain ⟨x', isX', xVal⟩ :=
      @Multiplies.getPosition _ _ _ multiplies (valueOf place (before.trans inside))
        (by simp only [valueOf]; omega) (by simp only [valueOf]; omega)
    obtain ⟨y', isY', yVal⟩ :=
      @Multiplies.getPosition _ _ _ multiplies (valueOf next inside)
        (by simp only [valueOf]; omega) (by simp only [valueOf]; omega)
    obtain rfl : x = x' := by simpa [isX] using isX'
    obtain rfl : y = y' := by simpa [isY] using isY'
    rw [place_of_val rfl] at xVal yVal
    omega
  · rcases Nat.eq_zero_or_pos place with rfl | some
    · rw [scaled, Nat.zero_mul, Nat.zero_mod, Nat.zero_div]
      exact Nat.zero_le _
    · let pixelOf : (n : Nat) → n ≤ scale.extent.val.toNat - 1 → CInt .int :=
        fun n small => ⟨n, scale.extent.holds.of_le (by omega) (by omega)⟩
      obtain ⟨first, second, isFirst, isSecond, follows⟩ :=
        maps.seekInOrder (pixelOf place (before.trans inside))
          (pixelOf next inside) (by simp only [pixelOf]; omega)
      obtain ⟨first', isFirst', firstVal⟩ :=
        @Multiplies.seekToPosition _ _ _ multiplies (pixelOf place (before.trans inside))
          (by simp only [pixelOf]; omega) (by simp only [pixelOf]; omega)
      obtain ⟨second', isSecond', secondVal⟩ :=
        @Multiplies.seekToPosition _ _ _ multiplies (pixelOf next inside)
          (by simp only [pixelOf]; omega) (by simp only [pixelOf]; omega)
      obtain rfl : first = first' := by simpa [isFirst] using isFirst'
      obtain rfl : second = second' := by simpa [isSecond] using isSecond'
      simp only [pixelOf, Int.toNat_natCast] at firstVal secondVal
      omega

theorem Multiplies.mapsPixels {modulus : Nat} (multiplies : scale.Multiplies modulus)
    (positions : ScalesInOrder modulus scale.span.toNat scale.extent.val.toNat scale.span.toNat)
    (values : ScalesInOrder modulus scale.extent.val.toNat scale.span.toNat
        (scale.extent.val.toNat - 1)) (lossless : scale.extent.val.toNat ∣ scale.span.toNat →
      scale.span.toNat * scale.extent.val.toNat < modulus) : scale.MapsPixels := by
  have isSpan : scale.span = scale.max.val - scale.min.val := rfl
  have ordered := scale.min_lt_max
  have extentPositive := scale.positive
  have seek := multiplies.seekToPosition_eq
  have inside := fun x => scale.seekPlace_le modulus x
  refine ⟨?seekInOrder, fun x left => if_pos left, fun x right =>
    (if_neg (by omega)).trans (if_pos right), ?seekInside, ?positionInside,
    ?positionInOrder, ?seekBack⟩
  case seekInOrder =>
    intro x y before
    obtain ⟨first, isFirst, firstVal⟩ := seek x
    obtain ⟨second, isSecond, secondVal⟩ := seek y
    have follows := seekPlace_mono values before
    exact ⟨first, second, isFirst, isSecond, by omega⟩
  case seekInside =>
    intro x
    obtain ⟨value, isValue, valueVal⟩ := seek x
    have small := inside x.val
    exact ⟨value, isValue, by omega, by omega⟩
  case positionInside =>
    intro value low high
    obtain ⟨x, isX, xVal⟩ := multiplies.getPosition low high
    have small := @scaled_le_extent modulus scale.span.toNat
      scale.extent.val.toNat (value.val - scale.min.val).toNat (by omega)
    exact ⟨x, isX, by omega, by omega⟩
  case positionInOrder =>
    intro first second low before high
    obtain ⟨x, isX, xVal⟩ := multiplies.getPosition low (before.trans high)
    obtain ⟨y, isY, yVal⟩ := multiplies.getPosition (low.trans before) high
    have follows := positions (first.val - scale.min.val).toNat
      (second.val - scale.min.val).toNat (by omega) (by omega)
    exact ⟨x, y, isX, isY, by omega⟩
  case seekBack =>
    intro x left right
    obtain ⟨value, isValue, valueVal⟩ := seek x
    have small := inside x.val
    obtain ⟨back, isBack, backVal⟩ :=
      @Multiplies.getPosition _ _ _ multiplies value (by omega) (by omega)
    rw [place_of_val valueVal] at backVal
    obtain ⟨notFarther, same⟩ : scaled modulus scale.span.toNat scale.extent.val.toNat
            (scale.seekPlace modulus x.val) ≤ x.val.toNat ∧
          (scale.extent.val.toNat ∣ scale.span.toNat →
            scaled modulus scale.span.toNat scale.extent.val.toNat
              (scale.seekPlace modulus x.val) = x.val.toNat) := by
      unfold seekPlace
      split_ifs with first last
      · rw [scaled, Nat.zero_mul, Nat.zero_mod, Nat.zero_div]
        exact ⟨Nat.zero_le _, fun _ => by omega⟩
      · rw [le_antisymm right last]
        refine ⟨scaled_le_extent le_rfl, fun divides => ?_⟩
        rw [scaled_of_lt (lossless divides), Nat.mul_div_cancel_left _ (by omega)]
      · exact ⟨scaled_scaled_le, fun divides =>
          scaled_scaled_of_dvd (by omega) (lossless divides) divides (by omega)⟩
    refine ⟨value, back, isValue, isBack, by omega, fun divides => ?_⟩
    rw [backVal, same (by
      rw [← Int.natCast_dvd_natCast, Int.toNat_of_nonneg (by omega), Int.toNat_of_nonneg (by omega)]
      exact divides)]
    omega

/-! ## Where the products fit -/

theorem multiplies_of_holds (holds : t.promoted.Holds (scale.span * scale.extent.val)) :
    scale.Multiplies (scale.span.toNat * scale.extent.val.toNat + 1) := by
  have isSpan : scale.span = scale.max.val - scale.min.val := rfl
  have ordered := scale.min_lt_max
  have extentPositive := scale.positive
  refine ⟨holds.of_le (by omega) ?_, ?_⟩
  · exact le_mul_of_one_le_right (by omega) extentPositive
  · rintro u rfl n small
    have fits : n < scale.span.toNat * scale.extent.val.toNat + 1 := by
      zify
      rw [Int.toNat_of_nonneg (by omega), Int.toNat_of_nonneg (by omega)]
      omega
    refine ⟨_, CType.compute_of_holds (holds.of_le (by omega) small), ?_⟩
    rw [Nat.mod_eq_of_lt fits]

theorem multiplies_of_unsigned (unsigned : t.promoted.signed = false) :
    scale.Multiplies t.promoted.size.toNat := by
  have isSpan : scale.span = scale.max.val - scale.min.val := rfl
  have ordered := scale.min_lt_max
  have low := scale.min.holds.1
  rw [CType.least_of_unsigned (CType.promoted_of_unsigned unsigned).2] at low
  refine ⟨?_, ?_⟩
  · exact (CType.holds_promoted scale.max.holds).of_le (by omega) (by omega)
  · rintro u rfl n -
    refine ⟨_, CType.compute_of_unsigned unsigned n, ?_⟩
    have sizePositive : 0 ≤ t.promoted.size := by
      unfold CType.size
      positivity
    change t.promoted.wrap n = _
    rw [CType.wrap_of_unsigned unsigned, Int.natCast_emod, Int.toNat_of_nonneg sizePositive]

theorem getPosition_max_of_signed (signed : t.promoted.signed = true)
    (outside : ¬ t.promoted.Holds (scale.span * scale.extent.val)) :
    scale.getPosition scale.max = none := by
  have isSpan : scale.span = scale.max.val - scale.min.val := rfl
  have less : scale.min.lt scale.max = true := by
    rw [CInt.lt_eq scale.min.holds_common_self scale.max.holds_common_self]
    exact decide_eq_true scale.min_lt_max
  unfold getPosition
  rw [if_neg (by simp [less])]
  cases formed : scale.max.sub scale.min with
  | none => rfl
  | some offset =>
    have offsetVal : offset.val = scale.span := by
      by_cases holds : t.promoted.Holds scale.span
      · obtain ⟨difference, isDifference, value⟩ :=
          sub_min holds scale.min_lt_max.le le_rfl
        rw [formed, Option.some_inj] at isDifference
        rw [isDifference, value, isSpan]
      · rw [CInt.sub_eq scale.max.holds_common_self
          scale.min.holds_common_self, CType.compute_of_signed (by rwa [CType.common_self])
            (by rwa [CType.common_self])] at formed
        cases formed
    have offsetHolds : t.promoted.Holds offset.val := by simpa using offset.holds
    have undefined : offset.mul scale.extent = none := by
      rw [CInt.mul_eq (by simpa using offsetHolds) (by simpa using extent_holds scale), offsetVal]
      exact CType.compute_of_signed (by simpa using signed) (by simpa using outside)
    rw [Option.bind_eq_bind, Option.bind_some, undefined]
    rfl

theorem mapsPixels_iff_of_signed (signed : t.promoted.signed = true) : scale.MapsPixels ↔
      t.promoted.Holds (scale.span * scale.extent.val) := by
  constructor
  · intro maps
    by_contra outside
    obtain ⟨x, isX, -, -⟩ := maps.positionInside scale.max scale.min_lt_max.le le_rfl
    rw [getPosition_max_of_signed signed outside] at isX
    cases isX
  · intro holds
    have extentPositive := scale.positive
    refine (multiplies_of_holds holds).mapsPixels (scalesInOrder_of_lt (Nat.lt_succ_self _))
      (scalesInOrder_of_lt ?_) fun _ => Nat.lt_succ_self _
    rw [Nat.mul_comm]
    exact Nat.lt_succ_of_le (Nat.mul_le_mul_left _ (Nat.sub_le _ _))

theorem two_extents_le_size (unsigned : t.promoted.signed = false) :
    2 * scale.extent.val ≤ t.promoted.size := by
  have high := scale.extent.holds.2
  have room := CType.twice_int_lt_size unsigned
  omega

theorem mapsPixels_iff_of_unsigned (unsigned : t.promoted.signed = false) :
    scale.MapsPixels ↔ scale.Fits := by
  have isSpan : scale.span = scale.max.val - scale.min.val := rfl
  have ordered := scale.min_lt_max
  have extentPositive := scale.positive
  have low := scale.min.holds.1
  have high := (CType.holds_promoted scale.max.holds).2
  have room := @two_extents_le_size _ scale unsigned
  rw [CType.least_of_unsigned (CType.promoted_of_unsigned unsigned).2] at low
  rw [CType.greatest_of_unsigned unsigned] at high
  have inOrder :=
    @scale_in_order_iff t.promoted.size.toNat scale.span.toNat
      scale.extent.val.toNat (by omega) (by omega) (by omega)
  have fits : scale.Fits ↔ scale.span.toNat * scale.extent.val.toNat < t.promoted.size.toNat ∨
          scale.span.toNat + 1 = t.promoted.size.toNat ∧
            scale.extent.val.toNat ∣ t.promoted.size.toNat := by
    rw [Fits, and_iff_right unsigned]
    refine or_congr ?_ (and_congr (by omega) ?_)
    · rw [CType.Holds, CType.least_of_unsigned unsigned,
        CType.greatest_of_unsigned unsigned, Int.le_sub_one_iff]
      zify
      rw [Int.toNat_of_nonneg (by omega), Int.toNat_of_nonneg (by omega),
        Int.toNat_of_nonneg (by omega)]
      exact and_iff_right (Int.mul_nonneg (by omega) (by omega))
    · rw [← Int.natCast_dvd_natCast, Int.toNat_of_nonneg (by omega), Int.toNat_of_nonneg (by omega)]
  rw [fits, ← inOrder]
  refine ⟨(multiplies_of_unsigned unsigned).inOrder_of_mapsPixels, ?_⟩
  rintro ⟨positions, values⟩
  refine (multiplies_of_unsigned unsigned).mapsPixels positions values ?_
  intro divides
  rcases inOrder.mp ⟨positions, values⟩ with small | ⟨lacksOne, divisor⟩
  · exact small
  · -- an extent that divides a number and the next one is one
    have one : scale.extent.val.toNat = 1 := by
      rw [← lacksOne] at divisor
      exact Nat.dvd_one.mp ((Nat.dvd_add_right divides).mp divisor)
    rw [one, Nat.mul_one]
    omega

theorem mapsPixels_iff_fits : scale.MapsPixels ↔ scale.Fits := by
  cases sign : t.promoted.signed with
  | true =>
    rw [mapsPixels_iff_of_signed sign, Fits, sign]
    simp
  | false => exact mapsPixels_iff_of_unsigned sign

end

end SliderScale

/--
The pixels of a slider are mapped to its values and back exactly if the range
times the extent fits.
-/
theorem mapsPixels_iff (bound : IntVariable) (scale : SliderScale bound.type) :
    scale.MapsPixels ↔ scale.Fits :=
  SliderScale.mapsPixels_iff_fits

theorem holds_least_value : CType.int.Holds 0 := by decide

theorem holds_short_extent : CType.int.Holds 100 := by decide

def wideScale : SliderScale IntVariable.int.type where
  min := ⟨0, holds_least_value⟩
  max := ⟨1000000000, by decide⟩
  extent := ⟨100, holds_short_extent⟩
  min_lt_max := by decide
  positive := by decide

theorem wide_range_overflows : ¬ wideScale.MapsPixels := by
  intro maps
  obtain ⟨x, isX, -, -⟩ := maps.positionInside wideScale.max (by decide) le_rfl
  have undefined : wideScale.getPosition wideScale.max = none := by decide
  rw [undefined] at isX
  cases isX

end Agar.Gui
