import Agar.Gui.Stepping

namespace Agar.Gui

open Agar.Lib

/-!
# Scrollbars

A scrollbar shows the visible part of a range as a control that moves in an
extent.  Sizes are computed in the type of the bound variables, as C promotes
it, and converted to `int`.
-/

/-! ## The data model -/

/-- The variables of a scrollbar without its value, and its sizes in pixels -/
structure Scrollbar (t : CType) where
  min : CInt t
  max : CInt t
  visible : CInt t
  inc : CInt t
  length : CInt .int
  wBar : CInt .int

/-- The literals of the source -/
def zero : CInt .int := ⟨0, by decide⟩

def one : CInt .int := ⟨1, by decide⟩

namespace Scrollbar

section

variable {t : CType}

/-! ## Pixels -/

/-- `vis * sb->length / (max - min)` -/
def share (sb : Scrollbar t) : Option (CInt ((t.common .int).common (t.common t))) := do
  let product ← sb.visible.mul sb.length
  let span ← sb.max.sub sb.min
  product.div span

/-- `sb->length - pixels` -/
def lengthWithout (sb : Scrollbar t) (pixels : CInt .int) : Option (CInt .int) := do
  let extent ← sb.length.sub pixels
  return extent.convert .int

/-- `GET_EXTENT_PX` -/
def extentPx (sb : Scrollbar t) : Option (CInt .int) :=
  if zero.lt sb.visible then do
    let span ← sb.max.sub sb.min
    if zero.lt span then
      let share ← sb.share
      sb.lengthWithout (share.convert .int)
    else return zero
  else if sb.wBar.val = -1 then return zero
  else sb.lengthWithout sb.wBar

/-- The value of `*len`, which has the type of a share before it is stored -/
def thumb (sb : Scrollbar t) : Option (CInt .int) :=
  if zero.lt sb.visible then do
    let share ← sb.share
    return share.convert .int
  else
    let pixels := if sb.wBar.val = -1 then sb.length else sb.wBar
    let promoted := pixels.convert (((t.common .int).common (t.common t)).common .int)
    some (promoted.convert .int)

/-- `GetPxCoords`: the place and the size, none where it returns -1 -/
def getPxCoords (sb : Scrollbar t) (value : CInt t) : Option (Option (CInt .int × CInt .int)) := do
  let last ← sb.max.sub sb.visible
  if sb.min.lt last = false then return none
  else
    let extent ← sb.extentPx
    let range ← last.sub sb.min
    if (range.convert .int).lt one then return none
    else
      let offset ← value.sub sb.min
      let product ← offset.mul extent
      let quotient ← product.div (range.convert .int)
      let len ← sb.thumb
      return some (quotient.convert .int, len)

/-- `SeekToPxCoords`: the value that is stored -/
def seekToPxCoords (sb : Scrollbar t) (value : CInt t) (x : CInt .int) : Option (CInt t) :=
  if sb.visible.lt sb.max then do
    let extent ← sb.extentPx
    if x.val ≤ 0 then return sb.min
    else if extent.val ≤ x.val then
      let last ← sb.max.sub sb.visible
      if last.lt sb.min then return sb.min else return last.convert t
    else
      let last ← sb.max.sub sb.visible
      let range ← last.sub sb.min
      let product ← x.mul range
      let quotient ← product.div extent
      let sum ← sb.min.add quotient
      let value := sum.convert t
      let value := if value.lt sb.min then sb.min else value
      return if sb.max.lt value then sb.max else value
  else return value

/-! ## Steps -/

/-- `Increment`: the value that is stored -/
def increment (sb : Scrollbar t) (value : CInt t) : Option (CInt t) :=
  if sb.visible.lt sb.max then do
    let sum ← value.add sb.inc
    let last ← sb.max.sub sb.visible
    if last.lt sum then return last.convert t else return sum.convert t
  else return value

/-- `Decrement`: the value that is stored -/
def decrement (sb : Scrollbar t) (value : CInt t) : Option (CInt t) :=
  if sb.visible.lt sb.max then do
    let sum ← sb.min.add sb.inc
    if value.lt sum then return sb.min
    else
      let difference ← value.sub sb.inc
      return difference.convert t
  else return value

/-! ## Sizes -/

/-- The size of the range with its visible part -/
def span (sb : Scrollbar t) : Int := sb.max.val - sb.min.val

/-- The size of the range of the value -/
def range (sb : Scrollbar t) : Int := sb.max.val - sb.visible.val - sb.min.val

/-- The size of the control, where a part of the range is visible -/
def visiblePixels (sb : Scrollbar t) : Int :=
  (t.promoted.wrap (sb.visible.val * sb.length.val)).tdiv sb.span

/-- The pixels that the control moves in -/
def travel (sb : Scrollbar t) : Int :=
  if 0 < sb.visible.val then
    if 0 < sb.span then sb.length.val - CType.int.wrap sb.visiblePixels else 0
  else if sb.wBar.val = -1 then 0
  else sb.length.val - sb.wBar.val

/-- The extent can be computed. -/
structure ExtentDefined (sb : Scrollbar t) : Prop where
  span : 0 < sb.visible.val → t.promoted.Defined sb.span
  product : 0 < sb.visible.val → 0 < sb.span → t.promoted.Defined (sb.visible.val * sb.length.val)
  travel : CType.int.Holds sb.travel

end

section

variable {t : CType} {sb : Scrollbar t}

theorem zero_lt_visible : zero.lt sb.visible = decide (0 < sb.visible.val) :=
  CInt.lt_eq (by simpa using CType.holds_promoted_of_int zero.holds le_rfl)
    (by simpa using CType.holds_promoted sb.visible.holds)

theorem holds_of_defined {first second : CInt t}
    (defined : t.promoted.Defined (first.val - second.val)) (nonneg : 0 ≤ first.val - second.val) :
    t.promoted.Holds (first.val - second.val) := by
  cases signed : t.promoted.signed with
  | true => exact defined signed
  | false =>
    have low := second.holds.1
    rw [CType.least_of_unsigned (CType.promoted_of_unsigned signed).2] at low
    exact (CType.holds_promoted first.holds).of_le nonneg (by omega)

theorem max_sub_min (ordered : sb.min.val ≤ sb.max.val) (defined : t.promoted.Defined sb.span) :
    ∃ span, sb.max.sub sb.min = some span ∧ span.val = sb.span :=
  CInt.sub_of_holds (holds_of_defined defined (Int.sub_nonneg_of_le ordered))

theorem max_sub_min_of_not_defined (undefined : ¬ t.promoted.Defined sb.span) :
    sb.max.sub sb.min = none := by
  rw [CInt.sub_eq_compute]
  exact CType.compute_of_not_defined (by rwa [CType.common_self])

theorem share_of_defined (positive : 0 < sb.span) (spanDefined : t.promoted.Defined sb.span)
    (productDefined : t.promoted.Defined (sb.visible.val * sb.length.val)) :
    ∃ share, sb.share = some share ∧ share.val = sb.visiblePixels := by
  obtain ⟨span, isSpan, spanVal⟩ := @max_sub_min t sb (Int.le_of_sub_nonneg positive.le) spanDefined
  obtain ⟨product, isProduct, productVal⟩ :=
    @CType.compute_of_defined (t.common .int) _ (by simpa using productDefined)
  obtain ⟨pixels, isShare, pixelsVal⟩ :=
    @CInt.div_of_pos _ _ product span (by simpa using product.holds)
      (by simpa using span.holds) (by omega)
  refine ⟨pixels, ?_, ?_⟩
  · unfold share
    rw [CInt.mul_eq_compute, isProduct, isSpan]
    exact isShare
  · rw [pixelsVal, productVal, spanVal, visiblePixels, CType.common_int]

theorem share_of_not_defined (undefined : ¬ t.promoted.Defined (sb.visible.val * sb.length.val)) :
    sb.share = none := by
  unfold share
  rw [CInt.mul_eq_compute, CType.compute_of_not_defined (by simpa using undefined)]
  rfl

theorem zero_lt_span {span : CInt (t.common t)} : zero.lt span = decide (0 < span.val) :=
  CInt.lt_eq (by simpa using CType.holds_promoted_of_int zero.holds le_rfl)
    (by simpa using span.holds)

theorem lengthWithout_of_holds {pixels : CInt .int}
    (holds : CType.int.Holds (sb.length.val - pixels.val)) :
    ∃ extent, sb.lengthWithout pixels = some extent ∧ extent.val = sb.length.val - pixels.val := by
  obtain ⟨extent, isExtent, extentVal⟩ := CInt.sub_of_holds holds
  refine ⟨extent.convert .int, ?_, ?_⟩
  · unfold lengthWithout
    rw [isExtent]
    rfl
  · rw [CInt.convert_val (by rwa [extentVal]), extentVal]

theorem lengthWithout_of_not_holds {pixels : CInt .int}
    (outside : ¬ CType.int.Holds (sb.length.val - pixels.val)) :
    sb.lengthWithout pixels = none := by
  have undefined : sb.length.sub pixels = none := by
    rw [CInt.sub_eq_compute]
    exact CType.compute_of_signed rfl outside
  unfold lengthWithout
  rw [undefined]
  rfl

theorem extentPx_of_defined (ordered : sb.min.val ≤ sb.max.val) (defined : sb.ExtentDefined) :
    ∃ extent, sb.extentPx = some extent ∧ extent.val = sb.travel := by
  obtain ⟨spanDefined, productDefined, holds⟩ := defined
  unfold extentPx travel at *
  rw [zero_lt_visible]
  by_cases shown : 0 < sb.visible.val
  · rw [if_pos shown] at holds
    rw [if_pos (decide_eq_true shown), if_pos shown]
    obtain ⟨span, isSpan, spanVal⟩ := max_sub_min ordered (spanDefined shown)
    rw [isSpan, Option.bind_eq_bind, Option.bind_some, zero_lt_span, spanVal]
    by_cases positive : 0 < sb.span
    · rw [if_pos positive] at holds
      rw [if_pos (decide_eq_true positive), if_pos positive]
      obtain ⟨pixels, isShare, pixelsVal⟩ :=
        share_of_defined positive (spanDefined shown) (productDefined shown positive)
      have pixelsInt : (pixels.convert .int).val = CType.int.wrap sb.visiblePixels := by
        rw [← pixelsVal]
        rfl
      rw [isShare, Option.bind_eq_bind, Option.bind_some, ← pixelsInt]
      exact lengthWithout_of_holds (by rwa [pixelsInt])
    · rw [if_neg (by simpa using positive), if_neg positive]
      exact ⟨zero, rfl, rfl⟩
  · rw [if_neg shown] at holds
    rw [if_neg (by simpa using shown), if_neg shown]
    by_cases whole : sb.wBar.val = -1
    · rw [if_pos whole, if_pos whole]
      exact ⟨zero, rfl, rfl⟩
    · rw [if_neg whole] at holds
      rw [if_neg whole, if_neg whole]
      exact lengthWithout_of_holds holds

theorem extentDefined_of_extentPx {extent : CInt .int} (ordered : sb.min.val ≤ sb.max.val)
    (isExtent : sb.extentPx = some extent) : sb.ExtentDefined := by
  unfold extentPx at isExtent
  rw [zero_lt_visible] at isExtent
  by_cases shown : 0 < sb.visible.val
  · rw [if_pos (decide_eq_true shown)] at isExtent
    have spanDefined : t.promoted.Defined sb.span := by
      by_contra undefined
      rw [max_sub_min_of_not_defined undefined] at isExtent
      cases isExtent
    obtain ⟨span, isSpan, spanVal⟩ := max_sub_min ordered spanDefined
    rw [isSpan, Option.bind_eq_bind, Option.bind_some, zero_lt_span, spanVal] at isExtent
    by_cases positive : 0 < sb.span
    · rw [if_pos (decide_eq_true positive)] at isExtent
      have productDefined : t.promoted.Defined (sb.visible.val * sb.length.val) := by
        by_contra undefined
        rw [share_of_not_defined undefined] at isExtent
        cases isExtent
      obtain ⟨pixels, isShare, pixelsVal⟩ := share_of_defined positive spanDefined productDefined
      rw [isShare, Option.bind_eq_bind, Option.bind_some] at isExtent
      refine ⟨fun _ => spanDefined, fun _ _ => productDefined, ?_⟩
      rw [travel, if_pos shown, if_pos positive, ← pixelsVal]
      by_contra outside
      rw [lengthWithout_of_not_holds outside] at isExtent
      cases isExtent
    · refine ⟨fun _ => spanDefined, fun _ some => absurd some positive, ?_⟩
      rw [travel, if_pos shown, if_neg positive]
      exact zero.holds
  · rw [if_neg (by simpa using shown)] at isExtent
    refine ⟨fun some => absurd some shown, fun some => absurd some shown, ?_⟩
    rw [travel, if_neg shown]
    by_cases whole : sb.wBar.val = -1
    · rw [if_pos whole]
      exact zero.holds
    · rw [if_neg whole] at isExtent ⊢
      by_contra outside
      rw [lengthWithout_of_not_holds outside] at isExtent
      cases isExtent

end

end Scrollbar

end Agar.Gui
