import Agar.Gui.Surface

namespace Agar.Gui

open Agar.Lib
open Agar.Core

/-!
# Surfaces that are copied to one another

`AG_SurfaceBlit` clips the source rectangle to the source, and the destination
to the clipping rectangle, each on its own: what is cut off on the left of the
one is not cut off from the other, and sizes below zero are compared with
counters that have no sign.  Both directions are clipped alike, so that one axis
is described by itself.
-/

/-! ## One axis -/

/-- What is known of one direction -/
structure Axis where
  /-- The start and the size of the source rectangle -/
  rect : Option (CInt .int × CInt .int)
  /-- The size of the source -/
  size : UInt32
  dst : CInt .int
  clip : CInt .int
  clipSize : CInt .int

namespace Axis

/-- The effective source rectangle: `sr.x` and `sr.w` -/
def sourceRange (a : Axis) : Except Stop (Int × Int) :=
  match a.rect with
  | some (x, w) => do
      let x := if x.val < 0 then 0 else x.val
      let stop ← intResult (x + w.val)
      if uintResult stop ≥ a.size.toNat then return (x, CType.int.wrap (a.size.toNat - x))
      else return (x, w.val)
  | none => return (0, CType.int.wrap a.size.toNat)

/-- The effective rectangles: `sr.x`, `dr.x` and `dr.w` -/
def clipped (a : Axis) : Except Stop (Int × Int × Int) := do
  let (source, extent) ← a.sourceRange
  let target := if a.dst.val > a.clip.val then a.dst.val else a.clip.val
  let stop ← intResult (target + extent)
  let clipStop ← intResult (a.clip.val + a.clipSize.val)
  if stop > clipStop then return (source, target, ← intResult (clipStop - target))
  else return (source, target, extent)

end Axis

/-! ## The function -/

/-- `(((new - old)*a) >> 8) + old`, as `Uint8` -/
def blendComponent (new old a : UInt8) : UInt8 :=
  .ofInt (((new.toNat : Int) - old.toNat) * a.toNat / 256 + old.toNat)

namespace Surface

/-- `AG_SurfaceBlendPixel`, of a surface with some pixels -/
def blendPixel (s : Surface) (pixels : List UInt8) (pDst : Int)
    (new : Color) : Except Stop (List UInt8) := do
  let pxDst ← getPixel s.format pixels pDst
  if s.flags &&& srcColorKey ≠ 0 ∧ pxDst = s.format.colorkey then
    putPixel s.format pixels pDst (s.format.mapColorRGBA new)
  else
    let old := s.format.getColorRGBA pxDst
    putPixel s.format pixels pDst <| s.format.mapColorRGBA
        { r := blendComponent new.r old.r new.a
          g := blendComponent new.g old.g new.a
          b := blendComponent new.b old.b new.a
          a := old.a }

/-- The pointers of the loops, and the pixels of the destination -/
structure Blitting where
  pSrc : Int
  pDst : Int
  pixels : List UInt8

/-- What is left of the pixels of the destination for a pixel of the source -/
def blitColor (ss ds : Surface) (pixels : List UInt8) (pDst : Int)
    (pixel : UInt32) : Except Stop (List UInt8) :=
  let C := ss.format.getColorRGBA pixel
  if ss.format.alpha ≠ alphaOpaque then
    -- `C.a *= ss->format->alpha/255`
    ds.blendPixel pixels pDst { C with a := C.a * (ss.format.alpha / 255) }
  else if C.a ≠ alphaOpaque ∧ ss.flags &&& srcAlpha ≠ 0 then ds.blendPixel pixels pDst C
  else putPixel ds.format pixels pDst (ds.format.mapColorRGB C)

/-- The body of the loop over the pixels of a row -/
def blitPixel (ss ds : Surface) (state : Blitting) : Except Stop Blitting := do
  let pixel ← getPixel ss.format ss.pixels state.pSrc
  let pixels ←
    if ss.flags &&& srcColorKey ≠ 0 ∧ ss.format.colorkey = pixel then pure state.pixels
    else ss.blitColor ds state.pixels state.pDst pixel
  return ⟨state.pSrc + ss.depth, state.pDst + ds.depth, pixels⟩

/-- The body of the loop over the rows, for `dr.w` and both starts -/
def blitRow (ss ds : Surface) (source target : Int × Int) (width : Int) (y : Nat)
    (pixels : List UInt8) : Except Stop (List UInt8) := do
  let pSrc ← ss.offset source.1 (source.2 + y)
  let pDst ← ds.offset target.1 (target.2 + y)
  let state ← forLoop (fun _ => ss.blitPixel ds) (uintResult width).toNat 0 ⟨pSrc, pDst, pixels⟩
  return state.pixels

/-- The direction from left to right -/
def across (ss : Surface) (srcRect : Option Rect) (ds : Surface) (xDst : CInt .int) : Axis where
  rect := srcRect.map fun r => (r.x, r.w)
  size := ss.w
  dst := xDst
  clip := ds.clipRect.x
  clipSize := ds.clipRect.w

/-- The direction from above to below -/
def down (ss : Surface) (srcRect : Option Rect) (ds : Surface) (yDst : CInt .int) : Axis where
  rect := srcRect.map fun r => (r.y, r.h)
  size := ss.h
  dst := yDst
  clip := ds.clipRect.y
  clipSize := ds.clipRect.h

/-- `AG_SurfaceBlit` -/
def blit (ss : Surface) (srcRect : Option Rect) (ds : Surface)
    (xDst yDst : CInt .int) : Except Stop Surface := do
  let (sx, dx, width) ← (ss.across srcRect ds xDst).clipped
  let (sy, dy, height) ← (ss.down srcRect ds yDst).clipped
  let pixels ← forLoop (ss.blitRow ds (sx, sy) (dx, dy) width) (uintResult height).toNat 0 ds.pixels
  return { ds with pixels }

end Surface

/-! ## Clipping -/

namespace Axis

variable {a : Axis}

/-- Where the source rectangle starts -/
def start (a : Axis) : Int := a.rect.elim 0 fun r => r.1.val

/-- Where it starts in the source -/
def source (a : Axis) : Int := max a.start 0

/-- Where the destination starts in the clipping rectangle -/
def target (a : Axis) : Int := max a.dst.val a.clip.val

/-- What is left of the size of the source rectangle, as an `int` -/
def extent (a : Axis) : Int :=
  a.rect.elim (CType.int.wrap a.size.toNat) fun r =>
    if uintResult (a.source + r.2.val) ≥ a.size.toNat then CType.int.wrap (a.size.toNat - a.source)
    else r.2.val

/-- The ends that are computed are `int`s. -/
structure Held (a : Axis) : Prop where
  source : ∀ r, a.rect = some r → CType.int.Holds (a.source + r.2.val)
  target : CType.int.Holds (a.target + a.extent)
  clip : CType.int.Holds (a.clip.val + a.clipSize.val)

/-- What is left of the size in the clipping rectangle -/
def shown (a : Axis) : Int :=
  if a.target + a.extent > a.clip.val + a.clipSize.val then a.clip.val + a.clipSize.val - a.target
  else a.extent

/-- The place in the source that belongs to a place in the destination -/
def sourceOf (a : Axis) (x : Int) : Int := x - a.dst.val + a.start

/-- A place is clipped by nothing, and belongs to a place in both rectangles. -/
def Wanted (a : Axis) (x : Int) : Prop :=
  (a.clip.val ≤ x ∧ x < a.clip.val + a.clipSize.val) ∧
    (0 ≤ a.sourceOf x ∧ a.sourceOf x < a.size.toNat) ∧ ∀ r, a.rect = some r →
        r.1.val ≤ a.sourceOf x ∧ a.sourceOf x < r.1.val + r.2.val

/--
As much is cut off in front of the source as in front of the destination, and if
anything is, then the rectangle ends behind the source or the clipping rectangle.
-/
structure Straight (a : Axis) : Prop where
  front : max 0 (-a.start) = max 0 (a.clip.val - a.dst.val)
  back : a.clip.val ≤ a.dst.val ∨ ∀ r, a.rect = some r →
        min a.clipSize.val a.size.toNat ≤ r.1.val + r.2.val
  small : a.rect = none → a.size.toNat < 2 ^ 31

theorem int_wrap_eq {value : Int} (low : -2 ^ 31 ≤ value) (high : value < 2 ^ 32) :
    CType.int.wrap value = if value < 2 ^ 31 then value else value - 2 ^ 32 := by
  change (value - -2 ^ 31) % 2 ^ 32 + -2 ^ 31 = _
  split <;> omega

theorem moved_eq (x : Int) : (if x < 0 then 0 else x) = max x 0 := by split <;> omega

theorem sourceRange_of_held (held : ∀ r, a.rect = some r → CType.int.Holds (a.source + r.2.val)) :
    a.sourceRange = .ok (a.source, a.extent) := by
  rcases isRect : a.rect with _ | r
  · have none : a.start = 0 := by
      rw [start, isRect, Option.elim_none]
    rw [sourceRange, extent, source, none, isRect, max_self, Option.elim_none]
    exact rfl
  · have some : a.start = r.1.val := by
      rw [start, isRect, Option.elim_some]
    have stops := held r isRect
    rw [source, some] at stops
    rw [sourceRange, extent, source, some, isRect, Option.elim_some]
    simp only [moved_eq, intResult_of_holds stops, ok_bind]
    split
    · rfl
    · rfl

theorem held_of_sourceRange {result : Int × Int} (computed : a.sourceRange = .ok result) :
    ∀ r, a.rect = some r → CType.int.Holds (a.source + r.2.val) := by
  intro r isRect
  rw [sourceRange, isRect] at computed
  simp only [moved_eq] at computed
  rw [bind_eq_ok] at computed
  obtain ⟨stop, stops, _⟩ := computed
  rw [source, start, isRect, Option.elim_some]
  exact (intResult_eq_ok.mp stops).1

theorem clipped_of_held (clipNonneg : 0 ≤ a.clip.val) (clipSized : 0 ≤ a.clipSize.val)
    (held : a.Held) : a.clipped = .ok (a.source, a.target, a.shown) := by
  have targetSame : (if a.dst.val > a.clip.val then a.dst.val else a.clip.val) = a.target := by
    rw [target]
    split <;> omega
  have targetHeld : CType.int.Holds (a.clip.val + a.clipSize.val - a.target) := by
    have dst := a.dst.holds
    have clip := a.clip.holds
    have stop := held.clip
    rw [int_holds_iff] at dst clip stop ⊢
    rw [target]
    omega
  rw [clipped, sourceRange_of_held held.source, ok_bind]
  simp only [targetSame, intResult_of_holds held.target,
    intResult_of_holds held.clip, intResult_of_holds targetHeld, ok_bind]
  rw [shown]
  split <;> rfl

theorem held_of_clipped {result : Int × Int × Int} (computed : a.clipped = .ok result) :
    a.Held := by
  rw [clipped, bind_eq_ok] at computed
  obtain ⟨range, ranged, rest⟩ := computed
  have source := held_of_sourceRange ranged
  rw [sourceRange_of_held source, Except.ok.injEq] at ranged
  subst ranged
  have targetSame : (if a.dst.val > a.clip.val then a.dst.val else a.clip.val) = a.target := by
    rw [target]
    split <;> omega
  simp only [targetSame] at rest
  rw [bind_eq_ok] at rest
  obtain ⟨stop, stops, rest⟩ := rest
  rw [bind_eq_ok] at rest
  obtain ⟨clipStop, clipStops, _⟩ := rest
  exact
    { source
      target := (intResult_eq_ok.mp stops).1
      clip := (intResult_eq_ok.mp clipStops).1 }

theorem extent_of_none (whole : a.rect = none) : a.start = 0 ∧ a.extent =
        if (a.size.toNat : Int) < 2 ^ 31 then (a.size.toNat : Int)
        else a.size.toNat - 2 ^ 32 := by
  have size := a.size.toNat_lt
  rw [start, extent, whole, Option.elim_none, Option.elim_none]
  exact ⟨rfl, int_wrap_eq (by omega) (by omega)⟩

theorem extent_of_some {r : CInt .int × CInt .int} (isRect : a.rect = some r) : a.start = r.1.val ∧
      a.extent = if uintResult (a.source + r.2.val) ≥ a.size.toNat then
          if a.size.toNat - a.source < 2 ^ 31 then a.size.toNat - a.source
          else a.size.toNat - a.source - 2 ^ 32
        else r.2.val := by
  have size := a.size.toNat_lt
  have first := int_holds_iff.mp r.1.holds
  have starts : a.start = r.1.val := by rw [start, isRect, Option.elim_some]
  refine ⟨starts, ?_⟩
  rw [extent, isRect, Option.elim_some,
    int_wrap_eq (by rw [source, starts]; omega) (by rw [source, starts]; omega)]

theorem bounds_of_shown (clipNonneg : 0 ≤ a.clip.val) (shown : 0 < a.shown) :
    (0 ≤ a.source ∧ a.source + a.shown ≤ a.size.toNat) ∧
      0 ≤ a.target ∧ a.target + a.shown ≤ a.clip.val + a.clipSize.val := by
  have size := a.size.toNat_lt
  have extents : a.source + a.extent ≤ a.size.toNat ∨ a.extent ≤ 0 := by
    rcases isRect : a.rect with _ | r
    · obtain ⟨starts, extent⟩ := extent_of_none isRect
      rw [extent, source, starts]
      omega
    · obtain ⟨starts, extent⟩ := extent_of_some isRect
      have first := int_holds_iff.mp r.1.holds
      have second := int_holds_iff.mp r.2.holds
      rw [extent, source, starts, uintResult]
      omega
  have target : 0 ≤ a.target := le_max_of_le_right clipNonneg
  have source : 0 ≤ a.source := le_max_right _ _
  unfold Axis.shown at shown ⊢
  split at shown <;> split <;> omega

theorem exists_nats_of_shown (clipNonneg : 0 ≤ a.clip.val) (shown : 0 < a.shown) :
    ∃ source target count : Nat, a.source = source ∧ a.target = target ∧ a.shown = count ∧
            source + count ≤ a.size.toNat ∧
              (target : Int) + count ≤ a.clip.val + a.clipSize.val := by
  obtain ⟨⟨sourceNonneg, sourceEnd⟩, targetNonneg, targetEnd⟩ := bounds_of_shown clipNonneg shown
  refine ⟨a.source.toNat, a.target.toNat, a.shown.toNat, ?_⟩
  omega

theorem straight_iff {x : Int} (wanted : a.Wanted x) : a.Straight ↔ 0 < a.shown ∧
        a.source - a.target = a.start - a.dst.val ∧
          ∀ x, a.Wanted x ↔ a.target ≤ x ∧ x < a.target + a.shown := by
  have size := a.size.toNat_lt
  rcases isRect : a.rect with _ | r
  · obtain ⟨starts, extents⟩ := extent_of_none isRect
    have only (x : Int) : a.Wanted x ↔ (a.clip.val ≤ x ∧ x < a.clip.val + a.clipSize.val) ∧
            0 ≤ x - a.dst.val ∧ x - a.dst.val < a.size.toNat := by
      unfold Wanted sourceOf
      rw [isRect, starts]
      simp
    have straight : a.Straight ↔ 0 = max 0 (a.clip.val - a.dst.val) ∧ a.size.toNat < 2 ^ 31 := by
      constructor
      · rintro ⟨front, _, small⟩
        rw [starts] at front
        exact ⟨front, small isRect⟩
      · rintro ⟨front, small⟩
        exact ⟨by rw [starts]; exact front, .inl (by omega), fun _ => small⟩
    rw [only] at wanted
    rw [straight, shown, source, target, extents, starts]
    constructor
    · intro conditions
      refine ⟨by omega, by omega, fun x => ?_⟩
      rw [only]
      omega
    · rintro ⟨positive, same, _⟩
      omega
  · obtain ⟨starts, extents⟩ := extent_of_some isRect
    have first := int_holds_iff.mp r.1.holds
    have second := int_holds_iff.mp r.2.holds
    have only (x : Int) : a.Wanted x ↔ (a.clip.val ≤ x ∧ x < a.clip.val + a.clipSize.val) ∧
            (0 ≤ x - a.dst.val + r.1.val ∧ x - a.dst.val + r.1.val < a.size.toNat) ∧
              r.1.val ≤ x - a.dst.val + r.1.val ∧ x - a.dst.val + r.1.val < r.1.val + r.2.val := by
      unfold Wanted sourceOf
      rw [isRect, starts]
      simp
    have straight : a.Straight ↔ max 0 (-r.1.val) = max 0 (a.clip.val - a.dst.val) ∧
            (a.clip.val ≤ a.dst.val ∨ min a.clipSize.val a.size.toNat ≤ r.1.val + r.2.val) := by
      constructor
      · rintro ⟨front, back, _⟩
        rw [starts] at front
        exact ⟨front, back.imp_right fun ends => ends r isRect⟩
      · rintro ⟨front, back⟩
        refine ⟨by rw [starts]; exact front, back.imp_right fun ends => ?_, ?_⟩
        · intro r' isRect'
          rw [isRect] at isRect'
          cases isRect'
          exact ends
        · intro isNone
          rw [isRect] at isNone
          cases isNone
    rw [only] at wanted
    rw [straight, shown, target, extents, source, starts, uintResult]
    constructor
    · rintro ⟨front, back⟩
      refine ⟨by omega, by omega, fun x => ?_⟩
      rw [only]
      omega
    · rintro ⟨positive, same, all⟩
      refine ⟨by omega, ?_⟩
      by_contra crooked
      -- the first place behind the rectangle is still copied
      have behind := all (a.dst.val + r.2.val)
      rw [only] at behind
      omega

end Axis

end Agar.Gui
