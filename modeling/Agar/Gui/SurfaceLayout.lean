import Agar.Gui.Surface

namespace Agar.Gui

open Agar.Lib
open Agar.Core

/-!
# How surfaces are laid out

The functions that make and resize surfaces, and those that go through all
pixels of one with a pointer.  `AG_SurfaceResize` leaves the padding as it was,
and `AG_ScaleSurface` and `AG_SetAlphaPixels` do not skip it.
-/

/-! ## Making surfaces -/

/-- The size of a row before it is rounded up, in `AG_SurfaceNew` -/
def PixelFormat.rowSize (pf : PixelFormat) (w : UInt32) : UInt32 :=
  let pitch := w * pf.bytesPerPixel.toUInt32
  match pf.bitsPerPixel.toNat with
  | 1 => (pitch + 7) / 8
  | 4 => (pitch + 1) / 2
  | _ => pitch

/-- The size of a row: `(pitch + 3) & ~3` -/
def PixelFormat.pitchOf (pf : PixelFormat) (w : UInt32) : UInt32 := (pf.rowSize w + 3) / 4 * 4

/-- `AG_RECT(0,0,w,h)` -/
def rectOfSize (w h : UInt32) : Rect :=
  ⟨⟨0, int_holds_zero⟩, ⟨0, int_holds_zero⟩, ⟨CType.int.wrap w.toNat, CType.int.holds_wrap _⟩,
    ⟨CType.int.wrap h.toNat, CType.int.holds_wrap _⟩⟩

/-- What an allocation gives: none if it fails, else what the bytes hold -/
abbrev Fresh := Option (Nat → UInt8)

/-- So many bytes of an allocation -/
def freshBytes (fresh : Nat → UInt8) (size : Nat) : List UInt8 := (List.range size).map fresh

namespace Surface

/-- `AG_SurfaceNew` -/
def new (fresh : Fresh) (type : SurfaceType) (w h : UInt32) (pf : PixelFormat)
    (flags : UInt32) : Option Surface :=
  fresh.map fun fresh =>
    { type
      format := pf
      flags
      w
      h
      pitch := pf.pitchOf w
      padding := pf.pitchOf w - w * pf.bytesPerPixel.toUInt32
      clipRect := rectOfSize w h
      pixels := freshBytes fresh (h * pf.pitchOf w).toNat }

/-- `AG_SAVED_SURFACE_FLAGS` -/
def savedFlags : UInt32 := 7

/-- `memcpy`, in two memories -/
def copyBytes (dst : List UInt8) (pDst : Int) (src : List UInt8) (pSrc : Int)
    (size : Nat) : Except Stop (List UInt8) :=
  if (0 ≤ pDst ∧ pDst + size ≤ dst.length) ∧ 0 ≤ pSrc ∧ pSrc + size ≤ src.length then
    .ok (splice dst pDst.toNat ((src.drop pSrc.toNat).take size))
  else .error .undefined

/-- `AG_SurfaceDup`; it may give no surface -/
def dup (ss : Surface) (fresh : Fresh) : Except Stop (Option Surface) :=
  match new fresh ss.type ss.w ss.h ss.format (ss.flags &&& savedFlags) with
  | none => return none
  | some s => do
      let pixels ← copyBytes s.pixels 0 ss.pixels 0 (ss.h * ss.pitch).toNat
      return some { s with pixels }

/-! ## Copying pixels -/

/-- `AG_PixelFormatCompare(pf1, pf2) == 0` -/
def sameFormat (pf1 pf2 : PixelFormat) : Bool :=
  pf1.palette.map Palette.colors = pf2.palette.map Palette.colors &&
    (pf1.bitsPerPixel = pf2.bitsPerPixel && pf1.rmask = pf2.rmask &&
      pf1.gmask = pf2.gmask && pf1.bmask = pf2.bmask &&
      pf1.amask = pf2.amask && pf1.colorkey = pf2.colorkey)

/-- Two pointers, and the pixels of the destination -/
structure Walk where
  pSrc : Int
  pDst : Int
  pixels : List UInt8

/-- The paddings behind the part of the rows that is copied: `padDst`, `padSrc` -/
def copyPaddings (ds ss : Surface) : Int × Int :=
  let (padDst, padSrc) :=
    if ds.w > ss.w then ((ds.w - ss.w) * ds.format.bytesPerPixel.toUInt32, 0)
    else if ds.w < ss.w then (0, (ss.w - ds.w) * ss.format.bytesPerPixel.toUInt32)
    else ((0 : UInt32), (0 : UInt32))
  (CType.int.wrap (padDst + ds.padding).toNat, CType.int.wrap (padSrc + ss.padding).toNat)

/-- A row of `AG_SurfaceCopy` where the formats are the same -/
def copyRow (ds ss : Surface) (w padDst padSrc : Int) (state : Walk) : Except Stop Walk := do
  let size ← intResult (w * ds.depth)
  let pixels ← copyBytes state.pixels state.pDst ss.pixels state.pSrc (sizeT size)
  let stepDst ← intResult (size + padDst)
  let sizeSrc ← intResult (w * ss.depth)
  let stepSrc ← intResult (sizeSrc + padSrc)
  return ⟨state.pSrc + stepSrc, state.pDst + stepDst, pixels⟩

/-- A pixel of `AG_SurfaceCopy` that is converted -/
def convertPixel (ds ss : Surface) (state : Walk) : Except Stop Walk := do
  let px ← getPixel ss.format ss.pixels state.pSrc
  let pixels ← putPixel ds.format state.pixels state.pDst
      (ds.format.mapColorRGBA (ss.format.getColorRGBA px))
  return ⟨state.pSrc + ss.depth, state.pDst + ds.depth, pixels⟩

/-- A row of `AG_SurfaceCopy` that is converted -/
def convertRow (ds ss : Surface) (w padDst padSrc : Int) (state : Walk) : Except Stop Walk := do
  let state ← forLoop (fun _ => ds.convertPixel ss) w.toNat 0 state
  return { state with pSrc := state.pSrc + padSrc, pDst := state.pDst + padDst }

/-- `AG_SurfaceCopy` -/
def copy (ds ss : Surface) : Except Stop Surface := do
  let w := CType.int.wrap (min ds.w.toNat ss.w.toNat)
  let h := CType.int.wrap (min ss.h.toNat ds.h.toNat)
  let (padDst, padSrc) := ds.copyPaddings ss
  let row :=
    if sameFormat ss.format ds.format then ds.copyRow ss else ds.convertRow ss
  let state ← forLoop (fun _ => row w padDst padSrc) h.toNat 0 ⟨0, 0, ds.pixels⟩
  return { ds with pixels := state.pixels }

/-- `AG_SurfaceConvert`; without memory it copies to no surface -/
def convert (ss : Surface) (fresh : Fresh) (pf : PixelFormat) : Except Stop Surface :=
  match new fresh ss.type ss.w ss.h pf (ss.flags &&& savedFlags) with
  | none => .error .undefined
  | some ds => ds.copy ss

/-! ## Resizing -/

/--
`AG_SurfaceResize`: whether it succeeds, and the surface.  Where no bytes are
asked for, `realloc` frees the pixels and gives no memory.
-/
def resize (s : Surface) (fresh : Fresh) (w h : UInt32) : Bool × Surface :=
  let pitchNew := CType.int.wrap (w * s.format.bytesPerPixel.toUInt32).toNat
  let size := (uintResult (h.toNat * pitchNew)).toNat
  if size = 0 then (false, { s with pixels := [] })
  else
    match fresh with
    | none => (false, s)
    | some fresh =>
      (true,
        { s with
          pixels := Lib.resize fresh size s.pixels
          pitch := .ofNat (uintResult pitchNew).toNat
          w
          h
          clipRect := rectOfSize w h })

/-! ## Scaling -/

/-- A pixel of `AG_ScaleSurface`, for both surfaces and the format that is kept -/
def scalePixel (ss ds : Surface) (same : Bool) (y x : Nat) (state : Walk) : Except Stop Walk := do
  let row := uintResult (y * ss.h.toNat) / ds.h.toNat
  let column := uintResult (x * ss.w.toNat) / ds.w.toNat
  let pSrc := uintResult (row * ss.pitch.toNat) + uintResult (column * ss.depth)
  let pxSrc ← getPixel ss.format ss.pixels pSrc
  let pxDst :=
    if same then pxSrc else ds.format.mapColorRGBA (ss.format.getColorRGBA pxSrc)
  let pixels ← putPixel ds.format state.pixels state.pDst pxDst
  return { state with pDst := state.pDst + ds.depth, pixels }

/-- The loops of `AG_ScaleSurface` -/
def scaleLoop (ss ds : Surface) (same : Bool) : Except Stop Surface := do
  let state ← forLoop (fun y => forLoop (ss.scalePixel ds same y) ds.w.toNat 0)
      ds.h.toNat 0 ⟨0, 0, ds.pixels⟩
  return { ds with pixels := state.pixels }

/-- `AG_ScaleSurface` to a surface, behind the allocation of one -/
def scaleTo (ss ds : Surface) (same : Bool) (w h : UInt16) : Except Stop Surface :=
  if ss.w = w.toUInt32 ∧ ss.h = h.toUInt32 then ds.copy ss else ss.scaleLoop ds same

/-- The surface that `AG_ScaleSurface` allocates -/
def scaleNew (ss : Surface) (fresh : Fresh) (w h : UInt16) : Option Surface :=
  new fresh .packed w.toUInt32 h.toUInt32 ss.format (ss.flags &&& (srcAlpha ||| srcColorKey))

/-- `AG_ScaleSurface`; it may give no surface -/
def scale (ss : Surface) (fresh : Fresh)
    (w h : UInt16) : Option Surface → Except Stop (Option Surface)
  | some ds => do
      return some (← ss.scaleTo ds false w h)
  | none =>
    match ss.scaleNew fresh w h with
    | none => return none
    | some ds => do
        return some (← ss.scaleTo ds true w h)

/-! ## Setting alpha -/

end Surface

end Agar.Gui
