import Agar.Core.DataSource
import Agar.Lib.CInteger
import Agar.Lib.Painting

namespace Agar.Gui

open Agar.Lib
open Agar.Core

/-!
# Surfaces

Pixel formats, rectangles of `int`s and surfaces, with the functions that read
and write one pixel.  A pixel is read and written with the bytes of the host,
the least significant one first.  Shift counts are taken modulo 32.
-/

/-! ## Colours -/

/-- `AG_Color` -/
structure Color where
  r : UInt8
  g : UInt8
  b : UInt8
  a : UInt8
  deriving Repr, DecidableEq

/-- `AG_ALPHA_OPAQUE` -/
def alphaOpaque : UInt8 := 255

/-- `AG_Palette`; `AG_PixelFormatIndexed` makes one colour at least. -/
structure Palette where
  colors : List Color
  nonempty : 0 < colors.length
  deriving DecidableEq

/-- `AG_PixelFormat` -/
structure PixelFormat where
  palette : Option Palette
  bitsPerPixel : UInt8
  bytesPerPixel : UInt8
  rloss : UInt8
  gloss : UInt8
  bloss : UInt8
  aloss : UInt8
  rshift : UInt8
  gshift : UInt8
  bshift : UInt8
  ashift : UInt8
  rmask : UInt32
  gmask : UInt32
  bmask : UInt32
  amask : UInt32
  colorkey : UInt32
  alpha : UInt8
  deriving DecidableEq

/-- `abs(C->r - r)` -/
def componentError (a b : UInt8) : Nat := ((a.toNat : Int) - b.toNat).natAbs

/-- The loop over the palette: the index of the first colour with the least error -/
def nearestLoop (error : Color → Nat) : List Color → Nat → Nat → Nat → Nat
  | [], _, iMin, _ => iMin
  | C :: rest, i, iMin, errMin =>
    if error C < errMin then nearestLoop error rest (i + 1) i (error C)
    else nearestLoop error rest (i + 1) iMin errMin

namespace PixelFormat

/-- `AG_MapPixelIndexedRGB` -/
def mapPixelIndexedRGB (palette : Palette) (new : Color) : UInt32 :=
  .ofNat <| nearestLoop (fun C =>
        componentError C.r new.r + componentError C.g new.g + componentError C.b new.b)
      palette.colors 0 0 (255 * 3)

/-- `AG_MapPixelIndexedRGBA` -/
def mapPixelIndexedRGBA (palette : Palette) (new : Color) : UInt32 :=
  .ofNat <| nearestLoop (fun C =>
        componentError C.r new.r + componentError C.g new.g +
          componentError C.b new.b + componentError C.a new.a)
      palette.colors 0 0 (255 * 4)

/-- `(c >> loss) << shift` -/
def packed (c loss shift : UInt8) : UInt32 := (c.toUInt32 >>> loss.toUInt32) <<< shift.toUInt32

/-- `AG_MapColorRGB` -/
def mapColorRGB (pf : PixelFormat) (C : Color) : UInt32 :=
  match pf.palette with
  | some palette => mapPixelIndexedRGB palette C
  | none =>
    packed C.r pf.rloss pf.rshift ||| packed C.g pf.gloss pf.gshift |||
      packed C.b pf.bloss pf.bshift ||| pf.amask

/-- `AG_MapColorRGBA` -/
def mapColorRGBA (pf : PixelFormat) (C : Color) : UInt32 :=
  match pf.palette with
  | some palette => mapPixelIndexedRGBA palette C
  | none =>
    packed C.r pf.rloss pf.rshift ||| packed C.g pf.gloss pf.gshift |||
      packed C.b pf.bloss pf.bshift ||| (packed C.a pf.aloss pf.ashift &&& pf.amask)

/-- `AG_GET_PIXEL_COMPONENT` -/
def component (pc mask : UInt32) (shift loss : UInt8) : UInt8 :=
  let tmp := (pc &&& mask) >>> shift.toUInt32
  ((tmp <<< loss.toUInt32) + (tmp >>> ((8 : UInt32) - (loss.toUInt32 <<< 1)))).toUInt8

/-- `AG_GetColorRGBA` -/
def getColorRGBA (pf : PixelFormat) (pc : UInt32) : Color :=
  match pf.palette with
  | some palette =>
    palette.colors.get ⟨pc.toNat % palette.colors.length, Nat.mod_lt _ palette.nonempty⟩
  | none =>
    { r := component pc pf.rmask pf.rshift pf.rloss
      g := component pc pf.gmask pf.gshift pf.gloss
      b := component pc pf.bmask pf.bshift pf.bloss
      a :=
        if pf.amask ≠ 0 then component pc pf.amask pf.ashift pf.aloss else alphaOpaque }

/-- The number of bytes that are read and written for a `BytesPerPixel` -/
def bytesOf : Nat → Nat
  | 4 => 4
  | 3 => 3
  | 2 => 2
  | _ => 1

/-- The number of bytes that `AG_GetPixel` reads and `AG_SurfacePutPixel` writes -/
def pixelSize (pf : PixelFormat) : Nat := bytesOf pf.bytesPerPixel.toNat

end PixelFormat

/-! ## Pixels in memory -/

/-- The bytes of a pixel, as many as there are -/
def pixelBytes (size : Nat) (c : UInt32) : List UInt8 :=
  (List.range size).map fun i => (c >>> .ofNat (8 * i)).toUInt8

/-- The pixel of some bytes -/
def pixelOf : List UInt8 → UInt32
  | [] => 0
  | byte :: rest => byte.toUInt32 ||| (pixelOf rest <<< 8)

/-- `AG_GET_PIXEL`, from a place in the pixels of a surface -/
def getPixel (pf : PixelFormat) (pixels : List UInt8) (p : Int) : Except Stop UInt32 :=
  if 0 ≤ p ∧ p + pf.pixelSize ≤ pixels.length then
    .ok (pixelOf ((pixels.drop p.toNat).take pf.pixelSize))
  else .error .undefined

/-- `AG_PUT_PIXEL`, to a place in the pixels of a surface -/
def putPixel (pf : PixelFormat) (pixels : List UInt8) (p : Int)
    (c : UInt32) : Except Stop (List UInt8) :=
  if 0 ≤ p ∧ p + pf.pixelSize ≤ pixels.length then
    .ok (splice pixels p.toNat (pixelBytes pf.pixelSize c))
  else .error .undefined

/-- A result of type `int` -/
def intResult (value : Int) : Except Stop Int :=
  if CType.int.Holds value then .ok value else .error .undefined

/-- A result of type `Uint` -/
def uintResult (value : Int) : Int := value % 2 ^ 32

/-! ## Surfaces -/

/-- `AG_Rect` -/
structure Rect where
  x : CInt .int
  y : CInt .int
  w : CInt .int
  h : CInt .int

/-- `enum ag_surface_type` -/
inductive SurfaceType where
  | packed
  | indexed
  deriving Repr, DecidableEq

/-- `AG_Surface` -/
structure Surface where
  type : SurfaceType
  format : PixelFormat
  flags : UInt32
  w : UInt32
  h : UInt32
  pitch : UInt32
  pixels : List UInt8
  clipRect : Rect
  padding : UInt32

/-- `AG_SRCCOLORKEY` -/
def srcColorKey : UInt32 := 1

/-- `AG_SRCALPHA` -/
def srcAlpha : UInt32 := 2

namespace Rect

/-- The points that a rectangle covers -/
def Covers (r : Rect) (x y : Int) : Prop :=
  (r.x.val ≤ x ∧ x < r.x.val + r.w.val) ∧ r.y.val ≤ y ∧ y < r.y.val + r.h.val

/-- A rectangle is inside of a surface of some size. -/
structure Inside (r : Rect) (w h : Nat) : Prop where
  left : 0 ≤ r.x.val
  top : 0 ≤ r.y.val
  width : 0 ≤ r.w.val
  height : 0 ≤ r.h.val
  right : r.x.val + r.w.val ≤ w
  bottom : r.y.val + r.h.val ≤ h

end Rect

namespace Surface

/-- The number of bytes of a pixel -/
def depth (s : Surface) : Nat := s.format.bytesPerPixel.toNat

/--
A surface has the pixels of its rows in its memory, with one to four bytes for
each.
-/
structure Sound (s : Surface) : Prop where
  depth : 1 ≤ s.depth ∧ s.depth ≤ 4
  wide : s.w.toNat * s.depth ≤ s.pitch.toNat
  array : s.pixels.length = s.h.toNat * s.pitch.toNat
  small : s.h.toNat * s.pitch.toNat < 2 ^ 32

/-- Where the pixel at a point is -/
def place (s : Surface) : Nat × Nat → Nat := cellPlace s.pitch.toNat s.depth

/-- The pixel at a point, as far as it is in the memory -/
def pixelAt (s : Surface) (point : Nat × Nat) : UInt32 :=
  pixelOf ((s.pixels.drop (s.place point)).take s.depth)

/-- The number of a place in the pixels: `y*s->pitch + x*s->format->BytesPerPixel` -/
def offset (s : Surface) (x y : Int) : Except Stop Int := do
  let column ← intResult (x * s.depth)
  return uintResult (y * s.pitch.toNat) + column

end Surface

/-! ## Facts -/

@[simp] theorem length_pixelBytes (size : Nat) (c : UInt32) :
    (pixelBytes size c).length = size := by
  rw [pixelBytes, List.length_map, List.length_range]

theorem pixelOf_cons_toNat {byte : UInt8} {rest : List UInt8}
    (small : (pixelOf rest).toNat < 2 ^ 24) :
    (pixelOf (byte :: rest)).toNat = byte.toNat + (pixelOf rest).toNat * 2 ^ 8 := by
  have shifted : (pixelOf rest <<< 8).toNat = (pixelOf rest).toNat <<< 8 := by
    rw [UInt32.toNat_shiftLeft]
    change (pixelOf rest).toNat <<< 8 % 2 ^ 32 = _
    rw [Nat.shiftLeft_eq]
    exact Nat.mod_eq_of_lt (by omega)
  have byteSmall := byte.toNat_lt
  rw [pixelOf, UInt32.toNat_or, UInt8.toNat_toUInt32, shifted, Nat.or_comm,
    ← Nat.shiftLeft_add_eq_or_of_lt byteSmall, Nat.shiftLeft_eq, Nat.add_comm]

theorem pixelOf_lt (bytes : List UInt8) (few : bytes.length ≤ 4) :
    (pixelOf bytes).toNat < 2 ^ (8 * bytes.length) := by
  induction bytes with
  | nil => decide
  | cons byte rest ih =>
    rw [List.length_cons] at few ⊢
    have restSmall := ih (by omega)
    have bound : 2 ^ (8 * rest.length) ≤ 2 ^ 24 := Nat.pow_le_pow_right (by decide) (by omega)
    have byteSmall := byte.toNat_lt
    rw [pixelOf_cons_toNat (restSmall.trans_le bound)]
    have power : 2 ^ (8 * (rest.length + 1)) = 2 ^ (8 * rest.length) * 2 ^ 8 := by
      rw [Nat.mul_add, pow_add]
    omega

theorem pixelBytes_succ {size : Nat} (few : size ≤ 3) (c : UInt32) :
    pixelBytes (size + 1) c = c.toUInt8 :: pixelBytes size (c >>> 8) := by
  rw [pixelBytes, pixelBytes, List.range_succ_eq_map, List.map_cons, List.map_map]
  have head : (c >>> UInt32.ofNat (8 * 0)).toUInt8 = c.toUInt8 := by simp
  refine List.cons_eq_cons.mpr ⟨head, List.map_congr_left fun i member => ?_⟩
  have below := List.mem_range.mp member
  have shift : c >>> UInt32.ofNat (8 * (i + 1)) = (c >>> 8) >>> UInt32.ofNat (8 * i) := by
    apply UInt32.toNat_inj.mp
    rw [UInt32.toNat_shiftRight, UInt32.toNat_shiftRight,
      UInt32.toNat_shiftRight, UInt32.toNat_ofNat', UInt32.toNat_ofNat']
    change c.toNat >>> (8 * (i + 1) % 2 ^ 32 % 32) = c.toNat >>> 8 >>> (8 * i % 2 ^ 32 % 32)
    rw [← Nat.shiftRight_add]
    congr 1
    omega
  exact congrArg UInt32.toUInt8 shift

theorem pixelBytes_pixelOf (bytes : List UInt8) (few : bytes.length ≤ 4) :
    pixelBytes bytes.length (pixelOf bytes) = bytes := by
  induction bytes with
  | nil => rfl
  | cons byte rest ih =>
    rw [List.length_cons] at few ⊢
    have restSmall := pixelOf_lt rest (by omega)
    have bound : 2 ^ (8 * rest.length) ≤ 2 ^ 24 := Nat.pow_le_pow_right (by decide) (by omega)
    have value : (pixelOf (byte :: rest)).toNat = byte.toNat + (pixelOf rest).toNat * 2 ^ 8 :=
      pixelOf_cons_toNat (restSmall.trans_le bound)
    have byteSmall := byte.toNat_lt
    have low : (pixelOf (byte :: rest)).toUInt8 = byte := by
      apply UInt8.toNat_inj.mp
      rw [UInt32.toNat_toUInt8, value]
      omega
    have high : pixelOf (byte :: rest) >>> 8 = pixelOf rest := by
      apply UInt32.toNat_inj.mp
      rw [UInt32.toNat_shiftRight, value]
      change (byte.toNat + (pixelOf rest).toNat * 2 ^ 8) >>> 8 = _
      rw [Nat.shiftRight_eq_div_pow]
      omega
    rw [pixelBytes_succ (by omega), low, high, ih (by omega)]
theorem putPixel_eq_ok {pf : PixelFormat} {pixels result : List UInt8} {p : Int} {c : UInt32} :
    putPixel pf pixels p c = .ok result ↔ (0 ≤ p ∧ p + pf.pixelSize ≤ pixels.length) ∧
        splice pixels p.toNat (pixelBytes pf.pixelSize c) = result := by
  unfold putPixel
  split
  case isTrue inside =>
    rw [Except.ok.injEq]
    exact ⟨fun same => ⟨inside, same⟩, fun both => both.2⟩
  case isFalse outside => exact ⟨fun failed => (by cases failed), fun both => absurd both.1 outside⟩

theorem intResult_of_holds {value : Int} (holds : CType.int.Holds value) :
    intResult value = .ok value :=
  if_pos holds

theorem intResult_eq_ok {value result : Int} :
    intResult value = .ok result ↔ CType.int.Holds value ∧ value = result := by
  unfold intResult
  split
  case isTrue holds =>
    rw [Except.ok.injEq]
    exact ⟨fun same => ⟨holds, same⟩, fun both => both.2⟩
  case isFalse outside => exact ⟨fun failed => (by cases failed), fun both => absurd both.1 outside⟩

theorem int_holds_iff {value : Int} : CType.int.Holds value ↔ -2 ^ 31 ≤ value ∧ value < 2 ^ 31 := by
  change -2 ^ 31 ≤ value ∧ value ≤ 2 ^ 31 - 1 ↔ _
  omega

theorem uintResult_of_lt {value : Int} (nonneg : 0 ≤ value) (small : value < 2 ^ 32) :
    uintResult value = value :=
  Int.emod_eq_of_lt nonneg small

namespace Surface

variable {s : Surface}

theorem Sound.pixelSize (sound : s.Sound) : s.format.pixelSize = s.depth := by
  obtain ⟨least, most⟩ := sound.depth
  change PixelFormat.bytesOf s.depth = s.depth
  interval_cases s.depth <;> rfl

theorem Sound.row_lt (sound : s.Sound) {y : Nat} (row : y < s.h.toNat) :
    y * s.pitch.toNat < 2 ^ 32 :=
  (Nat.mul_le_mul_right _ row.le).trans_lt sound.small

theorem Sound.offset_eq (sound : s.Sound) {x y : Nat} (row : y < s.h.toNat)
    (held : CType.int.Holds ((x : Int) * s.depth)) : s.offset x y = .ok (s.place (x, y) : Nat) := by
  have small := sound.row_lt row
  rw [offset, intResult_of_holds held, ok_bind, uintResult_of_lt (by positivity)
    (by exact_mod_cast small)]
  rw [place, cellPlace]
  push_cast
  rfl

theorem Sound.place_inside (sound : s.Sound) {point : Nat × Nat} (column : point.1 < s.w.toNat)
    (row : point.2 < s.h.toNat) : s.place point + s.depth ≤ s.pixels.length :=
  (cellPlace_inside sound.wide column row).trans sound.array.ge

theorem Sound.place_apart (sound : s.Sound) {point other : Nat × Nat} (column : point.1 < s.w.toNat)
    (columnOther : other.1 < s.w.toNat) (distinct : point ≠ other) :
    Lib.Apart s.depth (s.place point) (s.place other) :=
  cellPlace_apart sound.wide column columnOther distinct

theorem Sound.putPixel_eq (sound : s.Sound) {pixels : List UInt8} {place : Nat}
    (inside : place + s.depth ≤ pixels.length) (c : UInt32) :
    putPixel s.format pixels place c = .ok (splice pixels place (pixelBytes s.depth c)) := by
  rw [putPixel, sound.pixelSize, if_pos (by omega), Int.toNat_natCast]

theorem Sound.getPixel_eq (sound : s.Sound) {pixels : List UInt8} {place : Nat}
    (inside : place + s.depth ≤ pixels.length) :
    getPixel s.format pixels place = .ok (pixelOf ((pixels.drop place).take s.depth)) := by
  rw [getPixel, sound.pixelSize, if_pos (by omega), Int.toNat_natCast]

end Surface

/-! ## A format -/

/-- A format of one byte, all of which is red -/
def redFormat : PixelFormat where
  palette := none
  bitsPerPixel := 8
  bytesPerPixel := 1
  rloss := 0
  gloss := 8
  bloss := 8
  aloss := 8
  rshift := 0
  gshift := 0
  bshift := 0
  ashift := 0
  rmask := 255
  gmask := 0
  bmask := 0
  amask := 0
  colorkey := 0
  alpha := 255

theorem int_holds_zero : CType.int.Holds 0 := by decide

theorem int_holds_one : CType.int.Holds 1 := by decide

theorem int_holds_two : CType.int.Holds 2 := by decide

theorem int_holds_four : CType.int.Holds 4 := by decide

theorem int_holds_neg_one : CType.int.Holds (-1) := by decide

namespace Surface

def blackRow : Surface where
  type := .packed
  format := redFormat
  flags := 0
  w := 4
  h := 1
  pitch := 4
  pixels := [0, 0, 0, 0]
  clipRect := ⟨⟨0, int_holds_zero⟩, ⟨0, int_holds_zero⟩, ⟨4, int_holds_four⟩, ⟨1, int_holds_one⟩⟩
  padding := 0

theorem blackRow_sound : blackRow.Sound := ⟨by decide, by decide, by decide, by decide⟩

theorem blackRow_inside : blackRow.clipRect.Inside blackRow.w.toNat blackRow.h.toNat :=
  ⟨by decide, by decide, by decide, by decide, by decide, by decide⟩

end Surface

end Agar.Gui
