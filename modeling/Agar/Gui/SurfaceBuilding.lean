import Agar.Gui.SurfaceLayout

namespace Agar.Gui

open Agar.Lib
open Agar.Core

/-!
# Surfaces that are built

The layout that surfaces keep while they are made, duplicated, converted and
resized, as long as their rows have no padding or there is no second row.
-/

/-! ## Formats and sizes -/

/-- The bytes of a pixel are those that its bits take up, at most four. -/
structure PixelFormat.Made (pf : PixelFormat) : Prop where
  bytes : pf.bytesPerPixel.toNat = (pf.bitsPerPixel.toNat + 7) / 8
  least : 1 ≤ pf.bytesPerPixel.toNat
  most : pf.bytesPerPixel.toNat ≤ 4

/-- A size that is rounded up: `(pitch + 3) & ~3` -/
def roundedUp (size : Nat) : Nat := (size + 3) / 4 * 4

/-- The sizes of rows and of all pixels fit an `int`, also if they are rounded. -/
structure SizesFit (pf : PixelFormat) (w h : UInt32) : Prop where
  row : w.toNat * pf.bytesPerPixel.toNat + 3 < 2 ^ 31
  rows : h.toNat < 2 ^ 31
  all : h.toNat * roundedUp (w.toNat * pf.bytesPerPixel.toNat) < 2 ^ 31

/--
The rows of a new surface need no padding, or there is one at most.  Where a
pixel has one or four bits, rows have room for bytes up to four pixels only.
-/
def RowsTight (pf : PixelFormat) (w h : UInt32) : Prop :=
  if pf.bitsPerPixel.toNat = 1 ∨ pf.bitsPerPixel.toNat = 4 then
    w.toNat = 0 ∨ w.toNat = 4 ∨ w.toNat ≤ 4 ∧ h.toNat ≤ 1
  else 4 ∣ w.toNat * pf.bytesPerPixel.toNat ∨ h.toNat ≤ 1

section Sizes

variable {pf : PixelFormat} {w h : UInt32}

theorem SizesFit.product (fits : SizesFit pf w h) : (w * pf.bytesPerPixel.toUInt32).toNat =
      w.toNat * pf.bytesPerPixel.toNat := by
  have row := fits.row
  rw [UInt32.toNat_mul, UInt8.toNat_toUInt32]
  exact Nat.mod_eq_of_lt (by omega)

theorem pitchOf_eq (fits : SizesFit pf w h) : (pf.pitchOf w).toNat =
      ((if pf.bitsPerPixel.toNat = 1 then
          (w.toNat * pf.bytesPerPixel.toNat + 7) / 8
        else if pf.bitsPerPixel.toNat = 4 then (w.toNat * pf.bytesPerPixel.toNat + 1) / 2
        else w.toNat * pf.bytesPerPixel.toNat) + 3) / 4 * 4 := by
  have row := fits.row
  have product := fits.product
  have rows : (pf.rowSize w).toNat = if pf.bitsPerPixel.toNat = 1 then
          (w.toNat * pf.bytesPerPixel.toNat + 7) / 8
        else if pf.bitsPerPixel.toNat = 4 then (w.toNat * pf.bytesPerPixel.toNat + 1) / 2
        else w.toNat * pf.bytesPerPixel.toNat := by
    unfold PixelFormat.rowSize
    simp only
    generalize w * pf.bytesPerPixel.toUInt32 = pitch at product
    split
    case h_1 one =>
      rw [if_pos one, ← product, UInt32.toNat_div, UInt32.toNat_add]
      change (pitch.toNat + 7) % 2 ^ 32 / 8 = _
      omega
    case h_2 four =>
      rw [if_neg (by omega), if_pos four, ← product, UInt32.toNat_div, UInt32.toNat_add]
      change (pitch.toNat + 1) % 2 ^ 32 / 2 = _
      omega
    case h_3 notOne notFour => rw [if_neg notOne, if_neg notFour, product]
  rw [PixelFormat.pitchOf, UInt32.toNat_mul, UInt32.toNat_div, UInt32.toNat_add, ← rows]
  change ((pf.rowSize w).toNat + 3) % 2 ^ 32 / 4 * 4 % 2 ^ 32 = _
  have small : (pf.rowSize w).toNat + 3 < 2 ^ 31 + 7 := by
    rw [rows]
    split_ifs <;> omega
  omega

theorem RowsTight.pitchOf (tight : RowsTight pf w h) (made : pf.Made) (fits : SizesFit pf w h) :
    (pf.pitchOf w).toNat = roundedUp (w.toNat * pf.bytesPerPixel.toNat) ∧
      ((pf.pitchOf w).toNat = w.toNat * pf.bytesPerPixel.toNat ∨ h.toNat ≤ 1) := by
  rw [pitchOf_eq fits, roundedUp]
  obtain ⟨bytes, least, most⟩ := made
  unfold RowsTight at tight
  split at tight
  · have one : pf.bytesPerPixel.toNat = 1 := by omega
    rw [one]
    split_ifs <;> omega
  · split_ifs <;> omega

end Sizes

theorem le_roundedUp (size : Nat) : size ≤ roundedUp size ∧ roundedUp size ≤ size + 3 := by
  unfold roundedUp
  omega

namespace Surface

/-! ## Layouts -/

/--
Rows have their pixels and the padding, and the array has all rows.  A surface
with padding has one row at most.
-/
structure Laid (s : Surface) : Prop where
  made : s.format.Made
  fits : SizesFit s.format s.w s.h
  pitch : s.pitch.toNat = s.w.toNat * s.depth + s.padding.toNat
  array : s.pixels.length = s.h.toNat * s.pitch.toNat
  tight : s.padding.toNat = 0 ∨ s.h.toNat ≤ 1
  most : s.pitch.toNat ≤ roundedUp (s.w.toNat * s.depth)

section Layouts

variable {s t : Surface} {fresh : Nat → UInt8} {w h flags : UInt32} {pf : PixelFormat}
  {type : SurfaceType}

theorem Laid.small (laid : s.Laid) : s.h.toNat * s.pitch.toNat < 2 ^ 31 :=
  (Nat.mul_le_mul_left _ laid.most).trans_lt laid.fits.all

theorem Laid.sound (laid : s.Laid) : s.Sound where
  depth := ⟨laid.made.least, laid.made.most⟩
  wide := by
    rw [laid.pitch]
    exact Nat.le_add_right _ _
  array := laid.array
  small := laid.small.trans (by norm_num)

theorem Laid.row (laid : s.Laid) {y : Nat} (row : y < s.h.toNat) :
    y * s.pitch.toNat = y * (s.w.toNat * s.depth) := by
  rw [laid.pitch]
  rcases laid.tight with noPadding | oneRow
  · rw [noPadding, Nat.add_zero]
  · have first : y = 0 := by omega
    rw [first, Nat.zero_mul, Nat.zero_mul]

theorem laid_of_new (made : pf.Made) (fits : SizesFit pf w h) (tight : RowsTight pf w h)
    (isNew : new (some fresh) type w h pf flags = some s) : s.Laid := by
  obtain ⟨rounded, noPadding⟩ := tight.pitchOf made fits
  have holds := (le_roundedUp (w.toNat * pf.bytesPerPixel.toNat)).1
  have product := fits.product
  have padding : (pf.pitchOf w - w * pf.bytesPerPixel.toUInt32).toNat =
        (pf.pitchOf w).toNat - w.toNat * pf.bytesPerPixel.toNat := by
    have below : w * pf.bytesPerPixel.toUInt32 ≤ pf.pitchOf w := by
      rw [UInt32.le_iff_toNat_le, product, rounded]
      exact holds
    rw [UInt32.toNat_sub_of_le _ _ below, product]
  have all := fits.all
  rw [← rounded] at all
  cases isNew
  refine ⟨made, fits, ?_, ?_, ?_, ?_⟩
  · simp only [padding, depth]
    omega
  · change (freshBytes fresh (h * pf.pitchOf w).toNat).length = _
    rw [freshBytes, List.length_map, List.length_range, UInt32.toNat_mul]
    exact Nat.mod_eq_of_lt (by omega)
  · simp only [padding]
    omega
  · exact rounded.le

theorem Laid.resize {fresh : Fresh} (laid : s.Laid) (fits : SizesFit s.format w h)
    (safe : if w.toNat = 0 ∨ h.toNat = 0 then
        s.pixels = []
      else
        fresh = none ∨ s.padding.toNat = 0) : (s.resize fresh w h).2.Laid := by
  have product := fits.product
  have row := fits.row
  have all := fits.all
  have least := laid.made.least
  have holds := (le_roundedUp (w.toNat * s.format.bytesPerPixel.toNat)).1
  have sizes := Nat.mul_le_mul_left h.toNat holds
  have pitchNew : CType.int.wrap (w * s.format.bytesPerPixel.toUInt32).toNat =
        (w.toNat * s.format.bytesPerPixel.toNat : Nat) := by
    rw [product]
    exact CType.wrap_of_holds (int_holds_iff.mpr (by omega))
  have size : (uintResult (h.toNat * (w.toNat * s.format.bytesPerPixel.toNat : Nat))).toNat =
          h.toNat * (w.toNat * s.format.bytesPerPixel.toNat) := by
    rw [← Nat.cast_mul, uintResult_of_lt (by omega) (by omega), Int.toNat_natCast]
  unfold Surface.resize
  simp only [pitchNew, size]
  split_ifs with none
  · have empty : w.toNat = 0 ∨ h.toNat = 0 := by
      rcases Nat.mul_eq_zero.mp none with noRow | noColumn
      · exact .inr noRow
      · rcases Nat.mul_eq_zero.mp noColumn with noWidth | noBytes
        · exact .inl noWidth
        · omega
    rw [if_pos empty] at safe
    exact { laid with array := safe ▸ laid.array }
  · have nonempty : ¬ (w.toNat = 0 ∨ h.toNat = 0) := by
      rintro (noWidth | noRow)
      · exact none (by rw [noWidth, Nat.zero_mul, Nat.mul_zero])
      · exact none (by rw [noRow, Nat.zero_mul])
    rw [if_neg nonempty] at safe
    cases fresh with
    | none => exact laid
    | some fresh =>
    have noPadding : s.padding.toNat = 0 := safe.resolve_left fun isNone => by cases isNone
    have pitch : (UInt32.ofNat (uintResult
            (w.toNat * s.format.bytesPerPixel.toNat : Nat)).toNat).toNat =
          w.toNat * s.format.bytesPerPixel.toNat := by
      rw [uintResult_of_lt (by omega) (by omega), Int.toNat_natCast, UInt32.toNat_ofNat']
      exact Nat.mod_eq_of_lt (by omega)
    refine ⟨laid.made, fits, ?_, ?_, .inl noPadding, ?_⟩
    · simp only [pitch, noPadding, depth, Nat.add_zero]
    · simp only [pitch, length_resize]
    · simp only [pitch]
      exact holds

end Layouts

end Surface

end Agar.Gui
