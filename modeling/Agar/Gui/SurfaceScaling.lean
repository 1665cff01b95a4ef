import Agar.Gui.SurfaceCopying

namespace Agar.Gui

open Agar.Lib
open Agar.Core

/-!
# Surfaces that are scaled

`AG_SetAlphaPixels` and `AG_ScaleSurface` go through the pixels of a surface
with a pointer that does not skip the padding of the rows.  On surfaces that
are laid out, rows follow each other without one, so that the pointer is at the
place of each pixel.
-/

namespace Surface

/-! ## What is painted -/

/-- The pixel of the source that a pixel of the destination is scaled from -/
def scaledPoint (ss ds : Surface) (point : Nat × Nat) : Nat × Nat :=
  (point.1 * ss.w.toNat / ds.w.toNat, point.2 * ss.h.toNat / ds.h.toNat)

/--
Each pixel of the destination gets the colour of a pixel of the source at its
place, and no other byte changes.  The colour is kept as it is or converted.
-/
def Scales (ss ds : Surface) (outcome : Except Stop Surface) : Prop :=
  ∃ pixels same, outcome = .ok { ds with pixels } ∧ (same = true → sameFormat ss.format ds.format) ∧
        Painted ds.pixels pixels ds.depth ds.place (fun point =>
            pixelBytes ds.depth (ds.carried ss same (ss.scaledPoint ds point)))
          (InBox 0 0 ds.w.toNat ds.h.toNat)

/-- There are pixels to scale from, and products of sizes fit a `Uint`. -/
structure Scalable (ss ds : Surface) : Prop where
  nonempty : 0 < ss.w.toNat ∧ 0 < ss.h.toNat
  columns : ds.w.toNat * ss.w.toNat < 2 ^ 32
  rows : ds.h.toNat * ss.h.toNat < 2 ^ 32

/-- Where nothing is to be scaled, pixels are copied to where they would be scaled to. -/
def Unscaled (ss ds : Surface) : Prop :=
  (∀ x < ds.w.toNat, x < ss.w.toNat ∧ x * ss.w.toNat / ds.w.toNat = x) ∧
    ∀ y < ds.h.toNat, y < ss.h.toNat ∧ y * ss.h.toNat / ds.h.toNat = y

variable {ds ss su s : Surface} {alpha : UInt8}

/-! ## Pointers that go through the pixels -/

section Walks

variable {x y : Nat}

theorem place_step (s : Surface) : (s.place (x, y) : Int) + s.depth = s.place (x + 1, y) := by
  simp only [place, cellPlace]
  push_cast
  ring

theorem Laid.place_next (laid : s.Laid) (row : y + 1 < s.h.toNat) :
    s.place (s.w.toNat, y) = s.place (0, y + 1) := by
  have start := laid.row (y := y) (by omega)
  have next := laid.row row
  simp only [place, cellPlace, start, next]
  ring

theorem Sound.drop_splice (sound : s.Sound) {pixels : List UInt8} {c : UInt32}
    (column : x < s.w.toNat) (row : y < s.h.toNat) (length : pixels.length = s.pixels.length)
    (rest : pixels.drop (s.place (x, y)) = s.pixels.drop (s.place (x, y))) :
    (splice pixels (s.place (x, y)) (pixelBytes s.depth c)).drop (s.place (x + 1, y)) =
      s.pixels.drop (s.place (x + 1, y)) := by
  have inside := @Sound.place_inside s sound (x, y) column row
  have behind : s.place (x + 1, y) = s.place (x, y) + s.depth := by
    simp only [place, cellPlace]
    ring
  have room : s.place (x, y) + (pixelBytes s.depth c).length ≤ pixels.length := by
    rw [length_pixelBytes, length]
    exact inside
  have dropped := Lib.drop_splice room
  rw [length_pixelBytes] at dropped
  rw [behind, dropped, ← List.drop_drop, rest, List.drop_drop]

theorem Laid.walk_all (laid : s.Laid) {cell : Nat → Nat → Walk → Except Stop Walk}
    {value : Nat × Nat → UInt32} (turn : ∀ y x (state : Walk), y < s.h.toNat → x < s.w.toNat →
        state.pixels.length = s.pixels.length →
        state.pDst = s.place (x, y) →
        state.pixels.drop (s.place (x, y)) = s.pixels.drop (s.place (x, y)) →
        cell y x state = .ok
            { state with
              pDst := s.place (x, y) + s.depth
              pixels :=
                splice state.pixels (s.place (x, y)) (pixelBytes s.depth (value (x, y))) }) :
    ∃ state, forLoop (fun y => forLoop (cell y) s.w.toNat 0) s.h.toNat 0
          ⟨0, 0, s.pixels⟩ = .ok state ∧
        Painted s.pixels state.pixels s.depth s.place
          (fun point => pixelBytes s.depth (value point))
          (InBox 0 0 s.w.toNat s.h.toNat) := by
  refine @forLoop_box _ Walk Walk UInt8 Walk.pixels Walk.pixels s.pixels
    s.pitch.toNat s.depth s.w.toNat s.h.toNat 0 0 s.w.toNat s.h.toNat _ _ cell
    (fun y state =>
      y < s.h.toNat → state.pDst = s.place (0, y) ∧
          state.pixels.drop (s.place (0, y)) = s.pixels.drop (s.place (0, y)))
    (fun y x state =>
      state.pDst = s.place (x, y) ∧
        state.pixels.drop (s.place (x, y)) = s.pixels.drop (s.place (x, y)))
    ⟨0, 0, s.pixels⟩ laid.sound.wide laid.array.ge (by omega) (by omega)
    (fun _ => length_pixelBytes _ _) ?_ rfl ?_ ?_
  · intro _
    refine ⟨?_, rfl⟩
    simp [place, cellPlace]
  · intro y state row kept
    refine ⟨state, rfl, kept row, ?_⟩
    rintro leaving looped ⟨reached, rest⟩
    refine ⟨leaving, looped, rfl, fun next => ?_⟩
    rw [laid.place_next next] at reached rest
    exact ⟨reached, rest⟩
  · rintro y x state row column length ⟨reached, rest⟩
    rw [Nat.zero_add, Nat.zero_add]
    refine ⟨_, turn y x state row column length reached rest, rfl, place_step s, ?_⟩
    exact laid.sound.drop_splice column row length rest

end Walks

/-! ## Alpha -/

section Scaling

variable {same : Bool} {w h : UInt16}

theorem scaledPoint_lt (scalable : ss.Scalable ds) {point : Nat × Nat}
    (column : point.1 < ds.w.toNat) (row : point.2 < ds.h.toNat) :
    (ss.scaledPoint ds point).1 < ss.w.toNat ∧ (ss.scaledPoint ds point).2 < ss.h.toNat := by
  obtain ⟨wide, high⟩ := scalable.nonempty
  refine ⟨Nat.div_lt_of_lt_mul ?_, Nat.div_lt_of_lt_mul ?_⟩
  · exact Nat.mul_lt_mul_of_pos_right column wide
  · exact Nat.mul_lt_mul_of_pos_right row high

theorem uintResult_div {x size sizeDst : Nat} (below : x < sizeDst)
    (fits : sizeDst * size < 2 ^ 32) :
    uintResult ((x : Int) * size) / (sizeDst : Int) = (x * size / sizeDst : Nat) := by
  have product : x * size < 2 ^ 32 := (Nat.mul_le_mul_right size below.le).trans_lt fits
  rw [← Nat.cast_mul, uintResult_of_lt (by omega) (by omega)]
  rfl

theorem Laid.scalePixel_eq (laidDst : ds.Laid) (laidSrc : ss.Laid) (scalable : ss.Scalable ds)
    {x y : Nat} {state : Walk} (row : y < ds.h.toNat) (column : x < ds.w.toNat)
    (length : state.pixels.length = ds.pixels.length) (reached : state.pDst = ds.place (x, y)) :
    ss.scalePixel ds same y x state = .ok
        { state with
          pDst := ds.place (x, y) + ds.depth
          pixels :=
            splice state.pixels (ds.place (x, y)) (pixelBytes ds.depth
                (ds.carried ss same (ss.scaledPoint ds (x, y)))) } := by
  obtain ⟨columnSrc, rowSrc⟩ := @scaledPoint_lt ds ss scalable (x, y) column row
  have inside := @Sound.place_inside ds laidDst.sound (x, y) column row
  have insideSrc := laidSrc.sound.place_inside columnSrc rowSrc
  have part := laidSrc.part_le columnSrc.le
  have pitch := laidSrc.pitch_lt
  have rowLt := laidSrc.sound.row_lt rowSrc
  rw [← length] at inside
  have offsetSrc : uintResult (uintResult ((y : Int) * ss.h.toNat) / ds.h.toNat * ss.pitch.toNat) +
          uintResult (uintResult ((x : Int) * ss.w.toNat) / ds.w.toNat * ss.depth) =
        (ss.place (ss.scaledPoint ds (x, y)) : Nat) := by
    rw [uintResult_div row scalable.rows, uintResult_div column scalable.columns,
      ← Nat.cast_mul, ← Nat.cast_mul]
    change uintResult ((ss.scaledPoint ds (x, y)).2 * ss.pitch.toNat : Nat) +
          uintResult ((ss.scaledPoint ds (x, y)).1 * ss.depth : Nat) = _
    rw [uintResult_of_lt (by omega) (by omega),
      uintResult_of_lt (by omega) (by omega), ← Nat.cast_add]
    rfl
  unfold scalePixel
  simp only [offsetSrc, laidSrc.sound.getPixel_eq insideSrc, ok_bind, reached,
    laidDst.sound.putPixel_eq inside]
  rfl

theorem Laid.scaleLoop (laidDst : ds.Laid) (laidSrc : ss.Laid) (scalable : ss.Scalable ds)
    (kept : same = true → sameFormat ss.format ds.format) :
    ss.Scales ds (ss.scaleLoop ds same) := by
  obtain ⟨state, looped, painted⟩ :=
    @Laid.walk_all ds laidDst (ss.scalePixel ds same)
      (fun point => ds.carried ss same (ss.scaledPoint ds point))
      fun y x state row column length reached _ =>
        laidDst.scalePixel_eq laidSrc scalable row column length reached
  refine ⟨state.pixels, same, ?_, kept, painted⟩
  rw [Surface.scaleLoop, looped]
  rfl

theorem Copies.scales {outcome : Except Stop Surface} (copies : ds.Copies ss outcome)
    (unscaled : ss.Unscaled ds) : ss.Scales ds outcome := by
  obtain ⟨pixels, copied, painted⟩ := copies
  refine ⟨pixels, sameFormat ss.format ds.format, copied, id,
    (painted.congr_value fun point inBox => ?_).congr fun point => ?_⟩
  · have column := unscaled.1 point.1 (by unfold InBox at inBox; omega)
    have row := unscaled.2 point.2 (by unfold InBox at inBox; omega)
    simp only [scaledPoint, column.2, row.2]
  · have column := unscaled.1 point.1
    have row := unscaled.2 point.2
    unfold InBox
    omega

theorem Laid.scaleTo (laidDst : ds.Laid) (laidSrc : ss.Laid) (scalable : ss.Scalable ds)
    (kept : same = true → sameFormat ss.format ds.format)
    (unscaled : ss.w = w.toUInt32 ∧ ss.h = h.toUInt32 → ss.Unscaled ds) :
    ss.Scales ds (ss.scaleTo ds same w h) := by
  unfold Surface.scaleTo
  split
  case isTrue asked => exact (laidDst.copies laidSrc).scales (unscaled asked)
  case isFalse => exact laidDst.scaleLoop laidSrc scalable kept

end Scaling

end Surface

end Agar.Gui
