import Agar.Gui.SurfaceBuilding

namespace Agar.Gui

open Agar.Lib
open Agar.Core

/-!
# Surfaces that are copied

`AG_SurfaceCopy` goes through both surfaces with pointers, and adds to each
what its rows have behind the part that is copied.  Between surfaces that are
laid out it copies each pixel that both have to its own place.
-/

namespace Surface

/-! ## What is copied -/

/-- The pixel that another surface gives to this one, as it is or converted -/
def carried (ds ss : Surface) (same : Bool) (point : Nat × Nat) : UInt32 :=
  if same then ss.pixelAt point
  else ds.format.mapColorRGBA (ss.format.getColorRGBA (ss.pixelAt point))

/-- The pixels that both have are copied to their places, and no other byte changes. -/
def Copies (ds ss : Surface) (outcome : Except Stop Surface) : Prop :=
  ∃ pixels, outcome = .ok { ds with pixels } ∧ Painted ds.pixels pixels ds.depth ds.place
        (fun point => pixelBytes ds.depth (ds.carried ss (sameFormat ss.format ds.format) point))
        (InBox 0 0 (min ds.w.toNat ss.w.toNat) (min ds.h.toNat ss.h.toNat))

variable {ds ss s : Surface}

theorem depth_of_sameFormat (made : ss.format.Made) (madeDst : ds.format.Made)
    (same : sameFormat ss.format ds.format) : ss.depth = ds.depth := by
  simp only [sameFormat, Bool.and_eq_true, decide_eq_true_eq] at same
  obtain ⟨-, ⟨⟨⟨⟨⟨bits, -⟩, -⟩, -⟩, -⟩, -⟩⟩ := same
  rw [depth, depth, made.bytes, madeDst.bytes, bits]

theorem Sound.take_drop_eq (sound : s.Sound) {point : Nat × Nat} (column : point.1 < s.w.toNat)
    (row : point.2 < s.h.toNat) :
    (s.pixels.drop (s.place point)).take s.depth = pixelBytes s.depth (s.pixelAt point) := by
  have inside := sound.place_inside column row
  have length : ((s.pixels.drop (s.place point)).take s.depth).length = s.depth := by
    rw [List.length_take, List.length_drop]
    omega
  have same :=
    pixelBytes_pixelOf ((s.pixels.drop (s.place point)).take s.depth)
      (length.trans_le sound.depth.2)
  rw [length] at same
  exact same.symm

theorem Laid.part_le (laid : s.Laid) {width : Nat} (narrow : width ≤ s.w.toNat) :
    width * s.depth ≤ s.pitch.toNat :=
  (Nat.mul_le_mul_right _ narrow).trans laid.sound.wide

theorem Laid.pitch_lt (laid : s.Laid) : s.pitch.toNat < 2 ^ 31 := by
  have row := laid.fits.row
  have rounded := (le_roundedUp (s.w.toNat * s.depth)).2
  have most := laid.most
  change s.w.toNat * s.depth + 3 < 2 ^ 31 at row
  omega

/-! ## Paddings -/

theorem Laid.padding_eq (laid : s.Laid) {width : Nat} {skipped : UInt32}
    (narrow : width ≤ s.w.toNat) (skips : skipped.toNat = (s.w.toNat - width) * s.depth) :
    CType.int.wrap (skipped + s.padding).toNat =
      (s.pitch.toNat : Int) - (width * s.depth : Nat) := by
  have row := laid.fits.row
  have rounded := (le_roundedUp (s.w.toNat * s.depth)).2
  have most := laid.most
  have pitch := laid.pitch
  have part : width * s.depth ≤ s.w.toNat * s.depth := Nat.mul_le_mul_right _ narrow
  change s.w.toNat * s.depth + 3 < 2 ^ 31 at row
  rw [Nat.sub_mul] at skips
  have sum : (skipped + s.padding).toNat = s.pitch.toNat - width * s.depth := by
    rw [UInt32.toNat_add, skips]
    exact (Nat.mod_eq_of_lt (by omega)).trans (by omega)
  rw [sum, Nat.cast_sub (by omega)]
  exact CType.wrap_of_holds (int_holds_iff.mpr (by omega))

theorem Laid.skipped_eq (laid : s.Laid) {w : UInt32} (narrow : w ≤ s.w) :
    ((s.w - w) * s.format.bytesPerPixel.toUInt32).toNat = (s.w.toNat - w.toNat) * s.depth := by
  have row := laid.fits.row
  have part : (s.w.toNat - w.toNat) * s.depth ≤ s.w.toNat * s.depth :=
    Nat.mul_le_mul_right _ (Nat.sub_le _ _)
  change s.w.toNat * s.depth + 3 < 2 ^ 31 at row
  rw [UInt32.toNat_mul, UInt32.toNat_sub_of_le _ _ narrow, UInt8.toNat_toUInt32]
  exact Nat.mod_eq_of_lt (by unfold depth at *; omega)

theorem Laid.copyPaddings_eq (laidDst : ds.Laid) (laidSrc : ss.Laid) : ds.copyPaddings ss =
      ((ds.pitch.toNat : Int) - (min ds.w.toNat ss.w.toNat * ds.depth : Nat),
        (ss.pitch.toNat : Int) - (min ds.w.toNat ss.w.toNat * ss.depth : Nat)) := by
  have nothing (t : Surface) : (0 : UInt32).toNat = (t.w.toNat - t.w.toNat) * t.depth := by
    rw [Nat.sub_self, Nat.zero_mul]
    rfl
  have fromDst := @Laid.padding_eq ds laidDst (min ds.w.toNat ss.w.toNat)
  have fromSrc := @Laid.padding_eq ss laidSrc (min ds.w.toNat ss.w.toNat)
  unfold copyPaddings
  split_ifs with wider narrower
  · have below := UInt32.lt_iff_toNat_lt.mp wider
    rw [Nat.min_eq_right below.le] at fromDst fromSrc ⊢
    exact Prod.ext (fromDst below.le (laidDst.skipped_eq (UInt32.le_of_lt wider)))
      (fromSrc le_rfl (nothing ss))
  · have below := UInt32.lt_iff_toNat_lt.mp narrower
    rw [Nat.min_eq_left below.le] at fromDst fromSrc ⊢
    exact Prod.ext (fromDst le_rfl (nothing ds))
      (fromSrc below.le (laidSrc.skipped_eq (UInt32.le_of_lt narrower)))
  · have same : ds.w.toNat = ss.w.toNat := by
      rw [gt_iff_lt, UInt32.lt_iff_toNat_lt] at wider
      rw [UInt32.lt_iff_toNat_lt] at narrower
      omega
    rw [same, Nat.min_self] at fromDst fromSrc ⊢
    exact Prod.ext (fromDst le_rfl (same ▸ nothing ds)) (fromSrc le_rfl (nothing ss))

/-! ## Rows -/

section Rows

variable {width y x : Nat} {pixels : List UInt8}

theorem Laid.copyRow_eq (laidDst : ds.Laid) (laidSrc : ss.Laid) (depths : ss.depth = ds.depth)
    (columns : width ≤ ds.w.toNat) (columnsSrc : width ≤ ss.w.toNat) (row : y < ds.h.toNat)
    (rowSrc : y < ss.h.toNat) (length : pixels.length = ds.pixels.length) :
    ds.copyRow ss width (ds.pitch.toNat - (width * ds.depth : Nat))
        (ss.pitch.toNat - (width * ss.depth : Nat))
        ⟨(y * ss.pitch.toNat : Nat), (y * ds.pitch.toNat : Nat), pixels⟩ =
      .ok ⟨((y + 1) * ss.pitch.toNat : Nat), ((y + 1) * ds.pitch.toNat : Nat),
          splice pixels (y * ds.pitch.toNat)
            ((ss.pixels.drop (y * ss.pitch.toNat)).take (width * ds.depth))⟩ := by
  have part := laidDst.part_le columns
  have partSrc := laidSrc.part_le columnsSrc
  have pitch := laidDst.pitch_lt
  have pitchSrc := laidSrc.pitch_lt
  have inside : (y + 1) * ds.pitch.toNat ≤ pixels.length := by
    rw [length, laidDst.array]
    exact Nat.mul_le_mul_right _ row
  have insideSrc : (y + 1) * ss.pitch.toNat ≤ ss.pixels.length := by
    rw [laidSrc.array]
    exact Nat.mul_le_mul_right _ rowSrc
  rw [depths] at partSrc
  have held : CType.int.Holds ((width : Int) * ds.depth) := by
    rw [← Nat.cast_mul]
    exact int_holds_iff.mpr (by omega)
  have size : sizeT ((width : Int) * ds.depth) = width * ds.depth := by
    rw [← Nat.cast_mul, sizeT]
    omega
  rw [Nat.add_mul, Nat.one_mul] at inside insideSrc
  have pitchHeld : CType.int.Holds (ds.pitch.toNat : Int) := int_holds_iff.mpr (by omega)
  have pitchHeldSrc : CType.int.Holds (ss.pitch.toNat : Int) := int_holds_iff.mpr (by omega)
  have copied : copyBytes pixels (y * ds.pitch.toNat : Nat) ss.pixels
          (y * ss.pitch.toNat : Nat) (width * ds.depth) =
        .ok (splice pixels (y * ds.pitch.toNat) ((ss.pixels.drop (y * ss.pitch.toNat)).take
              (width * ds.depth))) := by
    rw [copyBytes, if_pos (by omega), Int.toNat_natCast, Int.toNat_natCast]
  have stepDst : (width : Int) * ds.depth +
          (ds.pitch.toNat - (width * ds.depth : Nat)) = ds.pitch.toNat := by
    rw [Nat.cast_mul]
    exact add_sub_cancel _ _
  have stepSrc : (width : Int) * ds.depth +
          (ss.pitch.toNat - (width * ds.depth : Nat)) = ss.pitch.toNat := by
    rw [Nat.cast_mul]
    exact add_sub_cancel _ _
  have next (t : Surface) : ((y * t.pitch.toNat : Nat) : Int) + t.pitch.toNat =
        ((y + 1) * t.pitch.toNat : Nat) := by
    rw [Nat.add_mul, Nat.one_mul, Nat.cast_add]
  unfold copyRow
  simp only [depths, intResult_of_holds held, ok_bind, size, copied,
    stepDst, stepSrc, intResult_of_holds pitchHeld,
    intResult_of_holds pitchHeldSrc, next]
  rfl

theorem Laid.convertPixel_eq (laidDst : ds.Laid) (laidSrc : ss.Laid) (column : x < ds.w.toNat)
    (columnSrc : x < ss.w.toNat) (row : y < ds.h.toNat) (rowSrc : y < ss.h.toNat)
    (length : pixels.length = ds.pixels.length) :
    ds.convertPixel ss ⟨ss.place (x, y), ds.place (x, y), pixels⟩ = .ok
        ⟨ss.place (x + 1, y), ds.place (x + 1, y), splice pixels (ds.place (x, y))
            (pixelBytes ds.depth (ds.carried ss false (x, y)))⟩ := by
  have step (t : Surface) : (t.place (x, y) : Int) + t.depth = t.place (x + 1, y) := by
    simp only [place, cellPlace]
    push_cast
    ring
  have inside := @Sound.place_inside ds laidDst.sound (x, y) column row
  rw [← length] at inside
  rw [convertPixel, laidSrc.sound.getPixel_eq (laidSrc.sound.place_inside columnSrc rowSrc),
    ok_bind]
  simp only
  rw [laidDst.sound.putPixel_eq inside, ok_bind, step, step]
  rfl

end Rows

/-! ## Copies -/

section Rows

variable {width height : Nat}

theorem Laid.copyRows (laidDst : ds.Laid) (laidSrc : ss.Laid) (depths : ss.depth = ds.depth)
    (columns : width ≤ ds.w.toNat) (columnsSrc : width ≤ ss.w.toNat) (rows : height ≤ ds.h.toNat)
    (rowsSrc : height ≤ ss.h.toNat) :
    ∃ state, forLoop (fun _ =>
            ds.copyRow ss width (ds.pitch.toNat - (width * ds.depth : Nat))
              (ss.pitch.toNat - (width * ss.depth : Nat)))
          height 0 ⟨0, 0, ds.pixels⟩ = .ok state ∧
        Painted ds.pixels state.pixels ds.depth ds.place
          (fun point => pixelBytes ds.depth (ds.carried ss true point))
          (InBox 0 0 width height) := by
  have looped :=
    @forLoop_ok _ _ (fun _ =>
        ds.copyRow ss width (ds.pitch.toNat - (width * ds.depth : Nat))
          (ss.pitch.toNat - (width * ss.depth : Nat)))
      height 0 ⟨0, 0, ds.pixels⟩
      (fun y state =>
        (state.pSrc = (y * ss.pitch.toNat : Nat) ∧ state.pDst = (y * ds.pitch.toNat : Nat)) ∧
          Painted ds.pixels state.pixels ds.depth ds.place
            (fun point => pixelBytes ds.depth (ds.carried ss true point))
            (InBox 0 0 width y))
      ⟨by simp only [Nat.zero_mul]; exact ⟨rfl, rfl⟩,
        Painted.start fun point inBox => by unfold InBox at inBox; omega⟩
      (by
        rintro y ⟨_, _, pixels⟩ - below ⟨⟨rfl, rfl⟩, painted⟩
        refine ⟨_, laidDst.copyRow_eq laidSrc depths columns columnsSrc (by omega)
            (by omega) painted.length, ⟨rfl, rfl⟩, ?_⟩
        have length : ((ss.pixels.drop (y * ss.pitch.toNat)).take
              (width * ds.depth)).length = width * ds.depth := by
          have part := laidSrc.part_le columnsSrc
          have inside : (y + 1) * ss.pitch.toNat ≤ ss.pixels.length := by
            rw [laidSrc.array]
            exact Nat.mul_le_mul_right _ (by omega)
          rw [Nat.add_mul, Nat.one_mul] at inside
          rw [depths] at part
          rw [List.length_take, List.length_drop]
          omega
        refine (painted.paint_row laidDst.sound.wide laidDst.array.ge columns
          (by omega) laidDst.sound.depth.1 (fun point inBox => ?_)
          (fun _ => length_pixelBytes _ _) length fun x column => ?_).congr fun point => ?_
        · unfold InBox at inBox
          omega
        · have cell :=
            @Sound.take_drop_eq ss laidSrc.sound (x, y) (by omega) (by omega)
          have step : (x + 1) * ds.depth ≤ width * ds.depth := Nat.mul_le_mul_right _ column
          rw [Nat.add_mul, Nat.one_mul] at step
          rw [List.drop_take, List.drop_drop, List.take_take, Nat.min_eq_left (by omega), ← depths]
          rw [carried, if_pos rfl]
          exact cell
        · unfold InBox
          omega)
  obtain ⟨state, computed, _, painted⟩ := looped
  rw [Nat.zero_add] at painted
  exact ⟨state, computed, painted⟩

theorem Laid.convertRows (laidDst : ds.Laid) (laidSrc : ss.Laid) (columns : width ≤ ds.w.toNat)
    (columnsSrc : width ≤ ss.w.toNat) (rows : height ≤ ds.h.toNat) (rowsSrc : height ≤ ss.h.toNat) :
    ∃ state, forLoop (fun _ =>
            ds.convertRow ss width (ds.pitch.toNat - (width * ds.depth : Nat))
              (ss.pitch.toNat - (width * ss.depth : Nat)))
          height 0 ⟨0, 0, ds.pixels⟩ = .ok state ∧
        Painted ds.pixels state.pixels ds.depth ds.place
          (fun point => pixelBytes ds.depth (ds.carried ss false point))
          (InBox 0 0 width height) := by
  refine @forLoop_box _ Walk Walk UInt8 Walk.pixels Walk.pixels ds.pixels
    ds.pitch.toNat ds.depth ds.w.toNat ds.h.toNat 0 0 width height _ _
    (fun _ _ => ds.convertPixel ss)
    (fun y state => state.pSrc = ss.place (0, y) ∧ state.pDst = ds.place (0, y))
    (fun y x state => state.pSrc = ss.place (x, y) ∧ state.pDst = ds.place (x, y))
    ⟨0, 0, ds.pixels⟩ laidDst.sound.wide laidDst.array.ge (by omega) (by omega)
    (fun _ => length_pixelBytes _ _) ?_ rfl ?_ ?_
  · simp [place, cellPlace]
  · rintro y ⟨_, _, pixels⟩ below ⟨rfl, rfl⟩
    refine ⟨⟨ss.place (0, y), ds.place (0, y), pixels⟩, rfl, ⟨rfl, rfl⟩, ?_⟩
    rintro ⟨_, _, pixels'⟩ looped ⟨rfl, rfl⟩
    have next (t : Surface) : (t.place (width, y) : Int) +
            (t.pitch.toNat - (width * t.depth : Nat)) = t.place (0, y + 1) := by
      simp only [place, cellPlace]
      push_cast
      ring
    refine ⟨⟨ss.place (0, y + 1), ds.place (0, y + 1), pixels'⟩, ?_, rfl, rfl, rfl⟩
    simp only [convertRow, Int.toNat_natCast, looped, ok_bind, next]
    rfl
  · rintro y x ⟨_, _, pixels⟩ row column length ⟨rfl, rfl⟩
    rw [Nat.zero_add, Nat.zero_add]
    exact ⟨_, laidDst.convertPixel_eq laidSrc (by omega) (by omega) (by omega)
        (by omega) length, rfl, rfl, rfl⟩

end Rows

theorem Laid.copies (laidDst : ds.Laid) (laidSrc : ss.Laid) : ds.Copies ss (ds.copy ss) := by
  have rows := laidDst.fits.rows
  have columnsFit : ds.w.toNat < 2 ^ 31 := by
    have part := laidDst.part_le le_rfl
    have pitch := laidDst.pitch_lt
    have grows : ds.w.toNat ≤ ds.w.toNat * ds.depth :=
      Nat.le_mul_of_pos_right _ laidDst.sound.depth.1
    omega
  have width : CType.int.wrap (min (ds.w.toNat : Int) ss.w.toNat) =
        (min ds.w.toNat ss.w.toNat : Nat) := by
    rw [← Nat.cast_min]
    exact CType.wrap_of_holds (int_holds_iff.mpr (by omega))
  have height : CType.int.wrap (min (ss.h.toNat : Int) ds.h.toNat) =
        (min ds.h.toNat ss.h.toNat : Nat) := by
    rw [← Nat.cast_min, Nat.min_comm]
    exact CType.wrap_of_holds (int_holds_iff.mpr (by omega))
  have columns := Nat.min_le_left ds.w.toNat ss.w.toNat
  have columnsSrc := Nat.min_le_right ds.w.toNat ss.w.toNat
  have rowsDst := Nat.min_le_left ds.h.toNat ss.h.toNat
  have rowsSrc := Nat.min_le_right ds.h.toNat ss.h.toNat
  unfold Copies copy
  simp only [laidDst.copyPaddings_eq laidSrc, width, height, Int.toNat_natCast]
  cases same : sameFormat ss.format ds.format with
  | true =>
    have depths := depth_of_sameFormat laidSrc.made laidDst.made same
    obtain ⟨state, looped, painted⟩ :=
      laidDst.copyRows laidSrc depths columns columnsSrc rowsDst rowsSrc
    refine ⟨state.pixels, ?_, painted⟩
    simp only [if_true, looped, ok_bind]
    rfl
  | false =>
    obtain ⟨state, looped, painted⟩ :=
      laidDst.convertRows laidSrc columns columnsSrc rowsDst rowsSrc
    refine ⟨state.pixels, ?_, painted⟩
    simp only [Bool.false_eq_true, if_false, looped, ok_bind]
    rfl

end Surface

end Agar.Gui
