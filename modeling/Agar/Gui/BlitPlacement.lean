import Agar.Gui.SurfaceBlit

namespace Agar.Gui

open Agar.Lib
open Agar.Core

/-!
# Where pixels are copied to

A blit of an opaque source is exact where both directions are straight.  The
converse is about all surfaces of the same layout, whatever their pixels and
colours are: what is copied from or to a wrong place is seen with some of them.
-/

namespace Surface

/-- A source has no colour key and no alpha. -/
structure Plain (s : Surface) : Prop where
  noColorKey : s.flags &&& srcColorKey = 0
  noAlpha : s.flags &&& srcAlpha = 0
  isOpaque : s.format.alpha = alphaOpaque

/-- The bytes that a pixel of the source becomes in the destination -/
def converted (ss ds : Surface) (pixel : UInt32) : List UInt8 :=
  pixelBytes ds.depth (ds.format.mapColorRGB (ss.format.getColorRGBA pixel))

/--
A pixel of the destination lies in the clipping rectangle, and belongs to a
pixel of the source that lies in the source rectangle.
-/
def BlitWanted (ss : Surface) (srcRect : Option Rect) (ds : Surface) (xDst yDst : CInt .int)
    (point : Nat × Nat) : Prop :=
  (ss.across srcRect ds xDst).Wanted point.1 ∧ (ss.down srcRect ds yDst).Wanted point.2

/-- What a pixel of the destination is to become -/
def blitValue (ss : Surface) (srcRect : Option Rect) (ds : Surface) (xDst yDst : CInt .int)
    (point : Nat × Nat) : List UInt8 :=
  ss.converted ds <| ss.pixelAt (((ss.across srcRect ds xDst).sourceOf point.1).toNat,
        ((ss.down srcRect ds yDst).sourceOf point.2).toNat)

/-- Exactly the wanted pixels become those of the source. -/
def Blits (ss : Surface) (srcRect : Option Rect) (ds : Surface) (xDst yDst : CInt .int) : Prop :=
  ∃ pixels, ss.blit srcRect ds xDst yDst = .ok { ds with pixels } ∧
      Painted ds.pixels pixels ds.depth ds.place (ss.blitValue srcRect ds xDst yDst)
        (ss.BlitWanted srcRect ds xDst yDst)

/-- The places of the first columns in their rows are `int`s. -/
def ColumnsHeld (ss : Surface) (srcRect : Option Rect) (ds : Surface) (xDst : CInt .int) : Prop :=
  CType.int.Holds ((ss.across srcRect ds xDst).source * ss.depth) ∧
    CType.int.Holds ((ss.across srcRect ds xDst).target * ds.depth)

section Copies

variable {ss ds : Surface} {srcRect : Option Rect} {xDst yDst : CInt .int}

theorem length_converted (pixel : UInt32) : (ss.converted ds pixel).length = ds.depth :=
  length_pixelBytes _ _

theorem Plain.blitPixel_eq (plain : ss.Plain) (state : Blitting) : ss.blitPixel ds state = do
      let pixel ← getPixel ss.format ss.pixels state.pSrc
      let pixels ← putPixel ds.format state.pixels state.pDst
          (ds.format.mapColorRGB (ss.format.getColorRGBA pixel))
      return ⟨state.pSrc + ss.depth, state.pDst + ds.depth, pixels⟩ := by
  rw [blitPixel]
  congr 1
  funext pixel
  rw [if_neg fun keyed => keyed.1 plain.noColorKey, blitColor]
  simp only
  rw [if_neg (not_not_intro plain.isOpaque), if_neg fun blended => blended.2 plain.noAlpha]

theorem Plain.blitPixel_of_inside (plain : ss.Plain) (sound : ss.Sound) (soundDst : ds.Sound)
    {here there : Nat} {pixels : List UInt8} (inSource : here + ss.depth ≤ ss.pixels.length)
    (inTarget : there + ds.depth ≤ pixels.length) :
    ss.blitPixel ds ⟨here, there, pixels⟩ = .ok ⟨here + ss.depth, there + ds.depth,
        splice pixels there (ss.converted ds (pixelOf ((ss.pixels.drop here).take ss.depth)))⟩ := by
  rw [plain.blitPixel_eq, sound.getPixel_eq inSource, ok_bind,
    soundDst.putPixel_eq inTarget, ok_bind]
  rfl

theorem Plain.copies (plain : ss.Plain) (sound : ss.Sound) (soundDst : ds.Sound)
    {sx sy dx dy width height : Nat} (columns : sx + width ≤ ss.w.toNat)
    (rows : sy + height ≤ ss.h.toNat) (columnsDst : dx + width ≤ ds.w.toNat)
    (rowsDst : dy + height ≤ ds.h.toNat) (held : CType.int.Holds ((sx : Int) * ss.depth))
    (heldDst : CType.int.Holds ((dx : Int) * ds.depth)) :
    ∃ pixels, forLoop (ss.blitRow ds (sx, sy) (dx, dy) width) height 0 ds.pixels = .ok pixels ∧
        Painted ds.pixels pixels ds.depth ds.place (fun point =>
            ss.converted ds (ss.pixelAt (sx + (point.1 - dx), sy + (point.2 - dy))))
          (InBox dx dy width height) := by
  have narrow : (uintResult width).toNat = width := by
    have small := ss.w.toNat_lt
    rw [uintResult_of_lt (by omega) (by omega), Int.toNat_natCast]
  refine @forLoop_box Stop (List UInt8) Blitting UInt8 id Blitting.pixels
    ds.pixels ds.pitch.toNat ds.depth ds.w.toNat ds.h.toNat dx dy width height _
    (ss.blitRow ds (sx, sy) (dx, dy) width) (fun _ _ => ss.blitPixel ds)
    (fun _ _ => True)
    (fun y x state =>
      state.pSrc = (ss.place (sx + x, sy + y) : Nat) ∧
        state.pDst = (ds.place (dx + x, dy + y) : Nat))
    ds.pixels soundDst.wide soundDst.array.ge columnsDst rowsDst
    (fun _ => length_converted _) trivial rfl ?_ ?_
  · intro y pixels row _
    refine ⟨⟨ss.place (sx + 0, sy + y), ds.place (dx + 0, dy + y), pixels⟩, rfl,
      ⟨rfl, rfl⟩, fun left looped _ => ⟨left.pixels, ?_, rfl, trivial⟩⟩
    have here := sound.offset_eq (y := sy + y) (by omega) held
    have there := soundDst.offset_eq (y := dy + y) (by omega) heldDst
    push_cast at here there
    rw [blitRow, here, there]
    simp only [ok_bind]
    rw [narrow]
    rw [Nat.add_zero, Nat.add_zero] at looped
    rw [looped]
    rfl
  · rintro y x ⟨pSrc, pDst, pixels⟩ row column length ⟨rfl, rfl⟩
    have inSource : ss.place (sx + x, sy + y) + ss.depth ≤ ss.pixels.length :=
      sound.place_inside (by simp only; omega) (by simp only; omega)
    have inTarget : ds.place (dx + x, dy + y) + ds.depth ≤ ds.pixels.length :=
      soundDst.place_inside (by simp only; omega) (by simp only; omega)
    refine ⟨_, plain.blitPixel_of_inside sound soundDst inSource (length ▸ inTarget), ?_, ?_, ?_⟩
    · simp only [Nat.add_sub_cancel_left]
      rfl
    · simp only [place, cellPlace]
      push_cast
      ring
    · simp only [place, cellPlace]
      push_cast
      ring

theorem Plain.copies_shown {a d : Axis} (plain : ss.Plain) (sound : ss.Sound) (soundDst : ds.Sound)
    (inside : ds.clipRect.Inside ds.w.toNat ds.h.toNat) (isAcross : ss.across srcRect ds xDst = a)
    (isDown : ss.down srcRect ds yDst = d) (shownAcross : 0 < a.shown) (shownDown : 0 < d.shown)
    (held : ss.ColumnsHeld srcRect ds xDst) :
    ∃ pixels, forLoop (ss.blitRow ds (a.source, d.source) (a.target, d.target) a.shown)
          (uintResult d.shown).toNat 0 ds.pixels = .ok pixels ∧
        Painted ds.pixels pixels ds.depth ds.place (fun point =>
            ss.converted ds (ss.pixelAt
                ((a.source + (point.1 - a.target)).toNat, (d.source + (point.2 - d.target)).toNat)))
          (fun point =>
            (a.target ≤ point.1 ∧ point.1 < a.target + a.shown) ∧
              d.target ≤ point.2 ∧ point.2 < d.target + d.shown) := by
  have right : a.clip.val + a.clipSize.val ≤ ds.w.toNat := isAcross ▸ inside.right
  have bottom : d.clip.val + d.clipSize.val ≤ ds.h.toNat := isDown ▸ inside.bottom
  have wide : a.size = ss.w := isAcross ▸ rfl
  have high : d.size = ss.h := isDown ▸ rfl
  obtain ⟨sx, dx, width, sourceX, targetX, isWidth, endA, endTargetA⟩ :=
    Axis.exists_nats_of_shown (isAcross ▸ inside.left) shownAcross
  obtain ⟨sy, dy, height, sourceY, targetY, isHeight, endD, endTargetD⟩ :=
    Axis.exists_nats_of_shown (isDown ▸ inside.top) shownDown
  obtain ⟨heldSource, heldTarget⟩ := held
  rw [isAcross, sourceX] at heldSource
  rw [isAcross, targetX] at heldTarget
  rw [wide] at endA
  rw [high] at endD
  have small := ss.h.toNat_lt
  have low : (uintResult height).toNat = height := by
    rw [uintResult_of_lt (by omega) (by omega), Int.toNat_natCast]
  rw [sourceX, sourceY, targetX, targetY, isWidth, isHeight, low]
  have columnsDst : dx + width ≤ ds.w.toNat := by omega
  have rowsDst : dy + height ≤ ds.h.toNat := by omega
  obtain ⟨pixels, looped, painted⟩ :=
    plain.copies sound soundDst endA endD columnsDst rowsDst heldSource heldTarget
  refine ⟨pixels, looped, ?_⟩
  have sameBox (point : Nat × Nat) : ((dx : Int) ≤ point.1 ∧ (point.1 : Int) < dx + width) ∧
          (dy : Int) ≤ point.2 ∧ (point.2 : Int) < dy + height ↔
        InBox dx dy width height point := by
    unfold InBox
    omega
  refine (painted.congr sameBox).congr_value fun point inBox => ?_
  obtain ⟨⟨left, _⟩, top, _⟩ := inBox
  have column : ((sx : Int) + (point.1 - dx)).toNat = sx + (point.1 - dx) := by omega
  have row : ((sy : Int) + (point.2 - dy)).toNat = sy + (point.2 - dy) := by omega
  rw [column, row]

theorem blit_of_held (inside : ds.clipRect.Inside ds.w.toNat ds.h.toNat)
    (across : (ss.across srcRect ds xDst).Held) (down : (ss.down srcRect ds yDst).Held) :
    ss.blit srcRect ds xDst yDst = let a := ss.across srcRect ds xDst
      let d := ss.down srcRect ds yDst
      forLoop (ss.blitRow ds (a.source, d.source) (a.target, d.target) a.shown)
          (uintResult d.shown).toNat 0 ds.pixels >>= fun pixels =>
        .ok { ds with pixels } := by
  rw [blit, Axis.clipped_of_held inside.left inside.width across,
    Axis.clipped_of_held inside.top inside.height down]
  rfl

end Copies

end Surface

end Agar.Gui
