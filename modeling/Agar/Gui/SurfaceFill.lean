import Agar.Gui.Surface

namespace Agar.Gui

open Agar.Lib
open Agar.Core

/-!
# Rectangles that are filled

`AG_FillRect` moves a rectangle that starts before the clipping rectangle to
its edge, and shortens it only where it ends behind the clipping rectangle, so
that what is cut off on the left and above is added on the right and below.
-/

/-! ## The function -/

/-- A rectangle that is clipped along one axis: where it starts, and its size -/
def fillAxis (start size clipStart clipSize : Int) : Except Stop (Int × Int) := do
  let start := if start < clipStart then clipStart else start
  let stop ← intResult (start + size)
  let clipStop ← intResult (clipStart + clipSize)
  if stop ≥ clipStop then return (start, ← intResult (clipStop - start)) else return (start, size)

namespace Surface

/-- The rectangle that `AG_FillRect` fills: both axes, each with start and size -/
def fillBox (su : Surface) : Option Rect → Except Stop ((Int × Int) × Int × Int)
  | some r => do
      let across ← fillAxis r.x.val r.w.val su.clipRect.x.val su.clipRect.w.val
      let down ← fillAxis r.y.val r.h.val su.clipRect.y.val su.clipRect.h.val
      return (across, down)
  | none => return ((su.clipRect.x.val, su.clipRect.w.val), (su.clipRect.y.val, su.clipRect.h.val))

/-- `AG_PUT_PIXEL2(su, r.x + x, r.y + y, px)` -/
def fillPixel (su : Surface) (px : UInt32) (left top : Int) (y x : Nat)
    (pixels : List UInt8) : Except Stop (List UInt8) := do
  let column ← intResult (left + x)
  let row ← intResult (top + y)
  putPixel su.format pixels (← su.offset column row) px

/-- `AG_FillRect` -/
def fillRect (su : Surface) (rDst : Option Rect) (C : Color) : Except Stop Surface := do
  let ((left, width), (top, height)) ← su.fillBox rDst
  let px := su.format.mapColorRGBA C
  let pixels ← forLoop (fun y => forLoop (su.fillPixel px left top y) width.toNat 0)
      height.toNat 0 su.pixels
  return { su with pixels }

end Surface

/-! ## What is filled -/

namespace Surface

/-- A pixel lies in the clipping rectangle and in the rectangle to be filled. -/
def Wanted (su : Surface) (rDst : Option Rect) (point : Nat × Nat) : Prop :=
  su.clipRect.Covers point.1 point.2 ∧ ∀ r, rDst = some r → r.Covers point.1 point.2

/--
A pixel lies in the clipping rectangle, and in the rectangle after it was moved
into the clipping rectangle without being shortened.
-/
def Reached (su : Surface) (rDst : Option Rect) (point : Nat × Nat) : Prop :=
  su.clipRect.Covers point.1 point.2 ∧ ∀ r, rDst = some r → (r.x.val ≤ point.1 ∧
        point.1 < max r.x.val su.clipRect.x.val + r.w.val) ∧
      r.y.val ≤ point.2 ∧ point.2 < max r.y.val su.clipRect.y.val + r.h.val

/-- Exactly the pixels in both rectangles are filled, and no other byte changes. -/
def Fills (su : Surface) (rDst : Option Rect) (C : Color) (outcome : Except Stop Surface) : Prop :=
  ∃ pixels, outcome = .ok { su with pixels } ∧ Painted su.pixels pixels su.depth su.place
        (fun _ => pixelBytes su.depth (su.format.mapColorRGBA C))
        (su.Wanted rDst)

/-- The ends of the rectangles are `int`s. -/
structure EndsHeld (su : Surface) (r : Rect) : Prop where
  right : CType.int.Holds (max r.x.val su.clipRect.x.val + r.w.val)
  bottom : CType.int.Holds (max r.y.val su.clipRect.y.val + r.h.val)
  clipRight : CType.int.Holds (su.clipRect.x.val + su.clipRect.w.val)
  clipBottom : CType.int.Holds (su.clipRect.y.val + su.clipRect.h.val)

/--
Numbers and places stay in `int`, and a pixel that the rectangle reaches only
because it was moved has the colour already.
-/
structure FillsSafely (su : Surface) (rDst : Option Rect) (C : Color) : Prop where
  ends : ∀ r, rDst = some r → su.EndsHeld r
  held : ∀ point, su.Reached rDst point →
      CType.int.Holds ((point.1 : Int) * su.depth) ∧ CType.int.Holds point.2
  already : ∀ point, su.Reached rDst point → ¬ su.Wanted rDst point →
      SegmentAt su.pixels (su.place point) (pixelBytes su.depth (su.format.mapColorRGBA C))

end Surface

/-! ## The rectangle -/

section Axis

variable {start size clipStart clipSize : Int}

theorem fillAxis_of_held (startHeld : CType.int.Holds start) (clipHeld : CType.int.Holds clipStart)
    (clipNonneg : 0 ≤ clipStart) (clipSized : 0 ≤ clipSize)
    (stops : CType.int.Holds (max start clipStart + size))
    (clipStops : CType.int.Holds (clipStart + clipSize)) :
    ∃ width, fillAxis start size clipStart clipSize = .ok (max start clipStart, width) ∧ ∀ x,
          max start clipStart ≤ x ∧ x < max start clipStart + width ↔
            (clipStart ≤ x ∧ x < clipStart + clipSize) ∧
              start ≤ x ∧ x < max start clipStart + size := by
  have moved : (if start < clipStart then clipStart else start) = max start clipStart := by
    split <;> omega
  have difference : CType.int.Holds (clipStart + clipSize - max start clipStart) := by
    rw [int_holds_iff] at startHeld clipHeld clipStops ⊢
    omega
  rw [fillAxis, moved, intResult_of_holds stops, intResult_of_holds clipStops]
  simp only [ok_bind, intResult_of_holds difference]
  split
  case isTrue =>
    refine ⟨_, rfl, fun x => ?_⟩
    omega
  case isFalse =>
    refine ⟨_, rfl, fun x => ?_⟩
    omega

theorem held_of_fillAxis {result : Int × Int}
    (computed : fillAxis start size clipStart clipSize = .ok result) :
    CType.int.Holds (max start clipStart + size) ∧ CType.int.Holds (clipStart + clipSize) := by
  have moved : (if start < clipStart then clipStart else start) = max start clipStart := by
    split <;> omega
  rw [fillAxis, moved, bind_eq_ok] at computed
  obtain ⟨stop, stops, rest⟩ := computed
  rw [bind_eq_ok] at rest
  obtain ⟨clipStop, clipStops, _⟩ := rest
  exact ⟨(intResult_eq_ok.mp stops).1, (intResult_eq_ok.mp clipStops).1⟩

end Axis

namespace Surface

variable {su : Surface} {rDst : Option Rect} {C : Color}

theorem reached_none (point : Nat × Nat) :
    su.Reached none point ↔ su.clipRect.Covers point.1 point.2 := by
  simp [Reached]

theorem reached_some (r : Rect) (point : Nat × Nat) : su.Reached (some r) point ↔
      su.clipRect.Covers point.1 point.2 ∧ (r.x.val ≤ point.1 ∧
          point.1 < max r.x.val su.clipRect.x.val + r.w.val) ∧
        r.y.val ≤ point.2 ∧ point.2 < max r.y.val su.clipRect.y.val + r.h.val := by
  simp [Reached]

theorem fillBox_of_held (inside : su.clipRect.Inside su.w.toNat su.h.toNat)
    (ends : ∀ r, rDst = some r → su.EndsHeld r) :
    ∃ left width top height, su.fillBox rDst = .ok ((left, width), (top, height)) ∧ 0 ≤ left ∧
          0 ≤ top ∧ ∀ point, InBox left.toNat top.toNat width.toNat height.toNat point ↔
                su.Reached rDst point := by
  cases rDst with
  | none =>
    refine ⟨_, _, _, _, rfl, inside.left, inside.top, fun point => ?_⟩
    have left := inside.left
    have top := inside.top
    rw [reached_none]
    unfold InBox Rect.Covers
    omega
  | some r =>
    have held := ends r rfl
    obtain ⟨width, across, columns⟩ :=
      fillAxis_of_held r.x.holds su.clipRect.x.holds inside.left inside.width
        held.right held.clipRight
    obtain ⟨height, down, rows⟩ :=
      fillAxis_of_held r.y.holds su.clipRect.y.holds inside.top inside.height
        held.bottom held.clipBottom
    have left := inside.left
    have top := inside.top
    refine ⟨max r.x.val su.clipRect.x.val, width,
      max r.y.val su.clipRect.y.val, height, ?_, le_max_of_le_right left,
      le_max_of_le_right top, fun point => ?_⟩
    · rw [fillBox, across, down]
      rfl
    · have column := columns point.1
      have row := rows point.2
      rw [reached_some]
      unfold InBox Rect.Covers
      omega

theorem ends_of_fillBox {box : (Int × Int) × Int × Int} (computed : su.fillBox rDst = .ok box) :
    ∀ r, rDst = some r → su.EndsHeld r := by
  rintro r rfl
  rw [fillBox, bind_eq_ok] at computed
  obtain ⟨across, acrossComputed, rest⟩ := computed
  rw [bind_eq_ok] at rest
  obtain ⟨down, downComputed, _⟩ := rest
  obtain ⟨right, clipRight⟩ := held_of_fillAxis acrossComputed
  obtain ⟨bottom, clipBottom⟩ := held_of_fillAxis downComputed
  exact { right, bottom, clipRight, clipBottom }

/-! ## The loops -/

section Loops

variable {px : UInt32} {left top width height : Int}

theorem reached_of_wanted {point : Nat × Nat} (wanted : su.Wanted rDst point) :
    su.Reached rDst point := by
  refine ⟨wanted.1, fun r isSome => ?_⟩
  have covered := wanted.2 r isSome
  unfold Rect.Covers at covered
  omega

theorem lt_of_reached (inside : su.clipRect.Inside su.w.toNat su.h.toNat) {point : Nat × Nat}
    (reached : su.Reached rDst point) : point.1 < su.w.toNat ∧ point.2 < su.h.toNat := by
  obtain ⟨⟨_, right⟩, _, bottom⟩ := reached.1
  have rightEnd := inside.right
  have bottomEnd := inside.bottom
  omega

theorem Sound.fillPixel_eq (sound : su.Sound) {x y : Nat} {pixels : List UInt8}
    (leftNonneg : 0 ≤ left) (topNonneg : 0 ≤ top) (column : left.toNat + x < su.w.toNat)
    (row : top.toNat + y < su.h.toNat)
    (held : CType.int.Holds (((left.toNat + x : Nat) : Int) * su.depth) ∧
        CType.int.Holds (top.toNat + y : Nat)) (length : pixels.length = su.pixels.length) :
    su.fillPixel px left top y x pixels = .ok
        (splice pixels (su.place (left.toNat + x, top.toNat + y)) (pixelBytes su.depth px)) := by
  have columnSame : left + x = (left.toNat + x : Nat) := by omega
  have rowSame : top + y = (top.toNat + y : Nat) := by omega
  obtain ⟨placeHeld, rowHeld⟩ := held
  have columnHeld : CType.int.Holds (left.toNat + x : Nat) := by
    have deep : (1 : Int) ≤ su.depth := by exact_mod_cast sound.depth.1
    have grows : ((left.toNat + x : Nat) : Int) ≤ (left.toNat + x : Nat) * su.depth :=
      le_mul_of_one_le_right (Int.natCast_nonneg _) deep
    rw [int_holds_iff] at placeHeld ⊢
    exact ⟨(by decide : (-2 ^ 31 : Int) ≤ 0).trans (Int.natCast_nonneg _),
      grows.trans_lt placeHeld.2⟩
  rw [fillPixel, columnSame, rowSame, intResult_of_holds columnHeld, intResult_of_holds rowHeld]
  simp only [ok_bind]
  rw [sound.offset_eq row placeHeld, ok_bind]
  exact sound.putPixel_eq (length ▸ sound.place_inside column row) px

theorem Sound.fill_loops (sound : su.Sound) (inside : su.clipRect.Inside su.w.toNat su.h.toNat)
    (leftNonneg : 0 ≤ left) (topNonneg : 0 ≤ top)
    (box : ∀ point, InBox left.toNat top.toNat width.toNat height.toNat point ↔
          su.Reached rDst point)
    (held : ∀ point, su.Reached rDst point → CType.int.Holds ((point.1 : Int) * su.depth) ∧
          CType.int.Holds point.2) :
    ∃ pixels, forLoop (fun y => forLoop (su.fillPixel px left top y) width.toNat 0)
          height.toNat 0 su.pixels = .ok pixels ∧
        Painted su.pixels pixels su.depth su.place
          (fun _ => pixelBytes su.depth px) (su.Reached rDst) := by
  by_cases empty : width.toNat = 0 ∨ height.toNat = 0
  · refine ⟨su.pixels, ?_, Painted.start fun point reached => ?_⟩
    · rcases empty with narrow | flat
      · rw [narrow]
        exact forLoop_idle fun _ => rfl
      · rw [flat]
        rfl
    · rw [← box] at reached
      unfold InBox at reached
      omega
  · have corner : su.Reached rDst
          (left.toNat + (width.toNat - 1), top.toNat + (height.toNat - 1)) := by
      rw [← box]
      unfold InBox
      omega
    obtain ⟨column, row⟩ := lt_of_reached inside corner
    simp only at column row
    obtain ⟨pixels, looped, painted⟩ :=
      @forLoop_box Stop (List UInt8) (List UInt8) UInt8 id id su.pixels su.pitch.toNat su.depth
        su.w.toNat su.h.toNat left.toNat top.toNat width.toNat height.toNat
        (fun _ => pixelBytes su.depth px)
        (fun y => forLoop (su.fillPixel px left top y) width.toNat 0)
        (su.fillPixel px left top) (fun _ _ => True) (fun _ _ _ => True)
        su.pixels sound.wide sound.array.ge (by omega) (by omega)
        (fun _ => length_pixelBytes _ _) trivial rfl
        (fun y state _ _ =>
          ⟨state, rfl, trivial, fun final looped _ => ⟨final, looped, rfl, trivial⟩⟩)
        (fun y x state rowIn columnIn length _ => by
          have reached : su.Reached rDst (left.toNat + x, top.toNat + y) := by
            rw [← box]
            unfold InBox
            omega
          exact ⟨_, sound.fillPixel_eq leftNonneg topNonneg (by omega)
            (by omega) (held _ reached) length, rfl, trivial⟩)
    exact ⟨pixels, looped, painted.congr fun point => (box point).symm⟩

theorem held_of_fill_loops {pixels : List UInt8} (leftNonneg : 0 ≤ left) (topNonneg : 0 ≤ top)
    (looped : forLoop (fun y => forLoop (su.fillPixel px left top y) width.toNat 0)
        height.toNat 0 su.pixels = .ok pixels) {point : Nat × Nat}
    (inBox : InBox left.toNat top.toNat width.toNat height.toNat point) :
    CType.int.Holds ((point.1 : Int) * su.depth) ∧ CType.int.Holds point.2 := by
  obtain ⟨⟨fromLeft, toRight⟩, fromTop, toBottom⟩ := inBox
  obtain ⟨_, _, _, rowLooped, _⟩ :=
    @forLoop_split _ _ _ _ _ _ _ (fun _ _ => True) looped trivial
      (fun _ _ _ _ _ _ _ => trivial) (point.2 - top.toNat) (Nat.zero_le _)
      (by omega)
  obtain ⟨_, _, _, filled, _⟩ :=
    @forLoop_split _ _ _ _ _ _ _ (fun _ _ => True) rowLooped trivial
      (fun _ _ _ _ _ _ _ => trivial) (point.1 - left.toNat) (Nat.zero_le _)
      (by omega)
  have columnSame : left + (point.1 - left.toNat : Nat) = point.1 := by omega
  have rowSame : top + (point.2 - top.toNat : Nat) = point.2 := by omega
  rw [fillPixel, columnSame, rowSame, bind_eq_ok] at filled
  obtain ⟨column, columnHeld, rest⟩ := filled
  rw [bind_eq_ok] at rest
  obtain ⟨row, rowHeld, last⟩ := rest
  rw [bind_eq_ok] at last
  obtain ⟨place, placed, _⟩ := last
  rw [offset, bind_eq_ok] at placed
  obtain ⟨inRow, inRowHeld, _⟩ := placed
  obtain ⟨_, rfl⟩ := intResult_eq_ok.mp columnHeld
  exact ⟨(intResult_eq_ok.mp inRowHeld).1, (intResult_eq_ok.mp rowHeld).1⟩

end Loops

/--
`AG_FillRect` fills exactly the pixels in both rectangles, if and only if its
numbers stay in `int` and each pixel has the colour already that the rectangle
reaches only because it was moved into the clipping rectangle.
-/
theorem fillRect_iff (sound : su.Sound) (inside : su.clipRect.Inside su.w.toNat su.h.toNat)
    (rDst : Option Rect) (C : Color) :
    su.Fills rDst C (su.fillRect rDst C) ↔ su.FillsSafely rDst C := by
  constructor
  · rintro ⟨pixels, filled, painted⟩
    have computed := filled
    rw [fillRect, bind_eq_ok] at computed
    obtain ⟨⟨⟨left, width⟩, top, height⟩, boxed, rest⟩ := computed
    rw [bind_eq_ok] at rest
    obtain ⟨pixels', looped, last⟩ := rest
    have same : pixels' = pixels := by
      have surfaces := Except.ok.inj last
      exact congrArg Surface.pixels surfaces
    subst same
    have ends := ends_of_fillBox boxed
    obtain ⟨left', width', top', height', boxedToo, leftNonneg, topNonneg, box⟩ :=
      fillBox_of_held inside ends
    rw [boxed] at boxedToo
    cases boxedToo
    have held : ∀ point, su.Reached rDst point → CType.int.Holds ((point.1 : Int) * su.depth) ∧
            CType.int.Holds point.2 := fun point reached =>
      held_of_fill_loops leftNonneg topNonneg looped ((box point).mpr reached)
    obtain ⟨pixels'', loopedToo, reaches⟩ :=
      @Sound.fill_loops su rDst (su.format.mapColorRGBA C) _ _ _ _ sound inside
        leftNonneg topNonneg box held
    rw [looped] at loopedToo
    cases loopedToo
    refine ⟨ends, held, fun point reached notWanted => ?_⟩
    refine reaches.already painted (fun _ => length_pixelBytes _ _)
      (fun point other reached wanted distinct => ?_) reached notWanted
    have column := (lt_of_reached inside reached).1
    have columnOther := (lt_of_reached inside (reached_of_wanted wanted)).1
    exact sound.place_apart column columnOther distinct
  · rintro ⟨ends, held, already⟩
    obtain ⟨left, width, top, height, boxed, leftNonneg, topNonneg, box⟩ :=
      fillBox_of_held inside ends
    obtain ⟨pixels, looped, painted⟩ :=
      @Sound.fill_loops su rDst (su.format.mapColorRGBA C) _ _ _ _ sound inside
        leftNonneg topNonneg box held
    refine ⟨pixels, ?_, painted.shrink (fun _ => length_pixelBytes _ _)
      (fun _ => reached_of_wanted) already⟩
    rw [fillRect, boxed, ok_bind]
    simp only
    rw [looped]
    rfl

theorem wanted_of_reached {r : Rect} (left : su.clipRect.x.val ≤ r.x.val)
    (top : su.clipRect.y.val ≤ r.y.val) {point : Nat × Nat} (reached : su.Reached (some r) point) :
    su.Wanted (some r) point := by
  obtain ⟨clipped, columns, rows⟩ := (reached_some r point).mp reached
  refine ⟨clipped, ?_⟩
  rintro _ ⟨⟩
  unfold Rect.Covers
  omega

def twoPixels (x : CInt .int) : Rect :=
  ⟨x, ⟨0, int_holds_zero⟩, ⟨2, int_holds_two⟩, ⟨1, int_holds_one⟩⟩

def red : Color := ⟨255, 0, 0, 255⟩

theorem fillRect_iff_blackRow : blackRow.Fills (some (twoPixels ⟨1, int_holds_one⟩)) red
      (blackRow.fillRect (some (twoPixels ⟨1, int_holds_one⟩)) red) := by
  refine (fillRect_iff blackRow_sound blackRow_inside _ _).mpr
    ⟨?_, fun point reached => ?_, fun point reached notWanted => ?_⟩
  · rintro _ ⟨⟩
    exact ⟨by decide, by decide, by decide, by decide⟩
  · obtain ⟨column, row⟩ := lt_of_reached blackRow_inside reached
    change point.1 < 4 at column
    change point.2 < 1 at row
    rw [int_holds_iff, int_holds_iff]
    change (_ ≤ (point.1 : Int) * 1 ∧ (point.1 : Int) * 1 < _) ∧ _
    omega
  · exact absurd (wanted_of_reached (by decide) (by decide) reached) notWanted

theorem not_fills_blackRow : ¬ blackRow.Fills (some (twoPixels ⟨-1, int_holds_neg_one⟩)) red
      (blackRow.fillRect (some (twoPixels ⟨-1, int_holds_neg_one⟩)) red) := by
  have ran : blackRow.fillRect (some (twoPixels ⟨-1, int_holds_neg_one⟩)) red =
        .ok { blackRow with pixels := [255, 255, 0, 0] } := by
    rfl
  rintro ⟨pixels, filled, painted⟩
  rw [ran] at filled
  have same : [255, 255, 0, 0] = pixels := congrArg Surface.pixels (Except.ok.inj filled)
  have kept := painted.kept 1 fun point wanted => by
    have covered := (wanted.2 _ rfl).1.2
    change (point.1 : Int) < -1 + 2 at covered
    have row := (lt_of_reached blackRow_inside (reached_of_wanted wanted)).2
    change point.2 < 1 at row
    right
    change point.2 * 4 + point.1 * 1 + 1 ≤ 1
    omega
  rw [← same] at kept
  cases kept

end Surface

end Agar.Gui
