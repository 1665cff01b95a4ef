import Agar.Lib.CInteger

namespace Agar.Gui.Sensitivity

open Agar.Lib

/-!
# Where a widget is sensitive

A widget is sensitive to the cursor where its own rectangle and those of the
widgets around it in the window intersect.  The rectangles are intersected one
by one, in coordinates that wrap.
-/

/-! ## Rectangles -/

/-- `AG_Rect2` -/
structure Rect2 where
  x1 : Int
  y1 : Int
  w : Int
  h : Int
  x2 : Int
  y2 : Int
  deriving Repr, DecidableEq

/-- The intersection of two ranges: where it starts, its size, where it ends -/
def intersectRange (a1 a2 b1 b2 : Int) : Int × Int × Int :=
  let start := max a1 b1
  let size := CType.int.wrap (min a2 b2 - start)
  let size := if size < 0 then 0 else size
  (start, size, CType.int.wrap (start + size))

/-- `AG_RectIntersect2` -/
def rectIntersect2 (a b : Rect2) : Rect2 :=
  let (x1, w, x2) := intersectRange a.x1 a.x2 b.x1 b.x2
  let (y1, h, y2) := intersectRange a.y1 a.y2 b.y1 b.y2
  { x1, y1, w, h, x2, y2 }

/-- `AG_RectInside2` -/
def rectInside2 (r : Rect2) (x y : Int) : Bool := x ≥ r.x1 && y ≥ r.y1 && x < r.x2 && y < r.y2

/-! ## Widgets -/

/-- A range of pixels with its size, all of which an `int` holds -/
structure Measured (start size stop : Int) : Prop where
  starts : CType.int.Holds start
  sized : CType.int.Holds size
  stops : CType.int.Holds stop
  total : stop = start + size

/-- A widget, as far as it is sensitive -/
structure Widget where
  isWindow : Bool
  rSens : Rect2
  wide : Measured rSens.x1 rSens.w rSens.x2
  high : Measured rSens.y1 rSens.h rSens.y2

/-- The loop of `AG_WidgetSensitive`, over the ancestors that are left -/
def sensitiveLoop : List Widget → Rect2 → Rect2
  | [], rx => rx
  | wtParent :: rest, rx =>
    if wtParent.isWindow then rx else sensitiveLoop rest (rectIntersect2 rx wtParent.rSens)

/-- `AG_WidgetSensitive`, of a widget with its ancestors, the nearest one first -/
def widgetSensitive (wt : Widget) (ancestors : List Widget) (x y : Int) : Bool :=
  rectInside2 (sensitiveLoop ancestors wt.rSens) x y

/-- The ancestors of a widget below its window -/
def belowWindow (ancestors : List Widget) : List Widget :=
  ancestors.takeWhile fun wtParent => !wtParent.isWindow

/-! ## Ranges -/

/-- A range whose ends an `int` holds, and its size, if it has one -/
structure Spans (start stop : Int) : Prop where
  starts : CType.int.Holds start
  stops : CType.int.Holds stop
  narrow : stop - start ≤ CType.int.greatest

theorem Measured.spans {start size stop : Int} (measured : Measured start size stop) :
    Spans start stop := by
  refine ⟨measured.starts, measured.stops, ?_⟩
  have atMost := measured.sized.2
  rw [measured.total]
  omega

theorem Spans.holds_int {start stop : Int} (spans : Spans start stop) :
    (-2147483648 ≤ start ∧ start ≤ 2147483647) ∧
      (-2147483648 ≤ stop ∧ stop ≤ 2147483647) ∧ stop - start ≤ 2147483647 :=
  ⟨spans.starts, spans.stops, spans.narrow⟩

theorem int_wrap_eq (value : Int) : CType.int.wrap value =
      (value + 2147483648) % 4294967296 - 2147483648 := by
  unfold CType.wrap
  exact rfl

theorem spans_of_size {start stop size : Int} (spans : Spans start stop)
    (isSize : (if CType.int.wrap (stop - start) < 0 then 0 else CType.int.wrap (stop - start)) =
        size) :
    Spans start (CType.int.wrap (start + size)) ∧ ∀ x,
        (start ≤ x ∧ x < CType.int.wrap (start + size)) ↔ (start ≤ x ∧ x < stop) := by
  obtain ⟨low, high, narrow⟩ := spans.holds_int
  rw [int_wrap_eq] at isSize
  -- a range whose size wraps is empty, and so is the one that it is given
  have isStop : CType.int.wrap (start + size) = stop ∨
        (stop ≤ start ∧ CType.int.wrap (start + size) = start) := by
    rw [int_wrap_eq]
    split at isSize <;> omega
  rcases isStop with same | ⟨empty, same⟩
  · rw [same]
    exact ⟨spans, fun _ => Iff.rfl⟩
  · rw [same]
    refine ⟨⟨spans.starts, spans.starts, ?_⟩, fun x => ?_⟩
    · rw [Int.sub_self]
      exact CType.int.zero_le_greatest
    · omega

theorem intersectRange_spec {a1 a2 b1 b2 : Int} (first : Spans a1 a2) (second : Spans b1 b2) :
    Spans (intersectRange a1 a2 b1 b2).1 (intersectRange a1 a2 b1 b2).2.2 ∧ ∀ x,
        ((intersectRange a1 a2 b1 b2).1 ≤ x ∧ x < (intersectRange a1 a2 b1 b2).2.2) ↔
          (a1 ≤ x ∧ x < a2) ∧ (b1 ≤ x ∧ x < b2) := by
  have starts : CType.int.Holds (max a1 b1) :=
    ⟨le_max_of_le_left first.starts.1, max_le first.starts.2 second.starts.2⟩
  have stops : CType.int.Holds (min a2 b2) :=
    ⟨le_min first.stops.1 second.stops.1, min_le_of_left_le first.stops.2⟩
  have narrow : min a2 b2 - max a1 b1 ≤ CType.int.greatest := by
    have atMost := first.narrow
    omega
  obtain ⟨spans, inside⟩ := spans_of_size ⟨starts, stops, narrow⟩ rfl
  refine ⟨spans, fun x => (inside x).trans ?_⟩
  rw [max_le_iff, lt_min_iff, and_and_and_comm]

/-! ## Rectangles that intersect -/

theorem rectInside2_iff (r : Rect2) (x y : Int) : rectInside2 r x y = true ↔
      (r.x1 ≤ x ∧ x < r.x2) ∧ (r.y1 ≤ y ∧ y < r.y2) := by
  simp only [rectInside2, Bool.and_eq_true, decide_eq_true_eq, ge_iff_le]
  omega

theorem rectInside2_intersect {a b : Rect2} (wide : Spans a.x1 a.x2) (high : Spans a.y1 a.y2)
    (wideB : Spans b.x1 b.x2) (highB : Spans b.y1 b.y2) (x y : Int) :
    rectInside2 (rectIntersect2 a b) x y = true ↔
      rectInside2 a x y = true ∧ rectInside2 b x y = true := by
  rw [rectInside2_iff, rectInside2_iff, rectInside2_iff]
  unfold rectIntersect2
  dsimp only
  rw [(intersectRange_spec wide wideB).2 x, (intersectRange_spec high highB).2 y, and_and_and_comm]

theorem sensitiveLoop_spec (ancestors : List Widget) (rx : Rect2) (wide : Spans rx.x1 rx.x2)
    (high : Spans rx.y1 rx.y2) (x y : Int) :
    rectInside2 (sensitiveLoop ancestors rx) x y = true ↔ rectInside2 rx x y = true ∧
        ∀ wtParent ∈ belowWindow ancestors, rectInside2 wtParent.rSens x y = true := by
  induction ancestors generalizing rx with
  | nil => simp [sensitiveLoop, belowWindow]
  | cons wtParent rest ih =>
    unfold sensitiveLoop belowWindow
    rw [List.takeWhile_cons]
    cases window : wtParent.isWindow with
    | true => simp
    | false =>
      have wideParent := wtParent.wide.spans
      have highParent := wtParent.high.spans
      have following :=
        ih (rectIntersect2 rx wtParent.rSens) (intersectRange_spec wide wideParent).1
          (intersectRange_spec high highParent).1
      rw [if_neg Bool.false_ne_true, following,
        rectInside2_intersect wide high wideParent highParent, and_assoc]
      simp [belowWindow]

/--
A widget is sensitive to a point inside its own rectangle and the one of each
ancestor below the window, and to no other point.
-/
theorem widgetSensitive_iff (wt : Widget) (ancestors : List Widget) (x y : Int) :
    widgetSensitive wt ancestors x y = true ↔ rectInside2 wt.rSens x y = true ∧
        ∀ wtParent ∈ belowWindow ancestors, rectInside2 wtParent.rSens x y = true :=
  sensitiveLoop_spec ancestors wt.rSens wt.wide.spans wt.high.spans x y

end Agar.Gui.Sensitivity
