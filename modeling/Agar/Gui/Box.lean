import Agar.Gui.WidgetSizes

namespace Agar.Gui

open Agar.Lib

/-!
# Boxes

A box places its children along its main axis, each as large as it requests,
or all of them alike if the box is homogenous.
-/

/-! ## The data model -/

/-- `enum ag_box_type` -/
inductive BoxType where
  | horiz
  | vert
  deriving Repr, DecidableEq

/-- `enum ag_box_align`, where left is top and right is bottom -/
inductive BoxAlign where
  | left
  | center
  | right
  deriving Repr, DecidableEq

/-- A box without its children -/
structure Box where
  type : BoxType
  homogenous : Bool
  padding : Int
  spacing : Int
  hAlign : BoxAlign
  vAlign : BoxAlign
  deriving Repr, DecidableEq

namespace Box

/-! ## Requests -/

/-- The loop of `CountChildWidgets`, which counts the children that are left -/
def countLoop (box : Box) : List Widget → Nat → Int → Nat × Int
  | [], count, fixed => (count, fixed)
  | chld :: rest, count, fixed =>
    let r := chld.sizeReq
    let fixed :=
      match box.type with
      | .horiz => if chld.hfill then fixed else fixed + r.w
      | .vert => if chld.vfill then fixed else fixed + r.h
    box.countLoop rest (count + 1) (fixed + box.spacing)

/-- `CountChildWidgets`: their number and `totFixed` -/
def countChildWidgets (box : Box) (children : List Widget) : Nat × Int :=
  let (count, fixed) := box.countLoop children 0 0
  if 0 < count ∧ box.spacing ≤ fixed then (count, fixed - box.spacing) else (count, fixed)

/-- The loop of `SizeRequest`, over the children that are left -/
def requestLoop (box : Box) : List Widget → Int → Int → SizeReq → SizeReq
  | [], _, _, r => r
  | chld :: rest, wMax, hMax, r =>
    let rChld := chld.sizeReq
    let wMax := if wMax < rChld.w then rChld.w else wMax
    let hMax := if hMax < rChld.h then rChld.h else hMax
    let r : SizeReq :=
      match box.type with
      | .horiz =>
        { h := max r.h (hMax + box.padding * 2)
          w := r.w + (rChld.w + box.spacing) }
      | .vert =>
        { w := max r.w (wMax + box.padding * 2)
          h := r.h + (rChld.h + box.spacing) }
    box.requestLoop rest wMax hMax r

/-- `SizeRequest` -/
def sizeRequest (box : Box) (children : List Widget) : SizeReq :=
  let (nWidgets, _) := box.countChildWidgets children
  let r :=
    box.requestLoop children 0 0
      { w := box.padding * 2, h := box.padding * 2 }
  if 0 < nWidgets then
    match box.type with
    | .horiz => if box.spacing ≤ r.w then { r with w := r.w - box.spacing } else r
    | .vert => if box.spacing ≤ r.h then { r with h := r.h - box.spacing } else r
  else r

/-! ## Allocations of a homogenous box -/

/-- The allocation of the next child -/
def homogenousAlloc (box : Box) (a : SizeAlloc) (wSize : Int) (aChld : SizeAlloc) : SizeAlloc :=
  { aChld with
    w := if box.type = .horiz then wSize else a.w - box.padding * 2
    h := if box.type = .vert then wSize else a.h - box.padding * 2 }

/--
The loop of `SizeAllocateHomogenous`.  `chldLast` is set in the last turn only,
so that the last child is compensated there.
-/
def homogenousLoop (box : Box) (a : SizeAlloc)
    (wSize avail : Int) : List Widget → SizeAlloc → Int → List Widget
  | [], _, _ => []
  | chld :: rest, aChld, totUsed =>
    let aChld := box.homogenousAlloc a wSize aChld
    let chld := chld.sizeAlloc aChld
    let aChld := aChld.given
    if chld.undersize then chld :: box.homogenousLoop a wSize avail rest aChld totUsed
    else
      let totUsed := totUsed + ((if box.type = .horiz then aChld.w else aChld.h) + 1)
      if rest.isEmpty then
        if totUsed < avail then
          match box.type with
          | .vert => [chld.sizeAlloc { aChld with h := aChld.h + (avail - totUsed) }]
          | .horiz => [chld.sizeAlloc { aChld with w := aChld.w + (avail - totUsed) }]
        else [chld]
      else
        let aChld :=
          if box.type = .horiz then { aChld with x := aChld.x + (aChld.w + 1) }
          else { aChld with y := aChld.y + (aChld.h + 1) }
        chld :: box.homogenousLoop a wSize avail rest aChld totUsed

/-- `SizeAllocateHomogenous` -/
def sizeAllocateHomogenous (box : Box) (a : SizeAlloc) (nWidgets : Nat)
    (children : List Widget) : List Widget :=
  let avail := (if box.type = .horiz then a.w else a.h) - box.padding * 2
  let wSize := (avail - nWidgets - 1).tdiv nWidgets
  box.homogenousLoop a wSize avail children
    { x := box.padding, y := box.padding, w := 0, h := 0 } 0

/-! ## Allocations -/

/-- The allocation of the next child, at `x` and `y` -/
def childAlloc (box : Box) (a : SizeAlloc) (totFixed wAvail hAvail x y : Int)
    (chld : Widget) : SizeAlloc :=
  let rChld := chld.sizeReq
  match box.type with
  | .horiz =>
    let w := if chld.hfill then wAvail - totFixed else min rChld.w wAvail
    let h := if chld.vfill then hAvail else min hAvail rChld.h
    let w := if a.w < x + w then a.w - x else w
    let y :=
      match box.vAlign with
      | .left => y
      | .center => hAvail.tdiv 2 - h.tdiv 2
      | .right => hAvail - h
    { x, y, w, h }
  | .vert =>
    let w := if chld.hfill then wAvail else min wAvail rChld.w
    let h := if chld.vfill then hAvail - totFixed else min rChld.h hAvail
    let h := if a.h < y + h then a.h - y else h
    let x :=
      match box.hAlign with
      | .left => x
      | .center => wAvail.tdiv 2 - w.tdiv 2
      | .right => wAvail - w
    { x, y, w, h }

/-- The loop of `SizeAllocate`, over the children that are left -/
def allocateLoop (box : Box) (a : SizeAlloc)
    (totFixed wAvail hAvail : Int) : List Widget → Int → Int → List Widget
  | [], _, _ => []
  | chld :: rest, x, y =>
    let aChld := box.childAlloc a totFixed wAvail hAvail x y chld
    let chld := chld.sizeAlloc aChld
    let aChld := aChld.given
    let (x, y) :=
      match box.type with
      | .horiz => (x + (aChld.w + box.spacing), y)
      | .vert => (x, y + (aChld.h + box.spacing))
    chld :: box.allocateLoop a totFixed wAvail hAvail rest x y

/-- `SizeAllocate`: the children with what they are allocated -/
def sizeAllocate (box : Box) (a : SizeAlloc) (children : List Widget) : List Widget :=
  let (nWidgets, totFixed) := box.countChildWidgets children
  if nWidgets = 0 then children
  else if box.homogenous then box.sizeAllocateHomogenous a nWidgets children
  else
    let wAvail := a.w - box.padding * 2
    let hAvail := a.h - box.padding * 2
    let x :=
      if totFixed < wAvail then
        match box.hAlign with
        | .left => box.padding
        | .center => wAvail.tdiv 2 - totFixed.tdiv 2
        | .right => wAvail - totFixed
      else box.padding
    let y :=
      if totFixed < wAvail then
        match box.vAlign with
        | .left => box.padding
        | .center => hAvail.tdiv 2 - totFixed.tdiv 2
        | .right => hAvail - totFixed
      else box.padding
    box.allocateLoop a totFixed wAvail hAvail children x y

/-! ## The main axis -/

/-- What a child takes up of the main axis -/
def along (box : Box) (a : SizeAlloc) : Segment :=
  match box.type with
  | .horiz => ⟨a.x, a.w⟩
  | .vert => ⟨a.y, a.h⟩

/-- What a child takes up of the other axis -/
def across (box : Box) (a : SizeAlloc) : Segment :=
  match box.type with
  | .horiz => ⟨a.y, a.h⟩
  | .vert => ⟨a.x, a.w⟩

/-- The children on the main axis -/
def segments (box : Box) (children : List Widget) : List Segment :=
  children.map fun chld => box.along chld.alloc

section

variable (box : Box)

@[simp] theorem segments_nil : box.segments [] = [] := rfl

@[simp] theorem segments_cons (chld : Widget) (children : List Widget) :
    box.segments (chld :: children) = box.along chld.alloc :: box.segments children :=
  rfl

theorem countLoop_fst (children : List Widget) (count : Nat) (fixed : Int) :
    (box.countLoop children count fixed).1 = count + children.length := by
  induction children generalizing count fixed with
  | nil => rfl
  | cons chld rest ih =>
    rw [countLoop, ih, List.length_cons]
    omega

theorem countChildWidgets_fst (children : List Widget) :
    (box.countChildWidgets children).1 = children.length := by
  have counted := box.countLoop_fst children 0 0
  rw [Nat.zero_add] at counted
  unfold countChildWidgets
  rcases loop : box.countLoop children 0 0 with ⟨count, fixed⟩
  rw [loop] at counted
  dsimp only at counted ⊢
  split_ifs <;> exact counted

end

end Box

end Agar.Gui
