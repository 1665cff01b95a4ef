import Agar.Gui.WidgetSizes

namespace Agar.Gui

open Agar.Lib

/-!
# Panes

A pane divides its allocation between two parts with a divider between them.
A position is requested for the divider, by the state of the pane, and limited
by the least sizes of the parts.
-/

/-! ## The data model -/

/-- `enum ag_pane_type` -/
inductive PaneType where
  | horiz
  | vert
  deriving Repr, DecidableEq

/-- `enum ag_pane_resize_action` -/
inductive ResizeAction where
  | expandDiv1
  | expandDiv2
  | divideEven
  | dividePct
  deriving Repr, DecidableEq

/-- One value for each part -/
structure Parts (α : Type) where
  first : α
  second : α

/-- A pane with its two parts and its own size -/
structure Pane where
  type : PaneType
  div1Fill : Bool
  div : Parts Widget
  wMin : Parts Int
  hMin : Parts Int
  wReq : Parts Int
  hReq : Parts Int
  dx : Int
  rx : Int
  rxPct : Int
  wDiv : Int
  resizeAction : ResizeAction
  w : Int
  h : Int

namespace Pane

/-! ## Allocations -/

/--
The position that is requested for the divider, and `rx`.  The pane is
allocated `size` of its axis, takes up `own` and its parts take up `parts`.
-/
def requestDx (pane : Pane) (size own : Int) (parts req : Parts Int) : Int × Int :=
  if pane.dx = 0 ∧ pane.rx = -1 then
    let dx :=
      if pane.div1Fill then size - req.second
      else if pane.rxPct ≠ -1 then (pane.rxPct * own).tdiv 100
      else req.first
    (dx, dx)
  else if parts.first + pane.wDiv + parts.second ≠ size then
    match pane.resizeAction with
    | .expandDiv1 => (size - (parts.second + pane.wDiv), pane.rx)
    | .expandDiv2 => (pane.dx, pane.rx)
    | .divideEven => (pane.dx + (size - (parts.first + pane.wDiv + parts.second)).tdiv 2, pane.rx)
    | .dividePct => ((pane.rxPct * own).tdiv 100, pane.rx)
  else (pane.dx, pane.rx)

/-- The limits of the position, of which one is applied -/
def limitDx (pane : Pane) (size : Int) (min : Parts Int) (dx rx : Int) : Int × Int :=
  if dx < min.first then (min.first, min.first)
  else if size - pane.wDiv < dx then (size - pane.wDiv, size - pane.wDiv)
  else if size - min.second < dx then (size - min.second, size - min.second)
  else (dx, rx)

/-- The places of the two parts of the pane -/
def allocParts (pane : Pane) (a : SizeAlloc) (dx : Int) : Parts SizeAlloc :=
  match pane.type with
  | .horiz =>
    { first := { x := 0, y := 0, w := dx, h := a.h }
      second := { x := dx + pane.wDiv, y := 0, w := a.w - dx - pane.wDiv, h := a.h } }
  | .vert =>
    { first := { x := 0, y := 0, w := a.w, h := dx }
      second := { x := 0, y := dx + pane.wDiv, w := a.w, h := a.h - dx - pane.wDiv } }

/-- `SizeAllocate` -/
def sizeAllocate (pane : Pane) (a : SizeAlloc) : Pane :=
  let position :=
    match pane.type with
    | .horiz =>
      let request :=
        pane.requestDx a.w pane.w ⟨pane.div.first.alloc.w, pane.div.second.alloc.w⟩ pane.wReq
      pane.limitDx a.w pane.wMin request.1 request.2
    | .vert =>
      let request :=
        pane.requestDx a.h pane.h ⟨pane.div.first.alloc.h, pane.div.second.alloc.h⟩ pane.hReq
      pane.limitDx a.h pane.hMin request.1 request.2
  let parts := pane.allocParts a position.1
  { pane with
    dx := position.1
    rx := position.2
    div :=
      { first := pane.div.first.sizeAlloc parts.first
        second := pane.div.second.sizeAlloc parts.second } }

/-- `AG_WidgetSizeAlloc` of a pane -/
def sizeAlloc (pane : Pane) (a : SizeAlloc) : Pane :=
  { pane with w := a.given.w, h := a.given.h }.sizeAllocate a.given

/-! ## The axis of the divider -/

section

variable (pane : Pane)

/-- What an allocation has of the axis -/
def along (a : SizeAlloc) : Int :=
  match pane.type with
  | .horiz => a.w
  | .vert => a.h

/-- The least sizes of the parts -/
def least : Parts Int :=
  match pane.type with
  | .horiz => pane.wMin
  | .vert => pane.hMin

/-- The sizes that the parts were last asked for -/
def requested : Parts Int :=
  match pane.type with
  | .horiz => pane.wReq
  | .vert => pane.hReq

/-- The sizes of the parts -/
def sizes : Parts Int := ⟨pane.along pane.div.first.alloc, pane.along pane.div.second.alloc⟩

/-- The position that an allocation of a size requests for the divider -/
def divider (size : Int) : Int := (pane.requestDx size size pane.sizes pane.requested).1

/-- The parts and the divider add up to the size, and no part is too small. -/
structure Divides (size : Int) : Prop where
  total : pane.sizes.first + pane.wDiv + pane.sizes.second = size
  first : pane.least.first ≤ pane.sizes.first
  second : pane.least.second ≤ pane.sizes.second

/--
A position for the divider that respects the least sizes: it is below the
least, or leaves room for the second part, or there is no least size of that,
or there is no divider and the position is in the pane.
-/
def Respects (size dx : Int) : Prop :=
  max 0 pane.least.first + pane.wDiv + max 0 pane.least.second ≤ size ∧
    (0 ≤ dx ∨ 0 ≤ pane.least.first) ∧
    (dx < pane.least.first ∨ (dx + pane.wDiv ≤ size ∧ dx + pane.least.second ≤ size ∧
        dx + pane.wDiv + pane.least.second ≤ size) ∨
      (pane.least.second ≤ 0 ∧ size < dx + pane.wDiv) ∨
      (pane.wDiv ≤ 0 ∧ dx + pane.wDiv ≤ size ∧ size < dx + pane.least.second ∧
        max 0 pane.least.first + pane.least.second ≤ size))

/-- The position of the divider after an allocation of a size -/
def limited (size : Int) : Int := (pane.limitDx size pane.least (pane.divider size) pane.rx).1

end

/-! ## Sizes of the parts -/

section

variable {pane : Pane} {a : SizeAlloc}

theorem limitDx_fst {size dx : Int} {min : Parts Int} (rx other : Int) :
    (pane.limitDx size min dx rx).1 = (pane.limitDx size min dx other).1 := by
  unfold limitDx
  split_ifs <;> rfl

theorem sizeAlloc_div : (pane.sizeAlloc a).div =
      { first :=
          pane.div.first.sizeAlloc
            (pane.allocParts a.given (pane.limited (pane.along a.given))).first
        second :=
          pane.div.second.sizeAlloc (pane.allocParts a.given
              (pane.limited (pane.along a.given))).second } := by
  rcases pane with
    ⟨_ | _, div1Fill, div, wMin, hMin, wReq, hReq, dx, rx, rxPct, wDiv, resizeAction, w, h⟩ <;>
    unfold sizeAlloc sizeAllocate limited <;>
    dsimp only <;>
    rw [limitDx_fst _ rx] <;>
    exact rfl

theorem sizes_of_pos (room : 0 < pane.along a.given) : (pane.sizeAlloc a).sizes =
      { first := max 0 (pane.limited (pane.along a.given))
        second :=
          max 0 (pane.along a.given - pane.limited (pane.along a.given) - pane.wDiv) } := by
  have areas := a.given_pos_or_empty
  have sameAxis : (pane.sizeAlloc a).along = pane.along := rfl
  unfold sizes
  rw [sameAxis, sizeAlloc_div]
  generalize pane.limited (pane.along a.given) = dx
  unfold along allocParts at *
  cases type : pane.type with
  | horiz =>
    simp only [type] at room ⊢
    rw [Widget.sizeAlloc_alloc, Widget.sizeAlloc_alloc,
      SizeAlloc.given_w_of_pos (by dsimp only; omega),
      SizeAlloc.given_w_of_pos (by dsimp only; omega)]
  | vert =>
    simp only [type] at room ⊢
    rw [Widget.sizeAlloc_alloc, Widget.sizeAlloc_alloc,
      SizeAlloc.given_h_of_pos (by dsimp only; omega),
      SizeAlloc.given_h_of_pos (by dsimp only; omega)]

theorem sizes_of_empty (none : pane.along a.given = 0) :
    (pane.sizeAlloc a).sizes = { first := 0, second := 0 } := by
  have areas := a.given_pos_or_empty
  have sameAxis : (pane.sizeAlloc a).along = pane.along := rfl
  unfold sizes
  rw [sameAxis, sizeAlloc_div]
  unfold along allocParts at *
  cases type : pane.type with
  | horiz =>
    simp only [type] at none ⊢
    rw [Widget.sizeAlloc_alloc, Widget.sizeAlloc_alloc,
      (SizeAlloc.given_of_empty (.inr (by dsimp only; omega))).1,
      (SizeAlloc.given_of_empty (.inr (by dsimp only; omega))).1]
  | vert =>
    simp only [type] at none ⊢
    rw [Widget.sizeAlloc_alloc, Widget.sizeAlloc_alloc,
      (SizeAlloc.given_of_empty (.inl (by dsimp only; omega))).2,
      (SizeAlloc.given_of_empty (.inl (by dsimp only; omega))).2]

/-! ## Limits -/

theorem limited_iff {size : Int} (fits : pane.least.first + pane.wDiv + pane.least.second ≤ size) :
    0 ≤ pane.limited size ∧ pane.least.first ≤ pane.limited size ∧
        pane.limited size + pane.wDiv ≤ size ∧
        pane.limited size + pane.wDiv + pane.least.second ≤ size ↔
      pane.Respects size (pane.divider size) := by
  unfold limited limitDx Respects
  split_ifs <;> dsimp only <;> omega

end

end Pane

/--
A pane that is allocated the least sizes and the divider is divided into them
exactly if the requested position of the divider respects the least sizes, or
it is allocated nothing and has none.
-/
theorem divides_iff (pane : Pane) (a : SizeAlloc)
    (fits : pane.least.first + pane.wDiv + pane.least.second ≤ pane.along a.given) :
    (pane.sizeAlloc a).Divides (pane.along a.given) ↔ (0 < pane.along a.given ∧
          pane.Respects (pane.along a.given) (pane.divider (pane.along a.given))) ∨
        (pane.along a.given = 0 ∧ pane.wDiv = 0 ∧ pane.least.first ≤ 0 ∧
          pane.least.second ≤ 0) := by
  have unfolded : (pane.sizeAlloc a).Divides (pane.along a.given) ↔
        (pane.sizeAlloc a).sizes.first + pane.wDiv +
              (pane.sizeAlloc a).sizes.second = pane.along a.given ∧
          pane.least.first ≤ (pane.sizeAlloc a).sizes.first ∧
          pane.least.second ≤ (pane.sizeAlloc a).sizes.second :=
    ⟨fun divides => ⟨divides.total, divides.first, divides.second⟩,
      fun parts => ⟨parts.1, parts.2.1, parts.2.2⟩⟩
  have nonneg : 0 ≤ pane.along a.given := by
    have areas := a.given_pos_or_empty
    unfold Pane.along
    cases pane.type <;> dsimp only <;> omega
  rw [unfolded]
  rcases nonneg.eq_or_lt with none | room
  · rw [Pane.sizes_of_empty none.symm]
    dsimp only
    omega
  · rw [Pane.sizes_of_pos room, ← Pane.limited_iff fits]
    dsimp only
    omega

def emptyPart : Widget where
  request := { w := 0, h := 0 }
  hfill := false
  vfill := false
  refuses := some fun _ => false
  alloc := { x := 0, y := 0, w := 0, h := 0 }
  undersize := false

def movedPane (dx : Int) : Pane where
  type := .horiz
  div1Fill := false
  div := ⟨emptyPart, emptyPart⟩
  wMin := ⟨0, 50⟩
  hMin := ⟨0, 0⟩
  wReq := ⟨0, 0⟩
  hReq := ⟨0, 0⟩
  dx := dx
  rx := dx
  rxPct := -1
  wDiv := 8
  resizeAction := .expandDiv2
  w := 100
  h := 100

theorem divides_iff_forty :
    ((movedPane 40).sizeAlloc { x := 0, y := 0, w := 100, h := 100 }).Divides 100 :=
  (divides_iff (movedPane 40) { x := 0, y := 0, w := 100, h := 100 }
    (by decide)).mpr (.inl (by unfold Pane.Respects; decide))

theorem second_part_too_small : (movedPane 60).least.first + (movedPane 60).wDiv +
          (movedPane 60).least.second ≤ 100 ∧
      ¬ ((movedPane 60).sizeAlloc
          { x := 0, y := 0, w := 100, h := 100 }).Divides 100 := by
  refine ⟨by decide, fun divides => ?_⟩
  exact absurd divides.second (by decide)

end Agar.Gui
