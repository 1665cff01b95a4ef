import Agar.Lib.Segments

namespace Agar.Gui

open Agar.Lib

/-!
# Sizes of widgets

A container asks its children for the sizes they request and allocates a place
and a size to each.  A child that gets no width or no height gets neither.
-/

/-! ## Requests and allocations -/

/-- The size that a widget requests -/
structure SizeReq where
  w : Int
  h : Int
  deriving Repr, DecidableEq

/-- The place and the size that a widget is allocated -/
structure SizeAlloc where
  x : Int
  y : Int
  w : Int
  h : Int
  deriving Repr, DecidableEq

/--
A widget with what its class requests, whether it expands, and whether its
class refuses an allocation.  The last of it is what was allocated, and whether
that failed.
-/
structure Widget where
  request : SizeReq
  hfill : Bool
  vfill : Bool
  refuses : Option (SizeAlloc → Bool)
  alloc : SizeAlloc
  undersize : Bool

/-- `AG_WidgetSizeReq` -/
def Widget.sizeReq (widget : Widget) : SizeReq := widget.request

/-- What `AG_WidgetSizeAlloc` makes of an allocation, for its caller too -/
def SizeAlloc.given (a : SizeAlloc) : SizeAlloc :=
  if a.w ≤ 0 ∨ a.h ≤ 0 then { a with w := 0, h := 0 } else a

/-- `AG_WidgetSizeAlloc` -/
def Widget.sizeAlloc (widget : Widget) (a : SizeAlloc) : Widget :=
  { widget with
    alloc := a.given
    undersize :=
      match widget.refuses with
      | none => decide (a.w ≤ 0 ∨ a.h ≤ 0)
      | some refuses => refuses a.given }

namespace SizeAlloc

variable {a : SizeAlloc}

theorem given_of_pos (width : 0 < a.w) (height : 0 < a.h) : a.given = a := if_neg (by omega)

theorem given_pos_or_empty (a : SizeAlloc) :
    (0 < a.given.w ∧ 0 < a.given.h) ∨ (a.given.w = 0 ∧ a.given.h = 0) := by
  unfold given
  split_ifs with empty
  · exact .inr ⟨rfl, rfl⟩
  · exact .inl (by omega)

theorem given_w_of_pos (height : 0 < a.h) : a.given.w = max 0 a.w := by
  unfold given
  split_ifs with empty
  · exact (max_eq_left (show a.w ≤ 0 by omega)).symm
  · exact (max_eq_right (by omega)).symm

theorem given_h_of_pos (width : 0 < a.w) : a.given.h = max 0 a.h := by
  unfold given
  split_ifs with empty
  · exact (max_eq_left (show a.h ≤ 0 by omega)).symm
  · exact (max_eq_right (by omega)).symm

theorem given_of_empty (empty : a.w ≤ 0 ∨ a.h ≤ 0) : a.given.w = 0 ∧ a.given.h = 0 := by
  rw [given, if_pos empty]
  exact ⟨rfl, rfl⟩

@[simp] theorem given_x (a : SizeAlloc) : a.given.x = a.x := by
  unfold given
  split_ifs <;> rfl

@[simp] theorem given_y (a : SizeAlloc) : a.given.y = a.y := by
  unfold given
  split_ifs <;> rfl

end SizeAlloc

@[simp] theorem Widget.sizeAlloc_alloc (widget : Widget) (a : SizeAlloc) :
    (widget.sizeAlloc a).alloc = a.given :=
  rfl

end Agar.Gui
