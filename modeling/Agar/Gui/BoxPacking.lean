import Agar.Gui.Box
import Agar.Lib.ClippedRow

namespace Agar.Gui

open Agar.Lib

/-!
# Packing a box

A box that is not homogenous places its children one after the other, each as
large as it requests, and gives each one that expands all of what the others
leave over.
-/

namespace Box

/-! ## Children on both axes -/

/-- Whether a child expands along the main axis -/
def expands (box : Box) (chld : Widget) : Bool :=
  match box.type with
  | .horiz => chld.hfill
  | .vert => chld.vfill

/-- Whether a child fills the other axis -/
def fills (box : Box) (chld : Widget) : Bool :=
  match box.type with
  | .horiz => chld.vfill
  | .vert => chld.hfill

/-- The part of a request that is along the main axis -/
def mainOf (box : Box) (r : SizeReq) : Int :=
  match box.type with
  | .horiz => r.w
  | .vert => r.h

/-- The part of a request that is along the other axis -/
def crossOf (box : Box) (r : SizeReq) : Int :=
  match box.type with
  | .horiz => r.h
  | .vert => r.w

/-- The alignment of the children along the main axis -/
def mainAlign (box : Box) : BoxAlign :=
  match box.type with
  | .horiz => box.hAlign
  | .vert => box.vAlign

/-- The alignment of each child along the other axis -/
def crossAlign (box : Box) : BoxAlign :=
  match box.type with
  | .horiz => box.vAlign
  | .vert => box.hAlign

/-- What the padding leaves of the main axis -/
def mainAvail (box : Box) (a : SizeAlloc) : Int := (box.along a).size - box.padding * 2

/-- What the padding leaves of the other axis -/
def crossAvail (box : Box) (a : SizeAlloc) : Int := (box.across a).size - box.padding * 2

/-- The size that a child is to have along the other axis -/
def crossSize (box : Box) (a : SizeAlloc) (chld : Widget) : Int :=
  if box.fills chld then box.crossAvail a else min (box.crossAvail a) (box.crossOf chld.sizeReq)

/-- A place for a size in the space that the padding leaves -/
def alignedAt (padding avail size : Int) : BoxAlign → Int
  | .left => padding
  | .center => avail.tdiv 2 - size.tdiv 2
  | .right => avail - size

/-- Where a child is placed along the other axis -/
def crossStart (box : Box) (a : SizeAlloc) (chld : Widget) : Int :=
  alignedAt box.padding (box.crossAvail a) (box.crossSize a chld) box.crossAlign

/--
Where the first child is placed along the main axis; that there is space left
over is tested of the width, of a vertical box too
-/
def mainStart (box : Box) (a : SizeAlloc) (fixed : Int) : Int :=
  if fixed < a.w - box.padding * 2 then alignedAt box.padding (box.mainAvail a) fixed box.mainAlign
  else box.padding

/-- A child as an item of the row of its box -/
def item (box : Box) (a : SizeAlloc) (chld : Widget) : Item where
  need := box.mainOf chld.sizeReq
  grows := box.expands chld
  live := 0 < box.crossSize a chld
  vanishes := box.crossOf chld.sizeReq ≤ 0

/-- The children as items of a row -/
def items (box : Box) (a : SizeAlloc) (children : List Widget) : List Item :=
  children.map (box.item a)

/-! ## What is to hold -/

/-- A part of an axis is inside a box of some size, and its padding. -/
def Within (padding size : Int) (segment : Segment) : Prop :=
  max 0 padding ≤ segment.start ∧ segment.stop ≤ size - max 0 padding

/-- A child expands along the main axis. -/
def Expanding (box : Box) (children : List Widget) : Prop :=
  ∃ chld ∈ children, box.expands chld = true

instance (box : Box) (children : List Widget) : Decidable (box.Expanding children) :=
  inferInstanceAs (Decidable (∃ chld ∈ children, box.expands chld = true))

end Box

/-- The children of a box, as they are placed in it -/
structure Packed (box : Box) (a : SizeAlloc) (children placed : List Widget) : Prop where
  apart : (box.segments placed).IsChain fun first second =>
      first.stop ≤ second.start ∧ first.stop + box.spacing ≤ second.start
  inside : ∀ put ∈ placed, Box.Within box.padding (box.along a).size (box.along put.alloc) ∧
        Box.Within box.padding (box.across a).size (box.across put.alloc)
  requested : List.Forall₂ (fun chld put =>
        chld.sizeReq.w ≤ put.alloc.w ∧ chld.sizeReq.h ≤ put.alloc.h)
      children placed
  filled : box.Expanding children → ((box.segments placed).map Segment.size).sum +
          box.spacing * (children.length - 1) =
        box.mainAvail a

namespace Box

/-! ## When it holds -/

/--
A size that is aligned in the space that the padding leaves, of which some is
taken, keeps clear of the padding.
-/
def Clears (padding avail size taken : Int) : BoxAlign → Prop
  | .left => 0 ≤ padding
  | .center =>
    max 0 padding ≤ avail.tdiv 2 - size.tdiv 2 ∧
      taken - size.tdiv 2 ≤ avail - avail.tdiv 2 + min padding (padding * 2)
  | .right => max 0 padding ≤ avail - size ∧ taken ≤ size + min padding (padding * 2)

instance (padding avail size taken : Int) (align : BoxAlign) :
    Decidable (Clears padding avail size taken align) :=
  match align with
  | .left => inferInstanceAs (Decidable (_ ≤ _))
  | .center => inferInstanceAs (Decidable (_ ∧ _))
  | .right => inferInstanceAs (Decidable (_ ∧ _))

/-- `totFixed`, which `CountChildWidgets` returns -/
def totFixed (box : Box) (children : List Widget) : Int := (box.countChildWidgets children).2

/-- What the children that do not expand leave of the main axis -/
def slack (box : Box) (a : SizeAlloc) (children : List Widget) : Int :=
  box.mainAvail a - box.totFixed children

end Box

/-- What a box and its children meet that are packed -/
structure Packs (box : Box) (a : SizeAlloc) (children : List Widget) : Prop where
  spaced : children.length ≤ 1 ∨ 0 ≤ box.spacing
  along : if box.totFixed children < a.w - box.padding * 2 then
      Box.Clears box.padding (box.mainAvail a) (box.totFixed children)
        (if box.Expanding children then box.mainAvail a else box.totFixed children)
        box.mainAlign
    else 0 ≤ box.padding
  across : ∀ chld ∈ children, Box.Clears box.padding (box.crossAvail a) (box.crossSize a chld)
        (if (box.item a chld).want (box.slack a children) = 0 then 0 else box.crossSize a chld)
        box.crossAlign
  hollow : HollowOnly (box.slack a children) (box.items a children)
  taken : box.Expanding children → box.slack a children = 0 ∨
        (∃ item ∈ box.items a children, item.Takes) ∧
          TakenOnce box.spacing (box.padding + box.mainAvail a)
            (box.along a).size False (box.items a children)

namespace Box

/-! ## Placing one child -/

/-- A position on each axis, as `x` and `y` -/
def place (box : Box) (main cross : Int) : Int × Int :=
  match box.type with
  | .horiz => (main, cross)
  | .vert => (cross, main)

/-- The size along the main axis that a child is to have at a position -/
def mainSize (box : Box) (a : SizeAlloc) (totFixed main : Int) (chld : Widget) : Int :=
  let size :=
    if box.expands chld then box.mainAvail a - totFixed
    else min (box.mainOf chld.sizeReq) (box.mainAvail a)
  if (box.along a).size < main + size then (box.along a).size - main else size

/-- The size along the main axis that a child is given, with the other size -/
def mainGiven (box : Box) (a : SizeAlloc) (totFixed main : Int) (chld : Widget) : Int :=
  if box.mainSize a totFixed main chld ≤ 0 ∨ box.crossSize a chld ≤ 0 then 0
  else box.mainSize a totFixed main chld

/-- The children that are left, from a position on -/
def placeLoop (box : Box) (a : SizeAlloc) (totFixed : Int) (children : List Widget)
    (main cross : Int) : List Widget :=
  box.allocateLoop a totFixed (a.w - box.padding * 2) (a.h - box.padding * 2)
    children (box.place main cross).1 (box.place main cross).2

section

variable {box : Box} {a : SizeAlloc} {totFixed main cross : Int} {chld : Widget}

/-- What a child is allocated, at the position of the loop -/
def allocAt (box : Box) (a : SizeAlloc) (totFixed main cross : Int) (chld : Widget) : SizeAlloc :=
  box.childAlloc a totFixed (a.w - box.padding * 2) (a.h - box.padding * 2)
    (box.place main cross).1 (box.place main cross).2 chld

theorem along_given (r : SizeAlloc) : box.along r.given = ⟨(box.along r).start,
        if (box.along r).size ≤ 0 ∨ (box.across r).size ≤ 0 then 0
        else (box.along r).size⟩ := by
  unfold SizeAlloc.given along across
  cases box.type with
  | horiz =>
    dsimp only
    split <;> rfl
  | vert =>
    simp only [@or_comm (r.h ≤ 0)]
    split <;> rfl

theorem across_given (r : SizeAlloc) : box.across r.given = ⟨(box.across r).start,
        if (box.along r).size ≤ 0 ∨ (box.across r).size ≤ 0 then 0
        else (box.across r).size⟩ := by
  unfold SizeAlloc.given along across
  cases box.type with
  | horiz =>
    dsimp only
    split <;> rfl
  | vert =>
    simp only [@or_comm (r.h ≤ 0)]
    split <;> rfl

theorem along_allocAt : box.along (box.allocAt a totFixed main cross chld) =
      ⟨main, box.mainSize a totFixed main chld⟩ := by
  unfold along allocAt childAlloc place mainSize expands mainOf mainAvail along
  cases box.type <;> rfl

theorem across_size_allocAt : (box.across (box.allocAt a totFixed main cross chld)).size =
      box.crossSize a chld := by
  unfold across allocAt childAlloc place crossSize fills crossOf crossAvail across
  cases box.type <;> rfl

theorem across_start_allocAt (aligned : box.crossAlign = .left → cross = box.padding) :
    (box.across (box.allocAt a totFixed main cross chld)).start = box.crossStart a chld := by
  rw [crossStart, ← @across_size_allocAt box a totFixed main cross chld]
  unfold crossAvail across allocAt childAlloc place
  unfold crossAlign at *
  cases type : box.type with
  | horiz =>
    rw [type] at aligned
    dsimp only at aligned ⊢
    cases align : box.vAlign with
    | left => exact aligned align
    | center => rfl
    | right => rfl
  | vert =>
    rw [type] at aligned
    dsimp only at aligned ⊢
    cases align : box.hAlign with
    | left => exact aligned align
    | center => rfl
    | right => rfl

theorem placeLoop_cons {rest : List Widget} : box.placeLoop a totFixed (chld :: rest) main cross =
      chld.sizeAlloc (box.allocAt a totFixed main cross chld) :: box.placeLoop a totFixed rest
          (main + (box.along (box.allocAt a totFixed main cross chld).given).size
            + box.spacing) cross := by
  unfold placeLoop allocAt
  rw [allocateLoop]
  unfold place along
  cases box.type with
  | horiz =>
    dsimp only
    rw [Int.add_assoc]
  | vert =>
    dsimp only
    rw [Int.add_assoc]

theorem along_given_allocAt : box.along (box.allocAt a totFixed main cross chld).given =
      ⟨main, box.mainGiven a totFixed main chld⟩ := by
  rw [along_given, along_allocAt, across_size_allocAt]
  exact rfl

theorem across_given_allocAt (aligned : box.crossAlign = .left → cross = box.padding) :
    box.across (box.allocAt a totFixed main cross chld).given = ⟨box.crossStart a chld,
        if box.mainGiven a totFixed main chld = 0 then 0
        else box.crossSize a chld⟩ := by
  rw [across_given, along_allocAt, across_start_allocAt aligned, across_size_allocAt, mainGiven]
  dsimp only
  split
  · rw [if_pos rfl]
  case isFalse some => rw [if_neg (by omega)]

theorem mainGiven_eq (behind : max 0 box.padding ≤ main)
    (enough : 0 ≤ box.padding → box.mainOf chld.sizeReq ≤ box.mainAvail a) :
    box.mainGiven a totFixed main chld = max 0
        (min ((box.item a chld).want (box.mainAvail a - totFixed))
          ((box.along a).size - main)) := by
  by_cases live : 0 < box.crossSize a chld
  case neg =>
    have nothing : (box.item a chld).want (box.mainAvail a - totFixed) = 0 := by
      unfold Item.want item
      exact if_neg (by simpa using live)
    rw [nothing, mainGiven, if_pos (.inr (by omega))]
    omega
  case pos =>
    have wanted : (box.item a chld).want (box.mainAvail a - totFixed) =
          if box.expands chld then box.mainAvail a - totFixed
          else box.mainOf chld.sizeReq := by
      unfold Item.want item
      exact if_pos (by simpa using live)
    have size : box.mainSize a totFixed main chld =
          min ((box.item a chld).want (box.mainAvail a - totFixed))
            ((box.along a).size - main) := by
      rw [wanted, mainSize]
      unfold mainAvail at *
      cases box.expands chld with
      | true =>
        simp only [if_true]
        omega
      | false =>
        simp only [Bool.false_eq_true, if_false]
        omega
    rw [mainGiven, size]
    split <;> omega

end

/-! ## Placing the children -/

/-- A child has been put at its place on the other axis. -/
structure Put (box : Box) (a : SizeAlloc) (chld put : Widget) : Prop where
  across : box.across put.alloc = ⟨box.crossStart a chld,
        if (box.along put.alloc).size = 0 then 0 else box.crossSize a chld⟩

section

variable {box : Box} {a : SizeAlloc} {totFixed main cross : Int} {children : List Widget}

theorem put_placeLoop (aligned : box.crossAlign = .left → cross = box.padding) :
    List.Forall₂ (box.Put a) children (box.placeLoop a totFixed children main cross) := by
  induction children generalizing main with
  | nil => exact .nil
  | cons chld rest ih =>
    rw [placeLoop_cons]
    refine .cons ⟨?_⟩ ih
    rw [Widget.sizeAlloc_alloc, across_given_allocAt aligned, along_given_allocAt]

theorem exists_row_placeLoop : ∃ sizes, sizes.length = children.length ∧
        box.segments (box.placeLoop a totFixed children main cross) =
          row box.spacing main sizes := by
  induction children generalizing main with
  | nil => exact ⟨[], rfl, rfl⟩
  | cons chld rest ih =>
    rw [placeLoop_cons, along_given_allocAt]
    obtain ⟨sizes, count, inRow⟩ := @ih (main + box.mainGiven a totFixed main chld + box.spacing)
    refine ⟨box.mainGiven a totFixed main chld :: sizes, congrArg Nat.succ count, ?_⟩
    rw [segments_cons, Widget.sizeAlloc_alloc, along_given_allocAt, inRow, row_cons]

theorem segments_placeLoop (behind : max 0 box.padding ≤ main)
    (spaced : children.length ≤ 1 ∨ 0 ≤ box.spacing)
    (enough : ∀ chld ∈ children, 0 ≤ box.padding → box.mainOf chld.sizeReq ≤ box.mainAvail a) :
    box.segments (box.placeLoop a totFixed children main cross) = row box.spacing main
        (clippedSizes (box.along a).size box.spacing
          (box.mainAvail a - totFixed) main (box.items a children)) := by
  induction children generalizing main with
  | nil => exact rfl
  | cons chld rest ih =>
    obtain ⟨first, others⟩ := List.forall_mem_cons.mp enough
    have given := @mainGiven_eq box a totFixed main chld behind first
    rw [placeLoop_cons, segments_cons, Widget.sizeAlloc_alloc,
      along_given_allocAt, items, List.map_cons, clippedSizes, row_cons,
      ← given]
    congr 1
    cases rest with
    | nil => exact rfl
    | cons next rest =>
      have positive : 0 ≤ box.spacing := by
        rw [List.length_cons, List.length_cons] at spaced
        omega
      have nonneg : 0 ≤ box.mainGiven a totFixed main chld := by omega
      exact ih (by dsimp only; omega) (.inr positive) others

theorem map_size_placeLoop (behind : max 0 box.padding ≤ main)
    (spaced : children.length ≤ 1 ∨ 0 ≤ box.spacing)
    (enough : ∀ chld ∈ children, 0 ≤ box.padding → box.mainOf chld.sizeReq ≤ box.mainAvail a) :
    (box.placeLoop a totFixed children main cross).map (fun put => (box.along put.alloc).size) =
      clippedSizes (box.along a).size box.spacing
        (box.mainAvail a - totFixed) main (box.items a children) := by
  have inRow :=
    congrArg (List.map Segment.size)
      (@segments_placeLoop box a totFixed main cross children behind spaced enough)
  rw [map_size_row, segments, List.map_map] at inRow
  exact inRow

end

/-! ## What the box requests -/

section

variable {box : Box} {a : SizeAlloc} {children : List Widget}

@[simp] theorem items_cons {chld : Widget} : box.items a (chld :: children) =
      box.item a chld :: box.items a children :=
  rfl

@[simp] theorem length_items : (box.items a children).length = children.length := List.length_map ..

theorem items_ne_nil (some : children ≠ []) : box.items a children ≠ [] := by
  rwa [items, ne_eq, List.map_eq_nil_iff]

theorem countLoop_snd {count : Nat} {fixed : Int} : (box.countLoop children count fixed).2 =
      fixed + room box.spacing (box.items a children) := by
  induction children generalizing count fixed with
  | nil => exact (Int.add_zero fixed).symm
  | cons chld rest ih =>
    rw [countLoop, ih, items_cons, room]
    unfold item expands mainOf
    cases box.type <;> dsimp only <;> split <;> omega

theorem requestLoop_cons {chld : Widget} {wMax hMax : Int} {r : SizeReq} : ∃ wMax' hMax' r',
      box.requestLoop (chld :: children) wMax hMax r = box.requestLoop children wMax' hMax' r' ∧
        box.mainOf r' = box.mainOf r + (box.mainOf chld.sizeReq + box.spacing) ∧
        box.crossOf r ≤ box.crossOf r' ∧
        box.crossOf chld.sizeReq + box.padding * 2 ≤ box.crossOf r' := by
  rw [requestLoop]
  refine ⟨_, _, _, rfl, ?_, ?_, ?_⟩
  · unfold mainOf
    cases box.type <;> rfl
  · unfold crossOf
    cases box.type <;> exact le_max_left _ _
  · unfold crossOf
    cases box.type <;> dsimp only <;> split <;> omega

theorem mainOf_requestLoop {wMax hMax : Int} {r : SizeReq} :
    box.mainOf (box.requestLoop children wMax hMax r) = box.mainOf r +
        extent box.spacing ((box.items a children).map Item.need) := by
  induction children generalizing wMax hMax r with
  | nil => simp [requestLoop, items, extent]
  | cons chld rest ih =>
    obtain ⟨wMax', hMax', r', turn, added, -, -⟩ := @requestLoop_cons box rest chld wMax hMax r
    rw [turn, ih, added, items_cons, List.map_cons, extent_cons]
    unfold item
    dsimp only
    omega

theorem crossOf_requestLoop {wMax hMax : Int} {r : SizeReq} :
    box.crossOf r ≤ box.crossOf (box.requestLoop children wMax hMax r) ∧ ∀ chld ∈ children,
        box.crossOf chld.sizeReq + box.padding * 2 ≤
          box.crossOf (box.requestLoop children wMax hMax r) := by
  induction children generalizing wMax hMax r with
  | nil => exact ⟨Int.le_refl _, fun _ none => absurd none List.not_mem_nil⟩
  | cons chld rest ih =>
    obtain ⟨wMax', hMax', r', turn, -, kept, first⟩ := @requestLoop_cons box rest chld wMax hMax r
    obtain ⟨keptOthers, others⟩ := @ih wMax' hMax' r'
    rw [turn, List.forall_mem_cons]
    exact ⟨kept.trans keptOthers, first.trans keptOthers, others⟩

theorem sizeRequest_of_ne_nil {loop : SizeReq} (some : children ≠ [])
    (isLoop : box.requestLoop children 0 0
          { w := box.padding * 2, h := box.padding * 2 } =
        loop) :
    box.mainOf (box.sizeRequest children) = (if box.spacing ≤ box.mainOf loop then
          box.mainOf loop - box.spacing
        else box.mainOf loop) ∧
      box.crossOf (box.sizeRequest children) = box.crossOf loop := by
  have counted : 0 < (box.countChildWidgets children).1 := by
    rw [countChildWidgets_fst]
    exact List.length_pos_of_ne_nil some
  unfold sizeRequest
  dsimp only
  rw [isLoop, if_pos counted]
  unfold mainOf crossOf
  cases box.type <;> dsimp only <;> split <;> exact ⟨rfl, rfl⟩

theorem extent_le_mainAvail (some : children ≠ [])
    (needs : ∀ item ∈ box.items a children, 0 ≤ item.need)
    (spaced : children.length ≤ 1 ∨ 0 ≤ box.spacing) (padded : 0 ≤ box.padding)
    (fits : box.mainOf (box.sizeRequest children) ≤ (box.along a).size) :
    extent box.spacing ((box.items a children).map Item.need) ≤ box.mainAvail a + box.spacing := by
  have isLoop :=
    @mainOf_requestLoop box a children 0 0
      { w := box.padding * 2, h := box.padding * 2 }
  have start : box.mainOf { w := box.padding * 2, h := box.padding * 2 } = box.padding * 2 := by
    unfold mainOf
    cases box.type <;> rfl
  obtain ⟨isMain, -⟩ := sizeRequest_of_ne_nil some rfl
  rw [isLoop, start] at isMain
  rw [isMain] at fits
  have atLeast := gap_le_room (items_ne_nil some) needs (by rwa [length_items])
  have atMost := @room_le_needs box.spacing (box.items a children) needs
  unfold mainAvail
  split at fits <;> omega

theorem mainOf_le_mainAvail (needs : ∀ item ∈ box.items a children, 0 ≤ item.need)
    (spaced : children.length ≤ 1 ∨ 0 ≤ box.spacing)
    (fits : box.mainOf (box.sizeRequest children) ≤ (box.along a).size) :
    ∀ chld ∈ children, 0 ≤ box.padding → box.mainOf chld.sizeReq ≤ box.mainAvail a := by
  intro chld member padded
  have total := extent_le_mainAvail (List.ne_nil_of_mem member) needs spaced padded fits
  have isItem : box.item a chld ∈ box.items a children := List.mem_map_of_mem member
  have part := need_add_gap_le needs (by rwa [length_items]) isItem
  have need : (box.item a chld).need = box.mainOf chld.sizeReq := rfl
  omega

theorem crossOf_le_crossAvail
    (fits : box.crossOf (box.sizeRequest children) ≤ (box.across a).size) :
    ∀ chld ∈ children, box.crossOf chld.sizeReq ≤ box.crossAvail a := by
  intro chld member
  obtain ⟨-, isCross⟩ := @sizeRequest_of_ne_nil box children _ (List.ne_nil_of_mem member) rfl
  have part := (@crossOf_requestLoop box children 0 0
    { w := box.padding * 2, h := box.padding * 2 }).2 chld member
  rw [isCross] at fits
  unfold crossAvail
  omega

theorem totFixed_eq (some : children ≠ []) (needs : ∀ item ∈ box.items a children, 0 ≤ item.need)
    (spaced : children.length ≤ 1 ∨ 0 ≤ box.spacing) :
    box.totFixed children = room box.spacing (box.items a children) - box.spacing := by
  have counted := box.countLoop_fst children 0 0
  have isRoom := @countLoop_snd box a children 0 0
  have atLeast := gap_le_room (items_ne_nil some) needs (by rwa [length_items])
  have positive := List.length_pos_of_ne_nil some
  unfold totFixed countChildWidgets
  rcases loop : box.countLoop children 0 0 with ⟨count, fixed⟩
  rw [loop] at counted isRoom
  dsimp only at counted isRoom ⊢
  rw [if_pos (by omega), isRoom, Int.zero_add]

end

/-! ## Keeping clear of the padding -/

section

variable {box : Box} {a : SizeAlloc} {chld : Widget} {children : List Widget}
  {padding avail size taken : Int} {align : BoxAlign}

theorem within_alignedAt_iff (fits : 0 ≤ padding → taken ≤ avail) :
    Within padding (avail + padding * 2) ⟨alignedAt padding avail size align, taken⟩ ↔
      Clears padding avail size taken align := by
  unfold Within Segment.stop
  cases align <;> unfold alignedAt Clears <;> dsimp only <;> omega

theorem clears_iff_of_padded (padded : 0 ≤ padding) (atMost : taken ≤ size) (fits : size ≤ avail)
    (nonneg : 0 ≤ size) :
    Clears padding avail size taken align ↔ Clears padding avail size size align := by
  have halves : size - size.tdiv 2 ≤ avail - avail.tdiv 2 := by
    rw [Int.tdiv_eq_ediv_of_nonneg nonneg, Int.tdiv_eq_ediv_of_nonneg (nonneg.trans fits)]
    omega
  cases align <;> unfold Clears <;> omega

theorem within_mainStart_iff (fits : 0 ≤ box.padding → taken ≤ box.mainAvail a) :
    Within box.padding (box.along a).size ⟨box.mainStart a (box.totFixed children), taken⟩ ↔
      if box.totFixed children < a.w - box.padding * 2 then
        Clears box.padding (box.mainAvail a) (box.totFixed children) taken box.mainAlign
      else
        0 ≤ box.padding := by
  have size : (box.along a).size = box.mainAvail a + box.padding * 2 := by
    unfold mainAvail
    omega
  rw [size, mainStart]
  split_ifs
  · exact within_alignedAt_iff fits
  · unfold Within Segment.stop
    dsimp only
    omega

theorem within_crossStart_iff (fits : taken ≤ box.crossAvail a) :
    Within box.padding (box.across a).size ⟨box.crossStart a chld, taken⟩ ↔
      Clears box.padding (box.crossAvail a) (box.crossSize a chld) taken
        box.crossAlign := by
  have size : (box.across a).size = box.crossAvail a + box.padding * 2 := by
    unfold crossAvail
    omega
  rw [size, crossStart]
  exact within_alignedAt_iff fun _ => fits

theorem crossSize_between (fits : box.crossOf chld.sizeReq ≤ box.crossAvail a) :
    box.crossOf chld.sizeReq ≤ box.crossSize a chld ∧ box.crossSize a chld ≤ box.crossAvail a := by
  unfold crossSize
  split <;> omega

theorem requested_iff {put : Widget} (isPut : box.Put a chld put)
    (enough : box.crossOf chld.sizeReq ≤ box.crossSize a chld) :
    (chld.sizeReq.w ≤ put.alloc.w ∧ chld.sizeReq.h ≤ put.alloc.h) ↔
      (box.item a chld).Served (box.along put.alloc).size := by
  have both : (chld.sizeReq.w ≤ put.alloc.w ∧ chld.sizeReq.h ≤ put.alloc.h) ↔
        box.mainOf chld.sizeReq ≤ (box.along put.alloc).size ∧
          box.crossOf chld.sizeReq ≤ (box.across put.alloc).size := by
    unfold mainOf crossOf along across
    cases box.type with
    | horiz => exact Iff.rfl
    | vert => exact and_comm
  rw [both, isPut.across]
  constructor
  · rintro ⟨main, cross⟩
    refine ⟨main, fun zero => ?_⟩
    rw [if_pos zero] at cross
    exact decide_eq_true cross
  · rintro ⟨main, vanishes⟩
    refine ⟨main, ?_⟩
    dsimp only
    split
    case isTrue zero => exact of_decide_eq_true (vanishes zero)
    case isFalse => exact enough

theorem sizeAllocate_of_not_homogenous (some : children ≠ []) (differs : box.homogenous = false) :
    ∃ cross, (box.crossAlign = .left → cross = box.padding) ∧ box.sizeAllocate a children =
          box.placeLoop a (box.totFixed children) children
            (box.mainStart a (box.totFixed children)) cross := by
  refine ⟨if box.totFixed children < a.w - box.padding * 2 then
        alignedAt box.padding (box.crossAvail a) (box.totFixed children) box.crossAlign
      else box.padding,
      ?_, ?_⟩
  · intro align
    rw [align]
    exact ite_self _
  · have counted : (box.countChildWidgets children).1 ≠ 0 := by
      rw [countChildWidgets_fst]
      exact (List.length_pos_of_ne_nil some).ne'
    unfold sizeAllocate totFixed
    dsimp only
    rw [if_neg counted, if_neg (by rw [differs]; exact Bool.false_ne_true)]
    unfold placeLoop place mainStart mainAlign mainAvail crossAlign crossAvail along across
    cases box.type <;> rfl

theorem spaced_of_apart {totFixed main cross : Int}
    (apart : (box.segments (box.placeLoop a totFixed children main cross)).IsChain
        fun first second => first.stop ≤ second.start ∧ first.stop + box.spacing ≤ second.start) :
    children.length ≤ 1 ∨ 0 ≤ box.spacing := by
  obtain ⟨sizes, count, inRow⟩ := @exists_row_placeLoop box a totFixed main cross children
  rw [inRow, row_apart_iff, count] at apart
  exact apart

theorem behind_of_inside {totFixed main cross : Int} (some : children ≠ [])
    (inside : ∀ put ∈ box.placeLoop a totFixed children main cross,
        Within box.padding (box.along a).size (box.along put.alloc)) :
    max 0 box.padding ≤ main := by
  obtain ⟨chld, rest, rfl⟩ := List.exists_cons_of_ne_nil some
  rw [placeLoop_cons, List.forall_mem_cons, Widget.sizeAlloc_alloc, along_given_allocAt] at inside
  exact inside.1.1

theorem packed_placeLoop_iff {totFixed main cross : Int} {sizes : List Int} (some : children ≠ [])
    (spaced : children.length ≤ 1 ∨ 0 ≤ box.spacing) (behind : max 0 box.padding ≤ main)
    (aligned : box.crossAlign = .left → cross = box.padding)
    (enough : ∀ chld ∈ children, 0 ≤ box.padding → box.mainOf chld.sizeReq ≤ box.mainAvail a)
    (sized : ∀ chld ∈ children, box.crossOf chld.sizeReq ≤ box.crossSize a chld)
    (isSizes : clippedSizes (box.along a).size box.spacing
          (box.mainAvail a - totFixed) main (box.items a children) =
        sizes) :
    Packed box a children (box.placeLoop a totFixed children main cross) ↔
      List.Forall₂ Item.Served (box.items a children) sizes ∧ main + extent box.spacing sizes ≤
          (box.along a).size - max 0 box.padding + box.spacing ∧
        (∀ put ∈ box.placeLoop a totFixed children main cross,
          Within box.padding (box.across a).size (box.across put.alloc)) ∧
        (box.Expanding children → extent box.spacing sizes = box.mainAvail a + box.spacing) := by
  have inRow := @segments_placeLoop box a totFixed main cross children behind spaced enough
  have areSizes := @map_size_placeLoop box a totFixed main cross children behind spaced enough
  have isPut := @put_placeLoop box a totFixed main cross children aligned
  have length : sizes.length = children.length := by
    rw [← isSizes, length_clippedSizes, length_items]
  have nonneg : ∀ size ∈ sizes, 0 ≤ size := by
    rw [← isSizes]
    exact clippedSizes_nonneg
  rw [isSizes] at inRow
  rw [isSizes] at areSizes
  generalize box.placeLoop a totFixed children main cross = placed at *
  have apart := (@row_apart_iff box.spacing main sizes).mpr (by rwa [length])
  have between : (∀ put ∈ placed, Within box.padding (box.along a).size (box.along put.alloc)) ↔
        main + extent box.spacing sizes ≤ (box.along a).size - max 0 box.padding + box.spacing := by
    have isRow :=
      @row_between_iff box.spacing main sizes (max 0 box.padding)
        ((box.along a).size - max 0 box.padding)
        (List.ne_nil_of_length_pos (by rw [length]; exact List.length_pos_of_ne_nil some))
        nonneg (by rwa [length])
    rw [← inRow, segments, List.forall_mem_map, and_iff_right behind, Int.add_assoc] at isRow
    exact isRow
  have served : List.Forall₂ (fun chld put =>
            chld.sizeReq.w ≤ put.alloc.w ∧ chld.sizeReq.h ≤ put.alloc.h)
          children placed ↔
        List.Forall₂ Item.Served (box.items a children) sizes := by
    rw [← areSizes, items, List.forall₂_map_left_iff, List.forall₂_map_right_iff]
    have both := (List.forall₂_and_left _ _).mpr ⟨sized, isPut⟩
    exact ⟨both.mp fun _ _ known => (requested_iff known.2 known.1).mp,
        both.mp fun _ _ known => (requested_iff known.2 known.1).mpr⟩
  have filled : ((box.segments placed).map Segment.size).sum + box.spacing * (children.length - 1) =
          box.mainAvail a ↔
        extent box.spacing sizes = box.mainAvail a + box.spacing := by
    rw [inRow, map_size_row, extent, length, mul_sub, mul_one]
    omega
  constructor
  · intro packed
    exact ⟨served.mp packed.requested, between.mp fun put member => (packed.inside put member).1,
      fun put member => (packed.inside put member).2,
      fun expanding => filled.mp (packed.filled expanding)⟩
  · rintro ⟨allServed, ends, inside, total⟩
    exact
      { apart := by rwa [inRow]
        inside := fun put member => ⟨between.mpr ends put member, inside put member⟩
        requested := served.mpr allServed
        filled := fun expanding => filled.mpr (total expanding) }

end

/-! ## The whole box -/

/-- A box is as large as it requests at least, and its children request sizes. -/
structure Sized (box : Box) (a : SizeAlloc) (children : List Widget) : Prop where
  needs : ∀ item ∈ box.items a children, 0 ≤ item.need
  crossNonneg : ∀ chld ∈ children, 0 ≤ box.crossOf chld.sizeReq
  main : box.mainOf (box.sizeRequest children) ≤ (box.along a).size
  cross : box.crossOf (box.sizeRequest children) ≤ (box.across a).size

section

variable {box : Box} {a : SizeAlloc} {children : List Widget}

theorem sized_of_request (requests : ∀ chld ∈ children, 0 ≤ chld.sizeReq.w ∧ 0 ≤ chld.sizeReq.h)
    (width : (box.sizeRequest children).w ≤ a.w)
    (height : (box.sizeRequest children).h ≤ a.h) : box.Sized a children := by
  have both : ∀ chld ∈ children, 0 ≤ box.mainOf chld.sizeReq ∧ 0 ≤ box.crossOf chld.sizeReq := by
    intro chld member
    obtain ⟨w, h⟩ := requests chld member
    unfold mainOf crossOf
    cases box.type with
    | horiz => exact ⟨w, h⟩
    | vert => exact ⟨h, w⟩
  refine ⟨?_, fun chld member => (both chld member).2, ?_, ?_⟩
  · rw [items, List.forall_mem_map]
    exact fun chld member => (both chld member).1
  · unfold mainOf along
    cases box.type with
    | horiz => exact width
    | vert => exact height
  · unfold crossOf across
    cases box.type with
    | horiz => exact height
    | vert => exact width

theorem slack_of_padded (sized : box.Sized a children) (some : children ≠ [])
    (spaced : children.length ≤ 1 ∨ 0 ≤ box.spacing) (padded : 0 ≤ box.padding) :
    0 ≤ box.slack a children ∧ ∀ item ∈ box.items a children,
        item.grows = true → item.need ≤ box.slack a children := by
  have fixed := @totFixed_eq box a children some sized.needs spaced
  have total := extent_le_mainAvail some sized.needs spaced padded sized.main
  rw [slack, fixed]
  constructor
  · have atMost := @room_le_needs box.spacing _ sized.needs
    omega
  · intro item member grows
    have atMost := @room_add_need_le box.spacing item _ sized.needs member grows
    omega

theorem within_across_iff {left : Int} {placed : List Widget}
    (isPut : List.Forall₂ (box.Put a) children placed)
    (nonneg : ∀ chld ∈ children, 0 ≤ box.crossOf chld.sizeReq)
    (fits : ∀ chld ∈ children, box.crossOf chld.sizeReq ≤ box.crossAvail a)
    (same : 0 ≤ box.padding ∨ placed.map (fun put => (box.along put.alloc).size) =
          (box.items a children).map (Item.want left)) :
    (∀ put ∈ placed, Within box.padding (box.across a).size (box.across put.alloc)) ↔
      ∀ chld ∈ children, Clears box.padding (box.crossAvail a) (box.crossSize a chld)
          (if (box.item a chld).want left = 0 then 0 else box.crossSize a chld)
          box.crossAlign := by
  induction isPut with
  | nil =>
    exact iff_of_true (fun _ none => absurd none List.not_mem_nil)
      fun _ none => absurd none List.not_mem_nil
  | @cons chld put rest others first _ ih =>
    obtain ⟨nonnegFirst, nonnegOthers⟩ := List.forall_mem_cons.mp nonneg
    obtain ⟨fitsFirst, fitsOthers⟩ := List.forall_mem_cons.mp fits
    obtain ⟨atLeast, atMost⟩ := crossSize_between fitsFirst
    have following := ih nonnegOthers fitsOthers (same.imp_right fun all => (List.cons.inj all).2)
    rw [List.forall_mem_cons, List.forall_mem_cons, following, first.across,
      within_crossStart_iff (by split <;> omega)]
    refine and_congr_left fun _ => ?_
    rcases same with padded | all
    · have nonnegSize := nonnegFirst.trans atLeast
      rw [clears_iff_of_padded padded (by split <;> omega) atMost nonnegSize]
      exact (clears_iff_of_padded padded (by split <;> omega) atMost nonnegSize).symm
    · have isWanted := (List.cons.inj all).1
      dsimp only at isWanted
      rw [isWanted]

theorem along_iff (sized : box.Sized a children) (some : children ≠ [])
    (spaced : children.length ≤ 1 ∨ 0 ≤ box.spacing) :
    Within box.padding (box.along a).size
        ⟨box.mainStart a (box.totFixed children), if box.Expanding children then box.mainAvail a
          else box.totFixed children⟩ ↔
      if box.totFixed children < a.w - box.padding * 2 then
        Clears box.padding (box.mainAvail a) (box.totFixed children)
          (if box.Expanding children then box.mainAvail a else box.totFixed children)
          box.mainAlign
      else
        0 ≤ box.padding := by
  refine within_mainStart_iff fun padded => ?_
  obtain ⟨nonneg, -⟩ := slack_of_padded sized some spaced padded
  unfold slack at nonneg
  split <;> omega

theorem packed_iff_of_still {cross : Int} (sized : box.Sized a children) (some : children ≠ [])
    (spaced : children.length ≤ 1 ∨ 0 ≤ box.spacing)
    (behind : max 0 box.padding ≤ box.mainStart a (box.totFixed children))
    (aligned : box.crossAlign = .left → cross = box.padding) (still : ¬ box.Expanding children) :
    Packed box a children (box.placeLoop a (box.totFixed children) children
          (box.mainStart a (box.totFixed children)) cross) ↔
      Packs box a children := by
  have enough := mainOf_le_mainAvail sized.needs spaced sized.main
  have crossFits := crossOf_le_crossAvail sized.cross
  have stays : ∀ item ∈ box.items a children, item.grows = false := by
    rw [items, List.forall_mem_map]
    intro chld member
    exact Bool.eq_false_iff.mpr fun grows => still ⟨chld, member, grows⟩
  have quiet : ∀ item ∈ box.items a children,
        item.grows = true → item.want (box.slack a children) = 0 :=
    fun item member grows => absurd (stays item member) (by simp [grows])
  have fixed := @totFixed_eq box a children some sized.needs spaced
  have kept :=
    @kept_iff (box.along a).size box.spacing (box.slack a children)
      (box.mainStart a (box.totFixed children))
      ((box.along a).size - max 0 box.padding) _ sized.needs
      (by rwa [length_items]) stays (by omega)
  have along := along_iff sized some spaced
  have isPut :=
    @put_placeLoop box a (box.totFixed children)
      (box.mainStart a (box.totFixed children)) cross children aligned
  have areSizes :=
    @map_size_placeLoop box a (box.totFixed children)
      (box.mainStart a (box.totFixed children)) cross children behind spaced
      enough
  rw [packed_placeLoop_iff some spaced behind aligned enough
    (fun chld member => (crossSize_between (crossFits chld member)).1) rfl]
  constructor
  · rintro ⟨served, ends, inside, -⟩
    obtain ⟨hollow, fits⟩ := kept.mp ⟨served, ends⟩
    have wanted := clippedSizes_of_served sized.needs quiet served
    exact
      { spaced := spaced
        along := along.mp (by
          rw [if_neg still]
          refine ⟨behind, ?_⟩
          unfold Segment.stop
          dsimp only
          omega)
        across :=
          (within_across_iff isPut sized.crossNonneg crossFits
            (.inr (areSizes.trans wanted))).mp inside
        hollow := hollow
        taken := fun expanding => absurd expanding still }
  · intro packs
    have inside := along.mpr packs.along
    rw [if_neg still] at inside
    have fits := inside.2
    unfold Segment.stop at fits
    dsimp only at fits
    obtain ⟨served, ends⟩ := kept.mpr ⟨packs.hollow, by omega⟩
    have wanted := clippedSizes_of_served sized.needs quiet served
    exact ⟨served, ends, (within_across_iff isPut sized.crossNonneg crossFits
        (.inr (areSizes.trans wanted))).mpr packs.across,
      fun expanding => absurd expanding still⟩

theorem packed_iff_of_expanding {cross : Int} (sized : box.Sized a children) (some : children ≠ [])
    (spaced : children.length ≤ 1 ∨ 0 ≤ box.spacing)
    (behind : max 0 box.padding ≤ box.mainStart a (box.totFixed children))
    (aligned : box.crossAlign = .left → cross = box.padding) (expanding : box.Expanding children) :
    Packed box a children (box.placeLoop a (box.totFixed children) children
          (box.mainStart a (box.totFixed children)) cross) ↔
      Packs box a children := by
  have enough := mainOf_le_mainAvail sized.needs spaced sized.main
  have crossFits := crossOf_le_crossAvail sized.cross
  have fixed := @totFixed_eq box a children some sized.needs spaced
  have along := along_iff sized some spaced
  have isPut :=
    @put_placeLoop box a (box.totFixed children)
      (box.mainStart a (box.totFixed children)) cross children aligned
  have avail : box.mainAvail a = (box.along a).size - box.padding * 2 := rfl
  -- the row starts at the padding, where all that is available is taken up
  have filled (padded : 0 ≤ box.padding)
      (starts : box.mainStart a (box.totFixed children) = box.padding) := by
    obtain ⟨nonneg, small⟩ := slack_of_padded sized some spaced padded
    exact @filled_iff (box.along a).size box.spacing (box.slack a children)
        (box.mainStart a (box.totFixed children))
        (box.padding + box.mainAvail a) _ sized.needs (by rwa [length_items])
        nonneg small (by unfold slack; omega) (by omega)
  rw [packed_placeLoop_iff some spaced behind aligned enough
    (fun chld member => (crossSize_between (crossFits chld member)).1) rfl]
  constructor
  · rintro ⟨served, ends, inside, total⟩
    have all := total expanding
    have starts : box.mainStart a (box.totFixed children) = box.padding := by omega
    obtain ⟨hollow, taken⟩ := (filled (by omega) starts).mp ⟨served, by unfold slack; omega⟩
    exact
      { spaced := spaced
        along := along.mp (by
          rw [if_pos expanding]
          refine ⟨behind, ?_⟩
          unfold Segment.stop
          dsimp only
          omega)
        across := (within_across_iff isPut sized.crossNonneg crossFits (.inl (by omega))).mp inside
        hollow := hollow
        taken := fun _ => taken }
  · intro packs
    have inside := along.mpr packs.along
    rw [if_pos expanding] at inside
    have fits := inside.2
    unfold Segment.stop at fits
    dsimp only at fits
    have starts : box.mainStart a (box.totFixed children) = box.padding := by omega
    obtain ⟨served, total⟩ := (filled (by omega) starts).mpr ⟨packs.hollow, packs.taken expanding⟩
    unfold slack at served total
    exact ⟨served, by omega, (within_across_iff isPut sized.crossNonneg crossFits
        (.inl (by omega))).mpr packs.across,
      fun _ => by omega⟩

theorem behind_of_packs (sized : box.Sized a children) (some : children ≠ [])
    (packs : Packs box a children) : max 0 box.padding ≤ box.mainStart a (box.totFixed children) :=
  ((along_iff sized some packs.spaced).mpr packs.along).1

end

end Box

/--
A box that is not homogenous, and not smaller than it requests, packs its
children if and only if they meet the condition.
-/
theorem packed_iff (box : Box) (a : SizeAlloc) (children : List Widget)
    (differs : box.homogenous = false)
    (requests : ∀ chld ∈ children, 0 ≤ chld.sizeReq.w ∧ 0 ≤ chld.sizeReq.h)
    (width : (box.sizeRequest children).w ≤ a.w) (height : (box.sizeRequest children).h ≤ a.h) :
    Packed box a children (box.sizeAllocate a children) ↔ children = [] ∨ Packs box a children := by
  by_cases none : children = []
  case pos =>
    rw [none]
    refine iff_of_true ?_ (.inl rfl)
    exact
      { apart := List.isChain_nil
        inside := fun _ member => absurd member List.not_mem_nil
        requested := .nil
        filled := fun expanding => by
          obtain ⟨_, member, -⟩ := expanding
          exact absurd member List.not_mem_nil }
  case neg =>
    have sized := Box.sized_of_request requests width height
    obtain ⟨cross, aligned, allocated⟩ :=
      @Box.sizeAllocate_of_not_homogenous box a children none differs
    rw [allocated, or_iff_right none]
    have packed_iff (spaced : children.length ≤ 1 ∨ 0 ≤ box.spacing)
        (behind : max 0 box.padding ≤ box.mainStart a (box.totFixed children)) := by
      by_cases expanding : box.Expanding children
      · exact Box.packed_iff_of_expanding sized none spaced behind aligned expanding
      · exact Box.packed_iff_of_still sized none spaced behind aligned expanding
    constructor
    · intro packed
      have spaced := Box.spaced_of_apart packed.apart
      have behind := Box.behind_of_inside none fun put member => (packed.inside put member).1
      exact (packed_iff spaced behind).mp packed
    · intro packs
      have behind := Box.behind_of_packs sized none packs
      exact (packed_iff packs.spaced behind).mpr packs

def horizontalBox : Box where
  type := .horiz
  homogenous := false
  padding := 4
  spacing := 2
  hAlign := .left
  vAlign := .left

def sizedChild (hfill : Bool) : Widget where
  request := { w := 20, h := 10 }
  hfill := hfill
  vfill := false
  refuses := none
  alloc := { x := 0, y := 0, w := 0, h := 0 }
  undersize := false

theorem packed_iff_one : Packed horizontalBox { x := 0, y := 0, w := 100, h := 50 }
      [sizedChild false, sizedChild true]
      (horizontalBox.sizeAllocate { x := 0, y := 0, w := 100, h := 50 }
        [sizedChild false, sizedChild true]) := by
  refine (packed_iff horizontalBox { x := 0, y := 0, w := 100, h := 50 }
      [sizedChild false, sizedChild true] rfl (by decide) (by decide)
      (by decide)).mpr
      (.inr ⟨.inr (by decide), by decide, by decide, ?_, fun _ => .inr ⟨by decide, ?_⟩⟩)
  · intro item member nothing
    fin_cases member <;> exact absurd nothing (by decide)
  · refine takenOnce_cons.mpr ⟨fun first => absurd first (by decide),
          takenOnce_cons.mpr ⟨fun _ before => ?_, takenOnce_nil⟩⟩
    exact absurd (before.resolve_left id) (by decide)

theorem second_expanding_child_is_small : horizontalBox.homogenous = false ∧
      (∀ chld ∈ [sizedChild true, sizedChild true], 0 ≤ chld.sizeReq.w ∧ 0 ≤ chld.sizeReq.h) ∧
      (horizontalBox.sizeRequest [sizedChild true, sizedChild true]).w ≤ 100 ∧
      (horizontalBox.sizeRequest [sizedChild true, sizedChild true]).h ≤ 50 ∧
      ¬ Packed horizontalBox { x := 0, y := 0, w := 100, h := 50 }
        [sizedChild true, sizedChild true]
        (horizontalBox.sizeAllocate { x := 0, y := 0, w := 100, h := 50 }
          [sizedChild true, sizedChild true]) := by
  refine ⟨rfl, by decide, by decide, by decide, fun packed => ?_⟩
  obtain ⟨-, second⟩ := List.forall₂_cons.mp packed.requested
  obtain ⟨large, -⟩ := List.forall₂_cons.mp second
  exact absurd large.1 (by decide)

end Agar.Gui
