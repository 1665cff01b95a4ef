import Agar.Gui.Box

namespace Agar.Gui

open Agar.Lib

/-!
# Homogenous boxes

A homogenous box divides the space evenly.  What the division leaves over goes
to the last child, which ends one pixel before the padding.
-/

/-- Segments tile what is available after the padding. -/
structure Tiles (padding avail : Int) (segments : List Segment) : Prop where
  apart : segments.IsChain fun first second => second.start = first.stop + 1
  alike : ∀ first ∈ segments.dropLast, ∀ second ∈ segments.dropLast, first.size = second.size
  larger : ∀ last ∈ segments.getLast?, ∀ other ∈ segments.dropLast, other.size ≤ last.size ∧
      last.size < other.size + (segments.length + 1)
  starts : ∀ first ∈ segments.head?, first.start = padding
  ends : ∀ last ∈ segments.getLast?, padding + avail - 1 ≤ last.stop ∧ last.stop ≤ padding + avail

/-- Sizes that are alike but for the last of them -/
def evenSizes (count : Nat) (size extra : Int) : List Int :=
  List.replicate count size ++ [size + extra]

theorem tiles_row {count : Nat} {padding avail size extra : Int} (more : 0 ≤ extra)
    (less : extra < count + 2) (sum : (count + 1) * (size + 1) + extra = avail) :
    Tiles padding avail (row 1 padding (evenSizes count size extra)) := by
  have same : ∀ segment ∈ (row 1 padding (evenSizes count size extra)).dropLast,
      segment.size = size := by
    intro segment member
    rw [evenSizes, dropLast_row] at member
    have isSize := List.mem_map_of_mem (f := Segment.size) member
    rw [map_size_row] at isSize
    exact List.eq_of_mem_replicate isSize
  have final : ∀ last ∈ (row 1 padding (evenSizes count size extra)).getLast?,
      last.start = padding + count * size + count ∧ last.size = size + extra := by
    intro last isLast
    obtain ⟨start, lastSize⟩ := stop_last_row isLast
    rw [List.sum_replicate, List.length_replicate, one_mul, nsmul_eq_mul] at start
    exact ⟨start, lastSize⟩
  refine ⟨isChain_row, ?alike, ?larger, ?starts, ?ends⟩
  case alike =>
    intro first isFirst second isSecond
    rw [same first isFirst, same second isSecond]
  case larger =>
    intro last isLast other isOther
    obtain ⟨-, lastSize⟩ := final last isLast
    have length : (row 1 padding (evenSizes count size extra)).length = count + 1 := by
      simp [evenSizes]
    rw [same other isOther, lastSize, length]
    push_cast
    omega
  case starts =>
    intro first isFirst
    have start := @head?_row 1 padding (evenSizes count size extra)
    rw [Option.mem_def.mp isFirst, Option.map_some] at start
    cases sizes : (evenSizes count size extra).head? with
    | none =>
      rw [sizes] at start
      cases start
    | some first' =>
      rw [sizes] at start
      exact Option.some_inj.mp start
  case ends =>
    intro last isLast
    obtain ⟨start, lastSize⟩ := final last isLast
    have parts : (count + 1) * (size + 1) = count * size + count + size + 1 := by ring
    rw [Segment.stop, start, lastSize]
    omega

namespace Box

section

variable {box : Box} {a aChld : SizeAlloc} {wSize avail : Int}

theorem along_homogenousAlloc : box.along (box.homogenousAlloc a wSize aChld) =
      ⟨(box.along aChld).start, wSize⟩ := by
  unfold along homogenousAlloc
  cases box.type <;> rfl

theorem given_homogenousAlloc (sized : 0 < wSize)
    (room : 0 < (box.across a).size - box.padding * 2) :
    (box.homogenousAlloc a wSize aChld).given = box.homogenousAlloc a wSize aChld := by
  unfold across at room
  unfold homogenousAlloc
  cases type : box.type with
  | horiz =>
    rw [type] at room
    exact SizeAlloc.given_of_pos sized room
  | vert =>
    rw [type] at room
    exact SizeAlloc.given_of_pos room sized

theorem segments_homogenousLoop_last {chld : Widget} {totUsed : Int} (sized : 0 < wSize)
    (room : 0 < (box.across a).size - box.padding * 2) (left : totUsed + (wSize + 1) < avail)
    (fits : (chld.sizeAlloc (box.homogenousAlloc a wSize aChld)).undersize = false) :
    box.segments (box.homogenousLoop a wSize avail [chld] aChld totUsed) =
      [⟨(box.along aChld).start, wSize + (avail - (totUsed + (wSize + 1)))⟩] := by
  have isGiven := @given_homogenousAlloc box a aChld wSize sized room
  unfold homogenousLoop
  dsimp only
  rw [fits, isGiven, if_neg Bool.false_ne_true, if_pos List.isEmpty_nil]
  unfold across at room
  cases type : box.type with
  | horiz =>
    rw [type] at room
    simp only [homogenousAlloc, type, if_true] at room ⊢
    rw [if_pos left, segments_cons, Widget.sizeAlloc_alloc,
      SizeAlloc.given_of_pos (by dsimp only; omega) (by simpa using room)]
    simp only [along, type, segments_nil]
  | vert =>
    rw [type] at room
    simp only [homogenousAlloc, type, if_true, reduceCtorEq, if_false] at room ⊢
    rw [if_pos left, segments_cons, Widget.sizeAlloc_alloc,
      SizeAlloc.given_of_pos (by simpa using room) (by dsimp only; omega)]
    simp only [along, type, segments_nil]

theorem homogenousLoop_next {chld next : Widget} {rest : List Widget} {totUsed : Int}
    (sized : 0 < wSize) (room : 0 < (box.across a).size - box.padding * 2)
    (fits : (chld.sizeAlloc (box.homogenousAlloc a wSize aChld)).undersize = false) :
    ∃ advanced, (box.along advanced).start = (box.along aChld).start + wSize + 1 ∧
        box.homogenousLoop a wSize avail (chld :: next :: rest) aChld totUsed =
          chld.sizeAlloc (box.homogenousAlloc a wSize aChld) ::
            box.homogenousLoop a wSize avail (next :: rest) advanced (totUsed + (wSize + 1)) := by
  have isGiven := @given_homogenousAlloc box a aChld wSize sized room
  rw [homogenousLoop.eq_def]
  dsimp only
  rw [fits, isGiven, if_neg Bool.false_ne_true, List.isEmpty_cons, if_neg Bool.false_ne_true]
  cases type : box.type with
  | horiz =>
    simp only [homogenousAlloc, type, if_true]
    refine ⟨_, ?_, rfl⟩
    simp only [along, type]
    ring
  | vert =>
    simp only [homogenousAlloc, type, if_true, reduceCtorEq, if_false]
    refine ⟨_, ?_, rfl⟩
    simp only [along, type]
    ring

theorem undersize_of_fits {chld : Widget} {rest : List Widget} {totUsed : Int}
    (fits : ∀ placed ∈ box.homogenousLoop a wSize avail (chld :: rest) aChld totUsed,
      placed.undersize = false) :
    (chld.sizeAlloc (box.homogenousAlloc a wSize aChld)).undersize = false := by
  by_contra refused
  rw [Bool.not_eq_false] at refused
  have placed := fits (chld.sizeAlloc (box.homogenousAlloc a wSize aChld))
  rw [homogenousLoop] at placed
  dsimp only at placed
  rw [if_pos refused, refused] at placed
  exact absurd (placed List.mem_cons_self) (by decide)

theorem segments_homogenousLoop {chld : Widget} {rest : List Widget} {totUsed : Int}
    (sized : 0 < wSize) (room : 0 < (box.across a).size - box.padding * 2)
    (left : totUsed + (rest.length + 1) * (wSize + 1) < avail)
    (fits : ∀ placed ∈ box.homogenousLoop a wSize avail (chld :: rest) aChld totUsed,
      placed.undersize = false) :
    box.segments (box.homogenousLoop a wSize avail (chld :: rest) aChld totUsed) =
      row 1 (box.along aChld).start (evenSizes rest.length wSize
          (avail - (totUsed + (rest.length + 1) * (wSize + 1)))) := by
  have fitting := undersize_of_fits fits
  induction rest generalizing chld aChld totUsed with
  | nil =>
    rw [List.length_nil, Int.natCast_zero, zero_add, one_mul] at left ⊢
    exact segments_homogenousLoop_last sized room left fitting
  | cons next others ih =>
    obtain ⟨advanced, start, loop⟩ :=
      @homogenousLoop_next box a aChld wSize avail chld next others totUsed sized room fitting
    rw [loop] at fits ⊢
    have fitsOthers := fun placed member => fits placed (List.mem_cons_of_mem _ member)
    have total : totUsed + (wSize + 1) + (others.length + 1) * (wSize + 1) =
          totUsed + ((next :: others).length + 1) * (wSize + 1) := by
      rw [List.length_cons]
      push_cast
      ring
    have following := ih (by rwa [total]) fitsOthers (undersize_of_fits fitsOthers)
    rw [segments_cons, following, total, start, List.length_cons, evenSizes,
      evenSizes, List.replicate_succ, List.cons_append, row_cons,
      Widget.sizeAlloc_alloc, given_homogenousAlloc sized room,
      along_homogenousAlloc]

end

/-! ## The whole box -/

theorem length_homogenousLoop (box : Box) (a : SizeAlloc) (wSize avail : Int)
    (children : List Widget) (aChld : SizeAlloc) (totUsed : Int) :
    (box.homogenousLoop a wSize avail children aChld totUsed).length = children.length := by
  induction children generalizing aChld totUsed with
  | nil => rfl
  | cons chld rest ih =>
    rw [homogenousLoop.eq_def]
    dsimp only
    by_cases refused : (chld.sizeAlloc (box.homogenousAlloc a wSize aChld)).undersize = true
    · rw [if_pos refused, List.length_cons, ih, List.length_cons]
    · rw [if_neg refused]
      cases rest with
      | nil =>
        rw [if_pos List.isEmpty_nil]
        cases box.type <;> dsimp only <;> split_ifs <;> rfl
      | cons next others =>
        rw [List.isEmpty_cons, if_neg Bool.false_ne_true]
        exact congrArg Nat.succ (ih _ _)

theorem division {count : Nat} {avail : Int} (enough : 2 * (count + 1) + 1 ≤ avail) : ∃ size : Int,
      (avail - (count + 1 : Nat) - 1).tdiv (count + 1 : Nat) = size ∧ 0 < size ∧
        (count + 1) * (size + 1) < avail ∧ avail ≤ (count + 1) * (size + 1) + (count + 1) := by
  refine ⟨_, rfl, ?_⟩
  rw [Int.tdiv_eq_ediv_of_nonneg (by omega)]
  have some : (0 : Int) < (count + 1 : Nat) := by omega
  have sized : 1 ≤ (avail - (count + 1 : Nat) - 1) / (count + 1 : Nat) :=
    Int.le_ediv_of_mul_le some (by omega)
  have whole := Int.mul_ediv_add_emod (avail - (count + 1 : Nat) - 1) (count + 1 : Nat)
  have nonneg := Int.emod_nonneg (avail - (count + 1 : Nat) - 1) some.ne'
  have small := Int.emod_lt_of_pos (avail - (count + 1 : Nat) - 1) some
  push_cast at sized whole nonneg small ⊢
  refine ⟨sized, ?_, ?_⟩ <;> rw [mul_add] <;> omega

theorem available (box : Box) (a : SizeAlloc) :
    (if box.type = .horiz then a.w else a.h) = (box.along a).size := by
  unfold along
  cases box.type <;> rfl

theorem sizeAllocate_of_homogenous {box : Box} {children : List Widget}
    (homogenous : box.homogenous = true) (some : children ≠ []) (a : SizeAlloc) :
    box.sizeAllocate a children = box.homogenousLoop a
        (((box.along a).size - box.padding * 2 - children.length - 1).tdiv children.length)
        ((box.along a).size - box.padding * 2) children
        { x := box.padding, y := box.padding, w := 0, h := 0 } 0 := by
  have counted := box.countChildWidgets_fst children
  unfold sizeAllocate
  rcases count : box.countChildWidgets children with ⟨nWidgets, totFixed⟩
  rw [count] at counted
  dsimp only at counted ⊢
  rw [if_neg (by rw [counted]; simpa using some), if_pos homogenous,
    sizeAllocateHomogenous, available, counted]

end Box

/--
A homogenous box with room on both axes, none of whose children is undersized,
tiles its main axis with them.
-/
theorem homogenous_tiles (box : Box) (a : SizeAlloc) (children : List Widget)
    (homogenous : box.homogenous = true)
    (enough : 2 * children.length + 1 ≤ (box.along a).size - box.padding * 2)
    (room : 0 < (box.across a).size - box.padding * 2)
    (fits : ∀ chld ∈ box.sizeAllocate a children, chld.undersize = false) :
    (box.sizeAllocate a children).length = children.length ∧
      Tiles box.padding ((box.along a).size - box.padding * 2)
        (box.segments (box.sizeAllocate a children)) := by
  cases children with
  | nil =>
    refine ⟨rfl, List.isChain_nil, ?_, ?_, ?_, ?_⟩ <;> simp [Box.sizeAllocate,
      Box.countChildWidgets, Box.countLoop]
  | cons chld rest =>
    have allocated := Box.sizeAllocate_of_homogenous homogenous (List.cons_ne_nil chld rest) a
    rw [List.length_cons] at enough allocated
    obtain ⟨size, isSize, sized, below, above⟩ :=
      @Box.division rest.length ((box.along a).size - box.padding * 2)
        (by push_cast at enough; exact enough)
    rw [isSize] at allocated
    rw [allocated] at fits ⊢
    have start : (box.along
          { x := box.padding, y := box.padding, w := 0, h := 0 }).start =
          box.padding := by
      unfold Box.along
      cases box.type <;> rfl
    rw [Box.segments_homogenousLoop sized room (by rwa [zero_add]) fits, start, zero_add]
    exact ⟨box.length_homogenousLoop .., tiles_row (by omega) (by omega) (by omega)⟩

def acceptingChild : Widget where
  request := { w := 0, h := 0 }
  hfill := false
  vfill := false
  refuses := some fun _ => false
  alloc := { x := 0, y := 0, w := 0, h := 0 }
  undersize := false

def homogenousBox : Box where
  type := .horiz
  homogenous := true
  padding := 4
  spacing := 2
  hAlign := .left
  vAlign := .left

theorem homogenous_tiles_ten : Tiles 4 10
      (homogenousBox.segments (homogenousBox.sizeAllocate { x := 0, y := 0, w := 18, h := 20 }
          [acceptingChild, acceptingChild])) :=
  (homogenous_tiles homogenousBox { x := 0, y := 0, w := 18, h := 20 }
    [acceptingChild, acceptingChild] rfl (by decide) (by decide)
    (by decide)).2

theorem flat_box_tiles_nothing : 2 * 2 + 1 ≤
        (homogenousBox.along { x := 0, y := 0, w := 18, h := 8 }).size - homogenousBox.padding * 2 ∧
      (∀ chld ∈ homogenousBox.sizeAllocate { x := 0, y := 0, w := 18, h := 8 }
          [acceptingChild, acceptingChild],
        chld.undersize = false) ∧
      ¬ Tiles 4 10 (homogenousBox.segments
          (homogenousBox.sizeAllocate { x := 0, y := 0, w := 18, h := 8 }
            [acceptingChild, acceptingChild])) := by
  refine ⟨by decide, by decide, fun tiles => ?_⟩
  obtain ⟨reached, -⟩ := tiles.ends ⟨5, 0⟩ (by decide)
  exact absurd reached (by decide)

end Agar.Gui
