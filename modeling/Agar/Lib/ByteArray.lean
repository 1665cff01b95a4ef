import Mathlib

namespace Agar.Lib

/-!
# Byte arrays that are resized and overwritten

Two operations on a list of cells: `resize` grows or shrinks it, taking the
new cells from an environment, and `splice` overwrites a range.  Together they
describe memory that is reallocated and copied into, and arrays of which a
write replaces or extends a range of positions.  What a write leaves at its
range, and what it keeps beside it, is said with `SegmentAt`.
-/

variable {β : Type}

/-- Change the length, filling cells that did not exist from `fresh`. -/
def resize (fresh : Nat → β) (length : Nat) (cells : List β) : List β :=
  cells.take length ++ (List.range' cells.length (length - cells.length)).map fresh

/-- Overwrite the positions from `start` on with new cells. -/
def splice (cells : List β) (start : Nat) (new : List β) : List β :=
  cells.take start ++ new ++ cells.drop (start + new.length)

variable (fresh : Nat → β)

@[simp] theorem length_resize (length : Nat) (cells : List β) :
    (resize fresh length cells).length = length := by
  simp only [resize, List.length_append, List.length_take, List.length_map, List.length_range']
  omega

@[simp] theorem resize_length (cells : List β) : resize fresh cells.length cells = cells := by
  simp [resize]

variable {cells new : List β} {start : Nat}

theorem length_splice (inside : start + new.length ≤ cells.length) :
    (splice cells start new).length = cells.length := by
  simp only [splice, List.length_append, List.length_take, List.length_drop]
  omega

@[simp] theorem splice_nil (cells : List β) (start : Nat) : splice cells start [] = cells := by
  simp [splice]

theorem splice_whole (sameLength : new.length = cells.length) : splice cells 0 new = new := by
  rw [splice, List.take_zero, List.nil_append, Nat.zero_add, sameLength,
    List.drop_length, List.append_nil]

/--
Write cells at a position, growing the array when the range ends beyond it.
Writing no cells leaves the array alone wherever it is asked for.
-/
def store (fresh : Nat → β) (cells : List β) (start : Nat) (new : List β) : List β :=
  if new.isEmpty then cells
  else splice (resize fresh (max cells.length (start + new.length)) cells) start new

theorem length_store (cells new : List β) (start : Nat) : (store fresh cells start new).length =
      if new.isEmpty then cells.length
      else max cells.length (start + new.length) := by
  unfold store
  split
  · rfl
  · rw [length_splice]
    · exact length_resize fresh _ cells
    · rw [length_resize]
      exact Nat.le_max_right _ _

theorem store_extending {fresh : Nat → β} (nonempty : new ≠ [])
    (beyond : cells.length ≤ start + new.length) :
    store fresh cells start new = splice (resize fresh (start + new.length) cells) start new := by
  rw [store, if_neg (by simpa using nonempty), Nat.max_eq_right beyond]

theorem store_inside {fresh : Nat → β} (inside : start + new.length ≤ cells.length) :
    store fresh cells start new = splice cells start new := by
  unfold store
  split
  case isTrue empty =>
    rw [List.isEmpty_iff] at empty
    rw [empty, splice_nil]
  case isFalse => rw [Nat.max_eq_left inside, resize_length]

/-! ## Segments -/

theorem getElem?_resize {fresh : Nat → β} {length index : Nat} (old : index < cells.length)
    (inside : index < length) : (resize fresh length cells)[index]? = cells[index]? := by
  rw [resize, List.getElem?_append_left, List.getElem?_take_of_lt inside]
  rw [List.length_take]
  exact Nat.lt_min.mpr ⟨inside, old⟩

theorem getElem?_resize_fresh {fresh : Nat → β} {length index : Nat} (new : cells.length ≤ index)
    (inside : index < length) : (resize fresh length cells)[index]? = some (fresh index) := by
  have kept : cells.take length = cells := List.take_of_length_le (new.trans inside.le)
  rw [resize, kept, List.getElem?_append_right new, List.getElem?_map,
    List.getElem?_range' (by omega), Option.map_some]
  congr 2
  omega

theorem getElem?_splice (inside : start + new.length ≤ cells.length) (index : Nat) :
    (splice cells start new)[index]? = if start ≤ index ∧ index < start + new.length then
        new[index - start]?
      else
        cells[index]? := by
  have before : (cells.take start).length = start := by
    rw [List.length_take]
    omega
  unfold splice
  split
  case isTrue within =>
    rw [List.append_assoc, List.getElem?_append_right (by omega), before,
      List.getElem?_append_left (by omega)]
  case isFalse outside =>
    by_cases below : index < start
    · rw [List.append_assoc, List.getElem?_append_left (by omega), List.getElem?_take_of_lt below]
    · rw [List.getElem?_append_right (by rw [List.length_append, before]; omega),
        List.length_append, before, List.getElem?_drop]
      congr 1
      omega

theorem drop_splice (inside : start + new.length ≤ cells.length) :
    (splice cells start new).drop (start + new.length) = cells.drop (start + new.length) := by
  have before : (cells.take start ++ new).length = start + new.length := by
    rw [List.length_append, List.length_take]
    omega
  rw [splice, ← before, List.drop_left]

/-- The cells from a position on start with the given ones. -/
structure SegmentAt (cells : List β) (start : Nat) (part : List β) : Prop where
  inside : start + part.length ≤ cells.length
  holds : ∀ index < part.length, cells[start + index]? = part[index]?

variable {part : List β}

theorem SegmentAt.read (segment : SegmentAt cells start part) :
    (cells.drop start).take part.length = part := by
  apply List.ext_getElem?
  intro index
  by_cases within : index < part.length
  · rw [List.getElem?_take_of_lt within, List.getElem?_drop, segment.holds index within]
  · rw [List.getElem?_take_eq_none (Nat.le_of_not_lt within),
      List.getElem?_eq_none (Nat.le_of_not_lt within)]

theorem SegmentAt.drop_eq (segment : SegmentAt cells start part) :
    ∃ rest, cells.drop start = part ++ rest := by
  refine ⟨(cells.drop start).drop part.length, ?_⟩
  have split := List.take_append_drop part.length (cells.drop start)
  rwa [segment.read, eq_comm] at split

theorem segmentAt_append {next : List β} : SegmentAt cells start (part ++ next) ↔
      SegmentAt cells start part ∧ SegmentAt cells (start + part.length) next := by
  constructor
  · rintro ⟨inside, holds⟩
    rw [List.length_append] at inside
    refine ⟨⟨by omega, fun index within => ?_⟩, ⟨by omega, fun index within => ?_⟩⟩
    · rw [holds index (by rw [List.length_append]; omega), List.getElem?_append_left within]
    · rw [Nat.add_assoc, holds _ (by rw [List.length_append]; omega),
        List.getElem?_append_right (Nat.le_add_right _ _),
        Nat.add_sub_cancel_left]
  · rintro ⟨first, second⟩
    have inside := second.inside
    refine ⟨by rw [List.length_append]; omega, fun index within => ?_⟩
    rw [List.length_append] at within
    by_cases early : index < part.length
    · rw [first.holds index early, List.getElem?_append_left early]
    · have late := second.holds (index - part.length) (by omega)
      rw [List.getElem?_append_right (Nat.le_of_not_lt early), ← late]
      congr 1
      omega

theorem SegmentAt.drop {cells part : List β} {start : Nat} (segment : SegmentAt cells start part)
    {count : Nat} (within : count ≤ part.length) :
    SegmentAt cells (start + count) (part.drop count) := by
  rw [← List.take_append_drop count part, segmentAt_append,
    List.length_take, Nat.min_eq_left within] at segment
  exact segment.2

theorem segmentAt_splice (inside : start + new.length ≤ cells.length) :
    SegmentAt (splice cells start new) start new := by
  refine ⟨by rwa [length_splice inside], fun index within => ?_⟩
  rw [getElem?_splice inside, if_pos ⟨Nat.le_add_right _ _, by omega⟩, Nat.add_sub_cancel_left]

theorem SegmentAt.splice {place : Nat} (segment : SegmentAt cells start part)
    (inside : place + new.length ≤ cells.length)
    (beside : start + part.length ≤ place ∨ place + new.length ≤ start) :
    SegmentAt (Lib.splice cells place new) start part := by
  refine ⟨by rw [length_splice inside]; exact segment.inside, fun index within => ?_⟩
  rw [getElem?_splice inside, if_neg (by omega), segment.holds index within]

theorem SegmentAt.resize {fresh : Nat → β} {length : Nat} (segment : SegmentAt cells start part)
    (inside : start + part.length ≤ length) :
    SegmentAt (Lib.resize fresh length cells) start part := by
  have old := segment.inside
  refine ⟨by rwa [length_resize], fun index within => ?_⟩
  rw [getElem?_resize (by omega) (by omega), segment.holds index within]

theorem segmentAt_store (reaches : new = [] → start ≤ cells.length) :
    SegmentAt (store fresh cells start new) start new := by
  unfold store
  split
  case isTrue empty =>
    rw [List.isEmpty_iff] at empty
    subst new
    exact ⟨reaches rfl, nofun⟩
  case isFalse =>
    apply segmentAt_splice
    rw [length_resize]
    exact Nat.le_max_right _ _

theorem SegmentAt.store {fresh : Nat → β} {place : Nat} (segment : SegmentAt cells start part)
    (beside : start + part.length ≤ place ∨ place + new.length ≤ start) :
    SegmentAt (Lib.store fresh cells place new) start part := by
  have inside := segment.inside
  unfold Lib.store
  split
  case isTrue => exact segment
  case isFalse =>
    refine SegmentAt.splice (segment.resize (by omega)) ?_ beside
    rw [length_resize]
    exact Nat.le_max_right _ _

end Agar.Lib
