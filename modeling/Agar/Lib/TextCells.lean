import Agar.Lib.ByteArray

namespace Agar.Lib

/-!
# Texts in arrays of cells

An array holds a text at its beginning, with a terminator behind it.  An edit
replaces a range of the text: the range is closed up by moving what is behind
it down, and new cells get their room by moving what is behind them up.
-/

variable {β : Type}

/-- The text in which some elements from `start` on are replaced -/
def replaceRange (text : List β) (start count : Nat) (new : List β) : List β :=
  text.take start ++ new ++ text.drop (start + count)

/-- The elements of a range of a text -/
def rangeOf (text : List β) (start count : Nat) : List β := (text.drop start).take count

theorem replaceRange_append {text : List β} {start : Nat} (inside : start ≤ text.length)
    (count : Nat) (first second : List β) :
    replaceRange (replaceRange text start count first) (start + first.length) 0 second =
      replaceRange text start count (first ++ second) := by
  have length : (text.take start ++ first).length = start + first.length := by
    rw [List.length_append, List.length_take, Nat.min_eq_left inside]
  unfold replaceRange
  rw [Nat.add_zero, List.take_left' length, List.drop_left' length,
    List.append_assoc (text.take start)]

theorem replaceRange_restore {text : List β} {start : Nat} (inside : start ≤ text.length)
    (count : Nat) :
    replaceRange (replaceRange text start count []) start 0 (rangeOf text start count) = text := by
  have putBack := replaceRange_append inside count [] (rangeOf text start count)
  rw [List.length_nil, Nat.add_zero, List.nil_append] at putBack
  rw [putBack, replaceRange, rangeOf, List.append_assoc, ← List.drop_drop,
    List.take_append_drop, List.take_append_drop]

theorem length_rangeOf {text : List β} {start count : Nat} (inside : start + count ≤ text.length) :
    (rangeOf text start count).length = count := by
  rw [rangeOf, List.length_take, List.length_drop]
  omega

theorem length_replaceRange {text : List β} {start count : Nat}
    (inside : start + count ≤ text.length) (new : List β) :
    (replaceRange text start count new).length + count = text.length + new.length := by
  simp only [replaceRange, List.length_append, List.length_take, List.length_drop]
  omega

/-! ## Copying and moving cells -/

/-- `memcpy` to an offset of an array, inside its bounds -/
def copyCells? (cells : List β) (start : Int) (new : List β) : Option (List β) :=
  if 0 ≤ start ∧ start + new.length ≤ cells.length then some (splice cells start.toNat new)
  else none

/-- `memmove` inside an array -/
def moveCells? (cells : List β) (dst src : Int) (count : Nat) : Option (List β) :=
  if 0 ≤ src ∧ src + count ≤ cells.length then copyCells? cells dst (rangeOf cells src.toNat count)
  else none

variable {cells text new : List β} {terminator : β} {start count : Nat}

theorem copyCells?_inside (inside : start + new.length ≤ cells.length) :
    copyCells? cells start new = some (splice cells start new) :=
  if_pos ⟨Int.natCast_nonneg _, by omega⟩

theorem moveCells?_inside {dst src : Nat} (source : src + count ≤ cells.length)
    (target : dst + count ≤ cells.length) :
    moveCells? cells dst src count = some (splice cells dst (rangeOf cells src count)) := by
  rw [moveCells?, if_pos ⟨Int.natCast_nonneg _, by omega⟩, Int.toNat_natCast]
  exact copyCells?_inside (by rwa [length_rangeOf source])

variable {after : List β}

theorem copyCells?_eq_some {place : Int} : copyCells? cells place new = some after ↔
      (0 ≤ place ∧ place + new.length ≤ cells.length) ∧ splice cells place.toNat new = after := by
  unfold copyCells?
  split
  case isTrue inside => simp [inside]
  case isFalse outside => simp [outside]

theorem length_of_copyCells? {place : Int} (copied : copyCells? cells place new = some after) :
    after.length = cells.length := by
  obtain ⟨inside, rfl⟩ := copyCells?_eq_some.mp copied
  exact length_splice (by omega)

theorem length_of_moveCells? {dst src : Int} (moved : moveCells? cells dst src count = some after) :
    after.length = cells.length := by
  unfold moveCells? at moved
  split at moved
  case isTrue => exact length_of_copyCells? moved
  case isFalse => cases moved

theorem take_of_copyCells? (copied : copyCells? cells start new = some after) :
    after.take start = cells.take start := by
  obtain ⟨inside, rfl⟩ := copyCells?_eq_some.mp copied
  rw [Int.toNat_natCast, splice, List.append_assoc]
  exact List.take_left' (by rw [List.length_take]; omega)

theorem moveCells?_self {place : Int} (moved : moveCells? cells place place count = some after) :
    after = cells := by
  unfold moveCells? at moved
  split at moved
  case isTrue inside =>
    obtain ⟨-, rfl⟩ := copyCells?_eq_some.mp moved
    rw [splice, length_rangeOf (by omega), rangeOf, List.append_assoc,
      ← List.drop_drop, List.take_append_drop, List.take_append_drop]
  case isFalse => cases moved

/-! ## The text of an array -/

/-- An array begins with a text and a terminator. -/
def HoldsText (terminator : β) (cells text : List β) : Prop := text ++ [terminator] <+: cells

theorem HoldsText.length_lt (holds : HoldsText terminator cells text) :
    text.length < cells.length := by
  have inside := holds.length_le
  rw [List.length_append, List.length_singleton] at inside
  exact inside

theorem HoldsText.exists_rest (holds : HoldsText terminator cells text) :
    ∃ rest, cells = text ++ terminator :: rest := by
  obtain ⟨rest, whole⟩ := holds
  refine ⟨rest, ?_⟩
  rw [← whole, List.append_assoc, List.singleton_append]

theorem HoldsText.take (holds : HoldsText terminator cells text) :
    cells.take text.length = text := by
  obtain ⟨rest, rfl⟩ := holds.exists_rest
  exact List.take_left

theorem HoldsText.rangeOf (holds : HoldsText terminator cells text)
    (inside : start + count ≤ text.length) :
    rangeOf cells start count = Lib.rangeOf text start count := by
  obtain ⟨rest, rfl⟩ := holds.exists_rest
  rw [Lib.rangeOf, Lib.rangeOf, List.drop_append_of_le_length (by omega),
    List.take_append_of_le_length (by rw [List.length_drop]; omega)]

theorem HoldsText.resize (holds : HoldsText terminator cells text) (fresh : Nat → β) {length : Nat}
    (room : text.length < length) : HoldsText terminator (Lib.resize fresh length cells) text := by
  have kept : text ++ [terminator] <+: cells.take length := by
    refine List.prefix_take_iff.mpr ⟨holds, ?_⟩
    rw [List.length_append, List.length_singleton]
    exact room
  exact kept.trans (List.prefix_append _ _)

theorem HoldsText.cutShort (holds : HoldsText terminator cells text)
    (inside : start ≤ text.length) :
    HoldsText terminator (splice cells start [terminator]) (text.take start) := by
  obtain ⟨rest, rfl⟩ := holds.exists_rest
  rw [splice, List.take_append_of_le_length inside]
  exact List.prefix_append _ _

theorem HoldsText.closeUp (holds : HoldsText terminator cells text)
    (inside : start + count ≤ text.length) :
    HoldsText terminator (splice cells start (Lib.rangeOf cells (start + count)
          (text.length + 1 - (start + count))))
      (replaceRange text start count []) := by
  obtain ⟨rest, rfl⟩ := holds.exists_rest
  have behind : Lib.rangeOf (text ++ terminator :: rest) (start + count)
          (text.length + 1 - (start + count)) =
        text.drop (start + count) ++ [terminator] := by
    have length : text.length + 1 - (start + count) = (text.drop (start + count)).length + 1 := by
      rw [List.length_drop]
      omega
    rw [Lib.rangeOf, List.drop_append_of_le_length inside, length,
      List.take_length_add_append, List.take_succ_cons, List.take_zero]
  rw [behind, splice, List.take_append_of_le_length (by omega), replaceRange,
    List.append_nil, ← List.append_assoc (text.take start)]
  exact List.prefix_append _ _

theorem splice_append (front cells new : List β) : splice (front ++ cells) front.length new =
      front ++ new ++ cells.drop new.length := by
  rw [splice, List.take_left, List.drop_length_add_append]

theorem HoldsText.insert (holds : HoldsText terminator cells text) (inside : start ≤ text.length)
    (room : text.length + new.length < cells.length) :
    HoldsText terminator (splice (splice (splice cells (start + new.length)
            (Lib.rangeOf cells start (text.length - start)))
          start new)
        (text.length + new.length) [terminator])
      (replaceRange text start 0 new) := by
  have range : Lib.rangeOf cells start (text.length - start) = text.drop start := by
    rw [holds.rangeOf (by omega), Lib.rangeOf, List.take_of_length_le (by rw [List.length_drop])]
  have frontLength : (text.take start).length = start := by
    rw [List.length_take, Nat.min_eq_left inside]
  have front : cells.take start = text.take start := by
    rw [← List.take_append_drop text.length cells, holds.take, List.take_append_of_le_length inside]
  -- what the room holds until the new cells are copied into it
  have gapLength : ((cells.drop start).take new.length).length = new.length :=
    length_rangeOf (by omega)
  have moved : splice cells (start + new.length) (text.drop start) =
        text.take start ++ ((cells.drop start).take new.length ++ (text.drop start ++
            cells.drop (start + new.length + (text.drop start).length))) := by
    rw [splice, List.take_add, front, List.append_assoc, List.append_assoc]
  have filled : ∃ tail, splice (splice cells (start + new.length) (text.drop start)) start new =
          replaceRange text start 0 new ++ tail := by
    have copied := splice_append (text.take start)
      ((cells.drop start).take new.length ++ (text.drop start ++
          cells.drop (start + new.length + (text.drop start).length))) new
    rw [frontLength, List.drop_left' gapLength] at copied
    exact ⟨_, (congrArg (splice · start new) moved).trans
      (copied.trans (List.append_assoc _ _ _).symm)⟩
  obtain ⟨tail, filled⟩ := filled
  have length := @length_replaceRange _ _ _ 0 inside new
  rw [Nat.add_zero] at length
  rw [range, filled, ← length, splice_append]
  exact List.prefix_append _ _

end Agar.Lib
