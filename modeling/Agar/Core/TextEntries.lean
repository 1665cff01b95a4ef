import Agar.Core.Text
import Agar.Lib.Terminated
import Agar.Lib.TextCells

namespace Agar.Core

open Agar.Lib

/-!
# Entries of internationalised texts

The buffer of an entry holds a string in memory of at least the size that is
kept beside it, and the length is that of the string.  Appending to the string
relies on both.
-/

section

variable {te : TextEnt} {bytes : List UInt8}

/-- The entry has a string in its buffer, and the string's length. -/
structure TextEnt.Has (te : TextEnt) (bytes : List UInt8) : Prop where
  memory : ∃ memory, te.buf = some memory ∧ HoldsString memory te.maxLen bytes
  len : te.len = bytes.length

/-- What an entry is to be: one that has a string, or all empty -/
def TextEnt.Proper (te : TextEnt) : Prop := te = .empty ∨ ∃ bytes, te.Has bytes

theorem cString_of_holdsString {memory : List UInt8} {size : Nat}
    (holds : HoldsString memory size bytes) : cString memory = bytes := by
  obtain ⟨rest, rfl⟩ := holds.stored
  rw [List.append_assoc]
  exact cString_terminated holds.noNul rest

theorem TextEnt.Has.text (has : te.Has bytes) : te.text = some bytes := by
  obtain ⟨memory, buffer, holds⟩ := has.memory
  rw [TextEnt.text, buffer, Option.map_some, cString_of_holdsString holds]

theorem TextEnt.Proper.has (proper : te.Proper) (text : te.text = some bytes) : te.Has bytes := by
  rcases proper with rfl | ⟨stored, has⟩
  · cases text
  · rwa [Option.some_inj.mp (has.text.symm.trans text)] at has

theorem TextEnt.Has.realloc (has : te.Has bytes) (fresh : Nat → UInt8) {maxLenNew : Nat}
    (room : bytes.length < maxLenNew) :
    ∃ memory, (te.realloc fresh maxLenNew).buf = some memory ∧
        HoldsString memory (te.realloc fresh maxLenNew).maxLen bytes ∧
        maxLenNew ≤ (te.realloc fresh maxLenNew).maxLen ∧
        (te.realloc fresh maxLenNew).len = te.len := by
  obtain ⟨memory, buffer, holds⟩ := has.memory
  unfold TextEnt.realloc
  split
  case isTrue grows =>
    have kept : HoldsText 0 memory bytes := holds.stored
    refine ⟨resize fresh maxLenNew memory, ?_, ?_, Nat.le_refl _, rfl⟩
    · rw [buffer]
      rfl
    · exact
        { noNul := holds.noNul
          fits := room
          inside := (length_resize fresh maxLenNew memory).ge
          stored := kept.resize fresh room }
  case isFalse keeps => exact ⟨memory, buffer, holds, by omega, rfl⟩

theorem AgText.catS_has {txt : AgText} (has : (txt.ent txt.lang).Has bytes) (fresh : Nat → UInt8)
    {s : List UInt8} (noNul : 0 ∉ s) :
    ∃ txt', txt.catS fresh s = .ok (txt', 0) ∧ (txt'.ent txt.lang).Has (bytes ++ s) := by
  have behind : bytes.length < (txt.ent txt.lang).len + s.length + 1 := by
    rw [has.len]
    omega
  obtain ⟨memory, buffer, holds, grown, sameLen⟩ := has.realloc fresh behind
  generalize moved : (txt.ent txt.lang).realloc fresh
      ((txt.ent txt.lang).len + s.length + 1) = te at buffer holds grown sameLen
  have len : te.len = bytes.length := by rw [sameLen, has.len]
  have inside := holds.inside
  have room : te.len + (s ++ [0]).length ≤ memory.length := by
    rw [List.length_append, List.length_singleton]
    omega
  have copied : te.copy te.len (s ++ [0]) =
        .ok { te with buf := some (splice memory te.len (s ++ [0])) } := by
    rw [TextEnt.copy, buffer]
    exact if_pos room
  refine ⟨txt.setEnt txt.lang
    { te with buf := some (splice memory te.len (s ++ [0])), len := te.len + s.length }, ?_, ?_⟩
  · rw [AgText.catS, moved, copied]
    exact rfl
  · rw [AgText.setEnt_self]
    refine ⟨⟨_, rfl, ?_, ?_, ?_, ?_⟩, ?_⟩
    · rw [List.mem_append, not_or]
      exact ⟨holds.noNul, noNul⟩
    · rw [List.length_append]
      dsimp only
      omega
    · rw [length_splice room]
      exact inside
    · obtain ⟨rest, rfl⟩ := holds.stored
      have front : (bytes ++ [0] ++ rest).take te.len = bytes := by
        rw [len, List.append_assoc, List.take_left]
      rw [splice, front, ← List.append_assoc bytes]
      exact List.prefix_append _ _
    · rw [List.length_append, ← len]

end

end Agar.Core
