import Agar.Lib.ByteArray
import Agar.Lib.CString

namespace Agar.Lib

/-!
# Terminated strings at the beginning of memory

A buffer of `size` bytes at the beginning of some memory holds a string that is
terminated inside the buffer.  Appending as `strlcat` does keeps it so, takes
what there is room for, and leaves the memory behind the buffer as it is.
-/

/-- The first `size` bytes of the memory hold a terminated string. -/
structure HoldsString (memory : List UInt8) (size : Nat) (text : List UInt8) : Prop where
  noNul : 0 ∉ text
  fits : text.length < size
  inside : size ≤ memory.length
  stored : text ++ [0] <+: memory

/--
`strlcat`, or `none` where it leaves the memory: the end of the string is
looked for in `size` bytes, and what there is room for is stored behind it.
-/
def strlcatAt (memory src : List UInt8) (size : Nat) : Option (List UInt8) :=
  let front := (memory.take size).takeWhile (· ≠ 0)
  let stored := src.take (size - front.length - 1) ++ [0]
  if front.length = size then some memory
  else if front.length + stored.length ≤ memory.length then some (splice memory front.length stored)
  else none

/-- `dst[0] = '\0'` -/
def terminateAt (memory : List UInt8) : Option (List UInt8) :=
  if memory = [] then none else some (splice memory 0 [0])

/-- Memory is changed in its first `size` bytes only. -/
structure ChangedInside (before after : List UInt8) (size : Nat) : Prop where
  length : after.length = before.length
  behind : after.drop size = before.drop size

variable {memory middle after : List UInt8} {size : Nat} {text : List UInt8}

theorem ChangedInside.refl (memory : List UInt8) (size : Nat) : ChangedInside memory memory size :=
  ⟨rfl, rfl⟩

theorem ChangedInside.trans (first : ChangedInside memory middle size)
    (second : ChangedInside middle after size) : ChangedInside memory after size :=
  ⟨second.length.trans first.length, second.behind.trans first.behind⟩

theorem changedInside_splice {start : Nat} {new : List UInt8} (fits : start + new.length ≤ size)
    (inside : start + new.length ≤ memory.length) :
    ChangedInside memory (splice memory start new) size := by
  refine ⟨length_splice inside, ?_⟩
  apply List.ext_getElem?
  intro index
  rw [List.getElem?_drop, List.getElem?_drop, getElem?_splice inside, if_neg (by omega)]

theorem HoldsString.front (holds : HoldsString memory size text) :
    (memory.take size).takeWhile (· ≠ 0) = text := by
  obtain ⟨rest, shape⟩ := holds.stored
  have fits := holds.fits
  rw [← shape, List.append_assoc, List.take_append,
    List.take_of_length_le fits.le, List.singleton_append,
    List.take_cons (by omega)]
  exact cString_terminated holds.noNul _

theorem HoldsString.strlcatAt (holds : HoldsString memory size text) {src : List UInt8}
    (noNul : 0 ∉ src) :
    ∃ after, strlcatAt memory src size = some after ∧
        HoldsString after size ((text ++ src).take (size - 1)) ∧
        ChangedInside memory after size := by
  have fits := holds.fits
  have inside := holds.inside
  have room : text.length + (src.take (size - text.length - 1) ++ [0]).length ≤ size := by
    rw [List.length_append, List.length_take, List.length_singleton]
    omega
  refine ⟨_, ?_, ?_, changedInside_splice room (room.trans inside)⟩
  · rw [Lib.strlcatAt, holds.front, if_neg fits.ne, if_pos (room.trans inside)]
  · have whole : (text ++ src).take (size - 1) = text ++ src.take (size - text.length - 1) := by
      rw [List.take_append, List.take_of_length_le (by omega)]
      congr 2
      omega
    rw [whole]
    refine ⟨?_, ?_, ?_, ?_⟩
    · rw [List.mem_append, not_or]
      exact ⟨holds.noNul, fun nul => noNul (List.mem_of_mem_take nul)⟩
    · rw [List.length_append, List.length_take]
      omega
    · rw [length_splice (room.trans inside)]
      exact inside
    · obtain ⟨rest, shape⟩ := holds.stored
      have before : memory.take text.length = text := by
        rw [← shape, List.append_assoc, List.take_left]
      rw [splice, before, List.append_assoc]
      exact List.prefix_append _ _

end Agar.Lib
