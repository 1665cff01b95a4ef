import Agar.Lib.ByteArray
import Agar.Lib.CString

namespace Agar.Lib

/-!
# Buffers of a fixed size

A `Buffer size` is an array of that many bytes.  Copying into it is possible
only inside its bounds, so that its size never changes; what it holds is told
by its segments.
-/

/-- An array of `size` bytes. -/
structure Buffer (size : Nat) where
  bytes : List UInt8
  full : bytes.length = size
  deriving DecidableEq

namespace Buffer

variable {size : Nat}

/-- A buffer of zeroes. -/
def zeroed : Buffer size where
  bytes := List.replicate size 0
  full := List.length_replicate

theorem full_of_splice (buffer : Buffer size) {start : Nat} {new : List UInt8}
    (inside : start + new.length ≤ size) : (splice buffer.bytes start new).length = size := by
  rw [length_splice (by rwa [buffer.full]), buffer.full]

/-- Copy bytes to an offset, if they end inside the buffer. -/
def copy? (buffer : Buffer size) (start : Nat) (new : List UInt8) : Option (Buffer size) :=
  if inside : start + new.length ≤ size then
    some {
      bytes := splice buffer.bytes start new
      full := full_of_splice buffer inside
    }
  else none

/-- Move some bytes of the buffer to an offset, inside the buffer. -/
def move? (buffer : Buffer size) (dst src count : Nat) : Option (Buffer size) :=
  if src + count ≤ size then buffer.copy? dst ((buffer.bytes.drop src).take count) else none

variable {buffer next : Buffer size} {start : Nat} {new : List UInt8}

theorem copy?_eq_some : buffer.copy? start new = some next ↔ start + new.length ≤ size ∧
        next.bytes = splice buffer.bytes start new := by
  unfold copy?
  split
  case isTrue inside =>
    rw [Option.some.injEq]
    constructor
    · rintro rfl
      exact ⟨inside, rfl⟩
    · intro same
      cases next
      cases same.2
      rfl
  case isFalse outside =>
    constructor
    · intro none
      cases none
    · intro same
      exact absurd same.1 outside

theorem copy?_inside (buffer : Buffer size) (inside : start + new.length ≤ size) :
    ∃ next, buffer.copy? start new = some next :=
  ⟨_, dif_pos inside⟩

theorem segment_of_copy? (copied : buffer.copy? start new = some next) :
    SegmentAt next.bytes start new := by
  obtain ⟨inside, same⟩ := copy?_eq_some.mp copied
  rw [same]
  rw [← buffer.full] at inside
  exact segmentAt_splice inside

theorem segment_beside_copy? {place : Nat} {part : List UInt8}
    (copied : buffer.copy? start new = some next) (segment : SegmentAt buffer.bytes place part)
    (beside : place + part.length ≤ start ∨ start + new.length ≤ place) :
    SegmentAt next.bytes place part := by
  obtain ⟨inside, same⟩ := copy?_eq_some.mp copied
  rw [same]
  rw [← buffer.full] at inside
  exact segment.splice inside beside

theorem segment_append_copy? {written : List UInt8} (segment : SegmentAt buffer.bytes 0 written)
    (copied : buffer.copy? written.length new = some next) :
    SegmentAt next.bytes 0 (written ++ new) := by
  refine segmentAt_append.mpr ⟨?_, ?_⟩
  · exact segment_beside_copy? copied segment (.inl (Nat.zero_add _).le)
  · rw [Nat.zero_add]
    exact segment_of_copy? copied

theorem move?_eq_copy? {src : Nat} {part : List UInt8} (segment : SegmentAt buffer.bytes src part)
    (dst : Nat) : buffer.move? dst src part.length = buffer.copy? dst part := by
  have inside := segment.inside
  rw [buffer.full] at inside
  rw [move?, if_pos inside, segment.read]

end Buffer

theorem cString_of_segment {bytes text : List UInt8} {start : Nat}
    (segment : SegmentAt bytes start (text ++ [0])) (noNul : 0 ∉ text) :
    cString (bytes.drop start) = text := by
  obtain ⟨rest, whole⟩ := segment.drop_eq
  rw [whole, List.append_assoc]
  exact cString_terminated noNul rest

end Agar.Lib
