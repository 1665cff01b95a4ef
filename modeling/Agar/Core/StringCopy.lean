import Agar.Core.StringRecord

namespace Agar.Core

open Agar.Lib

/-!
# Strings copied into a buffer

Whether `AG_CopyString` takes the whole record of a string.  Where the string
is too long for the buffer, it reads no more than the buffer takes, and returns
the length with a terminator.
-/

namespace DataSource

variable {ds : DataSource} {start : Nat} {s : List UInt8}

theorem readStringLen_cursor {final : DataSource} {allocation : Allocation} {maxlen : Nat}
    {buffer : List UInt8} (segment : ds.backend.Segment start (ds.stringRecord s))
    (plain : ds.debug = false) (encoded : s.length < 2 ^ 32) (cursor : ds.tell = start)
    (read : ds.readStringLen allocation maxlen = .ok (buffer, final)) :
    final.tell = (start + (ds.stringRecord s).length : Nat) := by
  by_cases inLimit : s.length ≤ maxlen % 2 ^ 32
  · cases granted : allocation.grants (s.length + 1) with
    | true =>
      obtain ⟨after, readToo, consumed⟩ :=
        readStringLen_segment segment plain inLimit granted cursor
      rw [read] at readToo
      cases readToo
      rw [consumed.cursor, cursor, Nat.cast_add]
    | false =>
      have refused := readStringLen_segment_refused segment plain inLimit granted cursor
      rw [read] at refused
      cases refused
  · have refused :=
      readStringHeader_segment_long segment plain encoded (Nat.lt_of_not_le inLimit) cursor
    rw [readStringLen, refused] at read
    cases read

theorem copyString_long {after : DataSource} {dstSize count : Nat} {copied : List UInt8}
    (segment : ds.backend.Segment start (ds.stringRecord s)) (encoded : s.length < 2 ^ 32)
    (cursor : ds.tell = start) (long : (dstSize - 1) % 2 ^ 32 < s.length)
    (returned : ds.copyString dstSize = .ok (count, copied, after)) : count = s.length + 1 := by
  obtain ⟨typed, header, headed, matching, readHeader, decoded, _, _⟩ :=
    copyString_header segment encoded cursor
  unfold copyString at returned
  rw [matching] at returned
  simp only [bind, Except.bind, not_true_eq_false, if_false, readHeader,
    decoded, if_pos long] at returned
  split at returned
  · cases returned
    rfl
  · split at returned
    · cases returned
    · cases returned
      rfl

end DataSource

/--
The longest start of a string that fits is copied, the length of the string is
returned, and the cursor is left behind the string, where `AG_ReadString`
leaves it.
-/
def CopiesWhole (ds : DataSource) (start dstSize : Nat) (s : List UInt8) : Prop :=
  ∃ after, ds.copyString dstSize = .ok (s.length, s.take (dstSize - 1), after) ∧
      after.tell = (start + (ds.stringRecord s).length : Nat) ∧
      ∀ allocation buffer final, ds.readString allocation = .ok (buffer, final) →
          final.tell = after.tell

/--
Without type codes, a string is copied and its record consumed exactly when the
buffer has room for it, as far as the low 32 bits of its size tell.
-/
theorem string_copied_iff {ds : DataSource} {start dstSize : Nat} {s : List UInt8}
    (segment : ds.backend.Segment start (ds.stringRecord s)) (plain : ds.debug = false)
    (encoded : s.length < 2 ^ 32) (cursor : ds.tell = start) (_nonempty : 1 ≤ dstSize) :
    CopiesWhole ds start dstSize s ↔ s.length ≤ (dstSize - 1) % 2 ^ 32 := by
  constructor
  · rintro ⟨after, returned, _⟩
    by_contra long
    have counted :=
      DataSource.copyString_long segment encoded cursor (Nat.lt_of_not_le long) returned
    exact Nat.ne_of_lt (Nat.lt_succ_self _) counted
  · intro fits
    obtain ⟨after, copied, consumed⟩ := DataSource.copyString_segment segment fits cursor
    have whole : s.take (dstSize - 1) = s := List.take_of_length_le (fits.trans (Nat.mod_le _ _))
    have reached : after.tell = (start + (ds.stringRecord s).length : Nat) := by
      rw [consumed.cursor, cursor, Nat.cast_add]
    refine ⟨after, by rw [whole, copied], reached, fun _ _ _ read => ?_⟩
    rw [reached]
    exact DataSource.readStringLen_cursor segment plain encoded cursor read

def twoCharacters : DataSource := .openConstCore .zeroed [0, 0, 0, 2, 65, 66]

theorem twoCharacters_segment :
    twoCharacters.backend.Segment 0 (twoCharacters.stringRecord [65, 66]) := by
  have record : twoCharacters.stringRecord [65, 66] = [0, 0, 0, 2, 65, 66] := by decide
  rw [record]
  refine ⟨⟨Nat.le_refl _, fun index _ => ?_⟩, Nat.le_refl _, by decide⟩
  rw [Nat.zero_add]
  rfl

theorem string_copied_iff_three_bytes : CopiesWhole twoCharacters 0 3 [65, 66] :=
  (string_copied_iff twoCharacters_segment rfl (by decide) rfl (by decide)).mpr (by decide)

theorem string_cut_off_two_bytes : ∃ after, twoCharacters.copyString 2 = .ok (3, [65], after) ∧
        after.tell = 5 ∧
        ¬ CopiesWhole twoCharacters 0 2 [65, 66] := by
  refine ⟨_, rfl, rfl, ?_⟩
  rintro ⟨after, copied, _⟩
  cases congrArg (·.map fun result => result.1) copied

end Agar.Core
