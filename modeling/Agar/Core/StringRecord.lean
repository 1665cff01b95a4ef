import Agar.Core.Records

namespace Agar.Core

open Agar.Lib

/-!
# String records

Whether `AG_ReadStringLen` and `AG_ReadStringLenv` decode what
`AG_WriteString` encodes.  In debug mode they do not: the length of a string
is written without a type code of its own, but read with `AG_ReadUint32v`,
which checks one.
-/

namespace DataSource

/-! ## How far reads move -/

/-- A source whose cursor a read moved, if its positions do not wrap. -/
structure Advanced (ds after : DataSource) (count : Nat) : Prop extends SameSettings ds after where
  cursor : ds.backend.Regular → after.backend.Regular ∧ after.tell = ds.tell + count

variable {ds : DataSource}

theorem Advanced.trans {middle after : DataSource} {first second : Nat}
    (early : ds.Advanced middle first) (late : middle.Advanced after second) :
    ds.Advanced after (first + second) where
  debug := late.debug.trans early.debug
  byteOrder := late.byteOrder.trans early.byteOrder
  cursor regular := by
    obtain ⟨stillRegular, reached⟩ := early.cursor regular
    obtain ⟨finallyRegular, finally_⟩ := late.cursor stillRegular
    refine ⟨finallyRegular, ?_⟩
    rw [finally_, reached, Nat.cast_add, Int.add_assoc]

variable {after : DataSource}

theorem read_advanced {size : Nat} {bytes : List UInt8}
    (read : ds.read size = .ok (0, bytes, after)) :
    bytes.length = size ∧ ds.Advanced after size := by
  obtain ⟨⟨status, delivered, counted⟩, called, result⟩ := bind_eq_ok.mp read
  obtain ⟨⟨transfer, backend⟩, returned, counts⟩ := bind_eq_ok.mp called
  simp only [pure_eq_ok, Prod.mk.injEq] at counts result
  obtain ⟨statusZero, rfl, rfl⟩ := result
  obtain ⟨rfl, rfl, rfl⟩ := counts
  split at statusZero
  case isTrue => cases statusZero
  case isFalse complete =>
    have whole : ∀ count, transfer.count = some count → size ≤ count := by
      intro count stored
      simp only [countRead, stored, Option.getD_some] at complete
      exact Nat.le_of_not_lt complete
    obtain ⟨length, moved⟩ := Backend.read_advances returned statusZero whole
    exact ⟨length, ⟨rfl, rfl⟩, moved⟩

theorem typeMatches_advanced {type : UInt32} (matching : ds.typeMatches type = .ok (true, after)) :
    ds.Advanced after (ds.typeCode type).length := by
  unfold typeMatches at matching
  unfold typeCode
  split at matching
  case isTrue debug =>
    rw [if_pos debug, ByteOrder.length_encode]
    obtain ⟨⟨status, checked⟩, check, result⟩ := bind_eq_ok.mp matching
    simp only [pure_eq_ok, Prod.mk.injEq, decide_eq_true_eq] at result
    obtain ⟨succeeded, rfl⟩ := result
    obtain ⟨⟨rv, bytes, counted⟩, read, decoded⟩ := bind_eq_ok.mp check
    dsimp only at decoded
    split at decoded
    case isTrue =>
      cases decoded
      exact absurd rfl succeeded
    case isFalse complete =>
      cases decoded
      rw [not_not.mp complete] at read
      exact (read_advanced read).2
  case isFalse debug =>
    cases matching
    rw [if_neg debug]
    exact ⟨⟨rfl, rfl⟩, fun regular => ⟨regular, (Int.add_zero _).symm⟩⟩

theorem readUint32v_advanced {value : UInt32} (read : ds.readUint32v = .ok (some value, after)) :
    ds.Advanced after ((ds.typeCode sourceUint32).length + 4) := by
  obtain ⟨⟨bytes, counted⟩, scalar, result⟩ := bind_eq_ok.mp read
  simp only [pure_eq_ok, Prod.mk.injEq, Option.map_eq_some_iff] at result
  obtain ⟨⟨got, rfl, _⟩, rfl⟩ := result
  obtain ⟨⟨matching, typed⟩, matched, value⟩ := bind_eq_ok.mp scalar
  cases matching with
  | false => cases value
  | true =>
    obtain ⟨⟨rv, bytes, counted⟩, called, decoded⟩ := bind_eq_ok.mp value
    simp only [pure_eq_ok, Prod.mk.injEq] at decoded
    obtain ⟨kept, rfl⟩ := decoded
    split at kept
    case isTrue => cases kept
    case isFalse complete =>
      rw [not_not.mp complete] at called
      exact (typeMatches_advanced matched).trans (read_advanced called).2

/-! ## What the readers return -/

/-- The bytes that a reader takes besides those of the string. -/
def stringOverhead (ds : DataSource) : Nat :=
  (ds.typeCode sourceString).length + ((ds.typeCode sourceUint32).length + 4)

theorem readStringHeader_eq_ok {headed : DataSource} {maxlen len : Nat}
    (read : ds.readStringHeader maxlen = .ok (len, headed)) :
    len ≤ maxlen % 2 ^ 32 ∧ ds.Advanced headed ds.stringOverhead := by
  obtain ⟨⟨matching, typed⟩, matched, rest⟩ := bind_eq_ok.mp read
  cases matching with
  | false => cases rest
  | true =>
    obtain ⟨⟨length, counted⟩, header, body⟩ := bind_eq_ok.mp rest
    cases length with
    | none => cases body
    | some value =>
      dsimp only at body
      split at body
      case isTrue => cases body
      case isFalse inLimit =>
        cases body
        have code := typeMatches_advanced matched
        have length := readUint32v_advanced header
        rw [code.toSameSettings.typeCode] at length
        exact ⟨Nat.le_of_not_lt inLimit, code.trans length⟩

theorem readStringBody_eq_ok {len : Nat} {s buffer : List UInt8} (room : s.length = len + 1)
    (read : ds.readStringBody len s = .ok (buffer, after)) :
    buffer.length = len + 1 ∧ ds.Advanced after len := by
  obtain ⟨⟨rv, bytes, counted⟩, called, result⟩ := bind_eq_ok.mp read
  dsimp only at result
  split at result
  case isTrue => cases result
  case isFalse complete =>
    cases result
    rw [not_not.mp complete] at called
    obtain ⟨length, advanced⟩ := read_advanced called
    refine ⟨?_, advanced⟩
    rw [length_splice] <;> simp [length, room]

variable {allocation : Allocation} {maxlen : Nat}

theorem readStringLen_eq_ok {buffer : List UInt8}
    (read : ds.readStringLen allocation maxlen = .ok (buffer, after)) :
    ∃ len, buffer.length = len + 1 ∧ len ≤ maxlen % 2 ^ 32 ∧ allocation.grants (len + 1) = true ∧
        ds.Advanced after (ds.stringOverhead + len) := by
  obtain ⟨⟨len, headed⟩, header, rest⟩ := bind_eq_ok.mp read
  obtain ⟨inLimit, behind⟩ := readStringHeader_eq_ok header
  dsimp only at rest
  split at rest
  case h_1 => cases rest
  case h_2 s granted =>
    obtain ⟨grants, rfl⟩ := tryRealloc_eq_some.mp granted
    split at rest
    case isTrue =>
      obtain ⟨length, advanced⟩ := readStringBody_eq_ok (length_resize _ _ _) rest
      exact ⟨len, length, inLimit, grants, behind.trans advanced⟩
    case isFalse empty =>
      cases rest
      obtain rfl : len = 0 := Nat.eq_zero_of_not_pos empty
      exact ⟨0, by rw [length_splice] <;> simp, inLimit, grants, behind⟩

theorem readStringLenv_eq_ok {newLen : Nat} {rv : Int} {s : Option (List UInt8)}
    {buffer : List UInt8}
    (read : ds.readStringLenv allocation maxlen s = .ok (rv, buffer, newLen, after)) :
    buffer.length = newLen + 1 ∧ (newLen = 0 → buffer = resize allocation.fresh 1 (s.getD [])) := by
  obtain ⟨⟨len, headed⟩, header, rest⟩ := bind_eq_ok.mp read
  dsimp only at rest
  split at rest
  case h_1 => cases rest
  case h_2 sp granted =>
    obtain ⟨grants, rfl⟩ := tryRealloc_eq_some.mp granted
    split at rest
    case isTrue positive =>
      obtain ⟨⟨stored, counted⟩, body, result⟩ := bind_eq_ok.mp rest
      cases result
      obtain ⟨length, _⟩ := readStringBody_eq_ok (length_resize _ _ _) body
      exact ⟨length, fun empty => absurd empty (Nat.ne_of_gt positive)⟩
    case isFalse empty =>
      cases rest
      obtain rfl : len = 0 := Nat.eq_zero_of_not_pos empty
      exact ⟨length_resize _ _ _, fun _ => rfl⟩

/-! ## Decoding -/

variable {start : Nat} {s : List UInt8}

theorem readStringLength_segment (segment : ds.backend.Segment start (ds.stringRecord s))
    (plain : ds.debug = false) (encoded : s.length < 2 ^ 32) (cursor : ds.tell = start) :
    ∃ value headed, ds.typeMatches sourceString = .ok (true, ds) ∧
        ds.readUint32v = .ok (some value, headed) ∧ value.toNat = s.length ∧ ds.Consumed headed 4 ∧
        headed.backend.Segment (start + 4) s := by
  have uncoded (type : UInt32) : ds.typeCode type = [] := by rw [typeCode, if_neg (by simp [plain])]
  have matching (type : UInt32) : ds.typeMatches type = .ok (true, ds) := by
    rw [typeMatches, if_neg (by simp [plain])]
    rfl
  rw [stringRecord, uncoded, List.nil_append] at segment
  obtain ⟨header, body⟩ := Backend.segment_append.mp segment
  obtain ⟨headed, read, consumed⟩ := read_segment header cursor
  rw [ByteOrder.length_encode] at read consumed body
  refine ⟨UInt32.ofNat (ds.byteOrder.decode
    (ds.byteOrder.encode 4 s.length)), headed, matching _, ?_, ?_, consumed,
    consumed.kept _ _ body trivial⟩
  · simp only [readUint32v, readScalarV, matching, read, bind, Except.bind,
      pure, Except.pure, if_true]
    rfl
  · rw [ByteOrder.decode_encode, UInt32.toNat_ofNat']
    norm_num
    omega

theorem readStringHeader_segment (segment : ds.backend.Segment start (ds.stringRecord s))
    (plain : ds.debug = false) (inLimit : s.length ≤ maxlen % 2 ^ 32) (cursor : ds.tell = start) :
    ∃ headed, ds.readStringHeader maxlen = .ok (s.length, headed) ∧ ds.Consumed headed 4 ∧
        headed.backend.Segment (start + 4) s := by
  obtain ⟨value, headed, matching, asked, length, consumed, body⟩ :=
    readStringLength_segment segment plain (by omega) cursor
  refine ⟨headed, ?_, consumed, body⟩
  simp only [readStringHeader, matching, asked, bind, Except.bind,
    not_true_eq_false, if_false, length, pure, Except.pure]
  rw [if_neg (Nat.not_lt.mpr inLimit)]

theorem readStringHeader_segment_long (segment : ds.backend.Segment start (ds.stringRecord s))
    (plain : ds.debug = false) (encoded : s.length < 2 ^ 32) (long : maxlen % 2 ^ 32 < s.length)
    (cursor : ds.tell = start) : ds.readStringHeader maxlen = .error .fatal := by
  obtain ⟨value, headed, matching, asked, length, _⟩ :=
    readStringLength_segment segment plain encoded cursor
  simp only [readStringHeader, matching, asked, bind, Except.bind,
    not_true_eq_false, if_false, length]
  rw [if_pos long]

theorem readStringBody_segment {memory : List UInt8} (segment : ds.backend.Segment start s)
    (room : memory.length = s.length + 1) (cursor : ds.tell = start) :
    ∃ after, ds.readStringBody s.length memory = .ok (s ++ [0], after) ∧
        ds.Consumed after s.length := by
  obtain ⟨after, read, consumed⟩ := read_segment segment cursor
  refine ⟨after, ?_, consumed⟩
  have filled : splice memory 0 (s ++ [0]) = s ++ [0] := splice_whole (by simp [room])
  simp [readStringBody, read, bind, Except.bind, pure, Except.pure, filled]

theorem length_stringRecord_plain (plain : ds.debug = false) (s : List UInt8) :
    (ds.stringRecord s).length = 4 + s.length := by
  simp [stringRecord, typeCode, plain]

theorem readStringLen_of_header {headed : DataSource} {place : Nat}
    (header : ds.readStringHeader maxlen = .ok (s.length, headed))
    (body : headed.backend.Segment place s) (granted : allocation.grants (s.length + 1) = true)
    (there : headed.tell = place) :
    ∃ after, ds.readStringLen allocation maxlen = .ok (s ++ [0], after) ∧
        headed.Consumed after s.length := by
  have allocated : tryRealloc allocation [] (s.length + 1) =
        some (resize allocation.fresh (s.length + 1) []) :=
    tryRealloc_eq_some.mpr ⟨granted, rfl⟩
  by_cases empty : s = []
  · subst s
    refine ⟨headed, ?_, .refl headed⟩
    have filled : splice (resize allocation.fresh 1 []) 0 [0] = [0] := splice_whole (by simp)
    simp only [readStringLen, header, bind, Except.bind, allocated]
    simp [pure, Except.pure, filled]
  · have positive : s.length > 0 := List.length_pos_iff.mpr empty
    obtain ⟨after, read, taken⟩ :=
      readStringBody_segment body (length_resize allocation.fresh _ []) there
    refine ⟨after, ?_, taken⟩
    simp only [readStringLen, header, bind, Except.bind, allocated, if_pos positive, read]

theorem readStringLen_segment (segment : ds.backend.Segment start (ds.stringRecord s))
    (plain : ds.debug = false) (inLimit : s.length ≤ maxlen % 2 ^ 32)
    (granted : allocation.grants (s.length + 1) = true) (cursor : ds.tell = start) :
    ∃ after, ds.readStringLen allocation maxlen = .ok (s ++ [0], after) ∧
        ds.Consumed after (ds.stringRecord s).length := by
  obtain ⟨headed, header, consumed, body⟩ := readStringHeader_segment segment plain inLimit cursor
  have there : headed.tell = (start + 4 : Nat) := by rw [consumed.cursor, cursor, Nat.cast_add]
  obtain ⟨after, read, taken⟩ := readStringLen_of_header header body granted there
  rw [length_stringRecord_plain plain]
  exact ⟨after, read, consumed.trans taken⟩

theorem readStringLen_segment_refused (segment : ds.backend.Segment start (ds.stringRecord s))
    (plain : ds.debug = false) (inLimit : s.length ≤ maxlen % 2 ^ 32)
    (refused : allocation.grants (s.length + 1) = false) (cursor : ds.tell = start) :
    ds.readStringLen allocation maxlen = .error .fatal := by
  obtain ⟨headed, header, _⟩ := readStringHeader_segment segment plain inLimit cursor
  have notAllocated : tryRealloc allocation [] (s.length + 1) = none :=
    tryRealloc_eq_none.mpr refused
  simp only [readStringLen, header, bind, Except.bind, notAllocated]

theorem readStringLenv_segment {buffer : Option (List UInt8)}
    (segment : ds.backend.Segment start (ds.stringRecord s)) (plain : ds.debug = false)
    (inLimit : s.length ≤ maxlen % 2 ^ 32) (granted : allocation.grants (s.length + 1) = true)
    (terminated : s = [] → resize allocation.fresh 1 (buffer.getD []) = [0])
    (cursor : ds.tell = start) :
    ∃ after, ds.readStringLenv allocation maxlen buffer = .ok (0, s ++ [0], s.length, after) ∧
        ds.Consumed after (ds.stringRecord s).length := by
  obtain ⟨headed, header, consumed, body⟩ := readStringHeader_segment segment plain inLimit cursor
  have there : headed.tell = (start + 4 : Nat) := by rw [consumed.cursor, cursor, Nat.cast_add]
  have allocated (old : List UInt8) : tryRealloc allocation old (s.length + 1) =
        some (resize allocation.fresh (s.length + 1) old) :=
    tryRealloc_eq_some.mpr ⟨granted, rfl⟩
  rw [length_stringRecord_plain plain]
  by_cases empty : s = []
  · have zero := terminated empty
    subst s
    refine ⟨headed, ?_, consumed⟩
    simp only [readStringLenv, header, bind, Except.bind, allocated]
    simp [pure, Except.pure, zero]
  · have positive : s.length > 0 := List.length_pos_iff.mpr empty
    obtain ⟨after, read, taken⟩ :=
      readStringBody_segment body (length_resize allocation.fresh _ (buffer.getD [])) there
    refine ⟨after, ?_, consumed.trans taken⟩
    simp only [readStringLenv, header, bind, Except.bind, allocated, if_pos positive, read]
    rfl

end DataSource

/--
Both readers give a string with its terminator, and leave the cursor where the
writer left it.
-/
structure DecodesString (back wrote : DataSource) (allocation : Allocation) (maxlen : Nat)
    (buffer : Option (List UInt8)) (s : List UInt8) : Prop where
  len : ∃ after, back.readStringLen allocation maxlen = .ok (s ++ [0], after) ∧
        after.tell = wrote.tell
  lenv : ∃ after, back.readStringLenv allocation maxlen buffer =
          .ok (0, s ++ [0], s.length, after) ∧
        after.tell = wrote.tell

/--
A string that was written is decoded from the same position exactly when the
source is not in debug mode, the string is within the low 32 bits of the
limit, memory is granted, and, for an empty string, the memory already starts
with a terminator.
-/
theorem string_decodes_iff {ds wrote : DataSource} {start : Nat} {s : List UInt8}
    (writes : ds.backend.WritesAt start) (addressable : start < 2 ^ 63)
    (written : ds.writeString s = .ok wrote) (allocation : Allocation) (maxlen : Nat)
    (buffer : Option (List UInt8)) :
    ∃ back, wrote.seek start .seekSet = (0, back) ∧
        (DecodesString back wrote allocation maxlen buffer s ↔ ds.debug = false ∧
            s.length ≤ maxlen % 2 ^ 32 ∧
            allocation.grants (s.length + 1) = true ∧
            (s = [] → resize allocation.fresh 1 (buffer.getD []) = [0])) := by
  have record := DataSource.writeString_wrote writes written
  have nonempty : ds.stringRecord s ≠ [] := by
    intro empty
    have length := congrArg List.length empty
    simp [DataSource.stringRecord] at length
  obtain ⟨back, sought, same, there, kept⟩ :=
    DataSource.seek_segment record.stored.segment nonempty addressable
  have settings : ds.SameSettings back :=
    ⟨same.debug.trans record.debug, same.byteOrder.trans record.byteOrder⟩
  have sameRecord : back.stringRecord s = ds.stringRecord s := by
    rw [DataSource.stringRecord, DataSource.stringRecord, settings.typeCode, settings.byteOrder]
  have segment := kept _ _ record.stored.segment trivial
  have reached : wrote.tell = start + (ds.stringRecord s).length := record.stored.writes.cursor
  refine ⟨back, sought, ?_⟩
  constructor
  · rintro ⟨⟨after, read, behind⟩, ⟨_, readv, _⟩⟩
    obtain ⟨len, length, inLimit, granted, advanced⟩ := DataSource.readStringLen_eq_ok read
    obtain rfl : s.length = len := by simpa using length
    have moved := (advanced.cursor segment.readable.regular).2
    rw [behind, reached, there] at moved
    have uncoded : (ds.typeCode sourceUint32).length = 0 := by
      rw [DataSource.stringOverhead, settings.typeCode, settings.typeCode,
        DataSource.stringRecord] at moved
      simp only [List.length_append, ByteOrder.length_encode] at moved
      omega
    refine ⟨?_, inLimit, granted, ?_⟩
    · by_contra debug
      rw [DataSource.typeCode, if_pos (by simpa using debug), ByteOrder.length_encode] at uncoded
      cases uncoded
    · intro empty
      have fresh := (DataSource.readStringLenv_eq_ok readv).2
      subst s
      exact (fresh rfl).symm
  · rintro ⟨plain, inLimit, granted, terminated⟩
    have backPlain : back.debug = false := settings.debug.trans plain
    rw [← sameRecord] at segment
    obtain ⟨after, read, consumed⟩ :=
      DataSource.readStringLen_segment segment backPlain inLimit granted there
    obtain ⟨afterv, readv, consumedv⟩ :=
      DataSource.readStringLenv_segment segment backPlain inLimit granted terminated there
    rw [← sameRecord] at reached
    exact ⟨⟨after, read, by rw [consumed.cursor, there, reached]⟩,
      ⟨afterv, readv, by rw [consumedv.cursor, there, reached]⟩⟩

theorem string_decodes_iff_two_characters : ∃ wrote back,
      (DataSource.openAutoCore .zeroed).writeString [65, 66] = .ok wrote ∧
        wrote.seek 0 .seekSet = (0, back) ∧
        DecodesString back wrote .zeroed 10 none [65, 66] := by
  have written : (DataSource.openAutoCore .zeroed).writeString [65, 66] = .ok _ := rfl
  obtain ⟨back, sought, decodes⟩ :=
    string_decodes_iff (DataSource.openAutoCore_writesAt .zeroed) (by decide)
      written .zeroed 10 none
  exact ⟨_, back, written, sought, decodes.mpr ⟨rfl, by decide, by decide, nofun⟩⟩

theorem string_not_decoded_in_debug_mode : ∃ wrote back,
      ((DataSource.openAutoCore .zeroed).setSourceDebug true).writeString [65] = .ok wrote ∧
        wrote.seek 0 .seekSet = (0, back) ∧
        back.readStringLen .zeroed 10 = .error .fatal ∧
        ¬ DecodesString back wrote .zeroed 10 none [65] := by
  refine ⟨_, _, rfl, rfl, rfl, ?_⟩
  rintro ⟨⟨after, read, _⟩, _⟩
  cases read

end Agar.Core
