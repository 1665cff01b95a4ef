import Agar.Core.Serialization

namespace Agar.Core

open Agar.Lib

/-!
# Records

What each write function of the serialization leaves on a source, and that the
read function of the same type takes it off again.  A record is the bytes of
one value, behind its type code in debug mode.
-/

namespace DataSource

/-- The settings of two sources are the same. -/
structure SameSettings (ds after : DataSource) : Prop where
  debug : after.debug = ds.debug
  byteOrder : after.byteOrder = ds.byteOrder

/-- The source after some bytes behind the cursor were read. -/
structure Consumed (ds after : DataSource) (count : Nat) : Prop extends SameSettings ds after where
  cursor : after.tell = ds.tell + count
  kept : ds.backend.Keeps after.backend fun _ _ => True

/-- The source after some bytes were written at the cursor. -/
structure Wrote (ds after : DataSource) (start : Nat)
    (bytes : List UInt8) : Prop extends SameSettings ds after where
  stored : ds.backend.Wrote after.backend start bytes

/-- What precedes a value of a type. -/
def typeCode (ds : DataSource) (type : UInt32) : List UInt8 :=
  if ds.debug then ds.byteOrder.encode 4 type.toNat else []

/-- The record of a string. -/
def stringRecord (ds : DataSource) (s : List UInt8) : List UInt8 :=
  ds.typeCode sourceString ++ (ds.byteOrder.encode 4 s.length ++ s)

/-! ## Composition -/

theorem Consumed.refl (ds : DataSource) : ds.Consumed ds 0 where
  debug := rfl
  byteOrder := rfl
  cursor := (Int.add_zero _).symm
  kept _ _ segment _ := segment

variable {ds middle after : DataSource}

theorem Consumed.trans {first second : Nat} (early : ds.Consumed middle first)
    (late : middle.Consumed after second) : ds.Consumed after (first + second) where
  debug := late.debug.trans early.debug
  byteOrder := late.byteOrder.trans early.byteOrder
  cursor := by rw [late.cursor, early.cursor, Nat.cast_add, Int.add_assoc]
  kept _ _ segment _ := late.kept _ _ (early.kept _ _ segment trivial) trivial

variable {start : Nat}

theorem Wrote.trans {first second : List UInt8} (early : ds.Wrote middle start first)
    (late : middle.Wrote after (start + first.length) second) :
    ds.Wrote after start (first ++ second) where
  debug := late.debug.trans early.debug
  byteOrder := late.byteOrder.trans early.byteOrder
  stored :=
    { writes := by
        rw [List.length_append, ← Nat.add_assoc]
        exact late.stored.writes
      segment := Backend.segment_append.mpr
        ⟨late.stored.kept _ _ early.stored.segment (Nat.le_refl _), late.stored.segment⟩
      kept := fun place old segment inFront =>
        late.stored.kept _ _ (early.stored.kept _ _ segment inFront)
          (Nat.le_trans inFront (Nat.le_add_right _ _)) }

theorem SameSettings.symm (same : ds.SameSettings after) : after.SameSettings ds :=
  ⟨same.debug.symm, same.byteOrder.symm⟩

theorem SameSettings.trans (early : ds.SameSettings middle) (late : middle.SameSettings after) :
    ds.SameSettings after :=
  ⟨late.debug.trans early.debug, late.byteOrder.trans early.byteOrder⟩

theorem SameSettings.typeCode (same : ds.SameSettings after) (type : UInt32) :
    after.typeCode type = ds.typeCode type := by
  rw [DataSource.typeCode, DataSource.typeCode, same.debug, same.byteOrder]

/-! ## Bytes -/

theorem write_eq_ok {buf : List UInt8} (returned : ds.write buf = .ok (0, after)) :
    ds.writeP buf = .ok (0, after) := by
  obtain ⟨⟨status, counted⟩, wrote, result⟩ := bind_eq_ok.mp returned
  rw [wrote]
  dsimp only [pure, Except.pure] at result
  split at result <;> cases result
  rfl

theorem writeP_wrote {buf : List UInt8} (writes : ds.backend.WritesAt start)
    (reaches : buf = [] → start ≤ ds.backend.contents.length)
    (returned : ds.writeP buf = .ok (0, after)) : ds.Wrote after start buf := by
  obtain ⟨⟨transfer, backend⟩, wrote, result⟩ := bind_eq_ok.mp returned
  simp only [pure_eq_ok, Prod.mk.injEq] at result
  obtain ⟨succeeded, rfl⟩ := result
  exact ⟨⟨rfl, rfl⟩, Backend.write_wrote writes reaches wrote succeeded⟩

theorem writeRaw_wrote {buf : List UInt8} (writes : ds.backend.WritesAt start) (nonempty : buf ≠ [])
    (returned : ds.writeRaw buf = .ok after) : ds.Wrote after start buf := by
  obtain ⟨⟨rv, counted⟩, wrote, result⟩ := bind_eq_ok.mp returned
  dsimp only at result
  split at result
  case isTrue => cases result
  case isFalse succeeded =>
    cases result
    rw [not_not.mp succeeded] at wrote
    exact writeP_wrote writes (fun empty => absurd empty nonempty) wrote

variable {bytes : List UInt8}

theorem read_segment (segment : ds.backend.Segment start bytes) (cursor : ds.tell = start) :
    ∃ after, ds.read bytes.length = .ok (0, bytes, after) ∧ ds.Consumed after bytes.length := by
  obtain ⟨backend, got, moved, kept⟩ := segment.read cursor
  let counted :=
    ds.countRead
      { status := 0, count := some bytes.length, bytes := bytes } backend
  refine ⟨counted, ?_, ⟨rfl, rfl⟩, ?_, kept⟩
  · simp [DataSource.read, readP, got, bind, Except.bind, pure, Except.pure, counted, countRead]
  · exact moved.trans (by rw [cursor])

theorem seek_segment (segment : ds.backend.Segment start bytes) (nonempty : bytes ≠ [])
    (addressable : start < 2 ^ 63) :
    ∃ back, ds.seek start .seekSet = (0, back) ∧ ds.SameSettings back ∧ back.tell = start ∧
        ds.backend.Keeps back.backend fun _ _ => True := by
  obtain ⟨backend, sought, moved, kept⟩ := segment.seek nonempty addressable
  refine ⟨{ ds with backend := backend }, ?_, ⟨rfl, rfl⟩, moved, kept⟩
  rw [DataSource.seek, sought]

theorem readRaw_of_read {size : Nat} (read : ds.read size = .ok (0, bytes, after)) :
    ds.readRaw size = .ok (bytes, after) := by
  obtain ⟨⟨status, delivered, counted⟩, called, result⟩ := bind_eq_ok.mp read
  simp only [pure_eq_ok, Prod.mk.injEq] at result
  obtain ⟨statusZero, rfl, rfl⟩ := result
  unfold readRaw
  rw [called]
  split at statusZero
  case isTrue => cases statusZero
  case isFalse complete => simp [bind, Except.bind, statusZero, complete, pure, Except.pure]

variable (allocation : Allocation)

theorem openAutoCore_writesAt : (openAutoCore allocation).backend.WritesAt 0 :=
  ⟨rfl, by decide, by decide, by decide, by decide⟩

/-! ## Scalars -/

variable {type : UInt32}

theorem typeMatches_segment (segment : ds.backend.Segment start (ds.typeCode type))
    (cursor : ds.tell = start) :
    ∃ after, ds.typeMatches type = .ok (true, after) ∧
        ds.Consumed after (ds.typeCode type).length := by
  unfold typeMatches
  by_cases debug : ds.debug = true
  · have coded : ds.typeCode type = ds.byteOrder.encode 4 type.toNat := by
      rw [DataSource.typeCode, if_pos debug]
    rw [coded] at segment ⊢
    obtain ⟨after, read, consumed⟩ := read_segment segment cursor
    rw [ByteOrder.length_encode] at read
    refine ⟨after, ?_, consumed⟩
    simp [debug, checkTypeCode, read, consumed.byteOrder, bind, Except.bind, pure, Except.pure]
  · have coded : ds.typeCode type = [] := by
      rw [DataSource.typeCode, if_neg debug]
    rw [coded, if_neg debug]
    exact ⟨ds, rfl, .refl ds⟩

theorem writeType_wrote (writes : ds.backend.WritesAt start)
    (typed : ds.writeType type = .ok middle)
    (follows : ∀ place, ds.SameSettings middle → middle.backend.WritesAt place →
        middle.Wrote after place bytes) : ds.Wrote after start (ds.typeCode type ++ bytes) := by
  unfold writeType at typed
  by_cases debug : ds.debug = true
  · rw [if_pos debug] at typed
    obtain ⟨⟨rv, counted⟩, called, result⟩ := bind_eq_ok.mp typed
    dsimp only at result
    split at result
    case isTrue => cases result
    case isFalse succeeded =>
      cases result
      rw [not_not.mp succeeded] at called
      have coded :=
        writeP_wrote writes (fun empty => absurd (congrArg List.length empty) (by simp))
          (write_eq_ok called)
      rw [typeCode, if_pos debug]
      exact coded.trans (follows _ coded.toSameSettings coded.stored.writes)
  · rw [if_neg debug] at typed
    cases typed
    rw [typeCode, if_neg debug, List.nil_append]
    exact follows _ ⟨rfl, rfl⟩ writes

theorem writeScalar_wrote (writes : ds.backend.WritesAt start) (nonempty : bytes ≠ [])
    (returned : ds.writeScalar type bytes = .ok after) :
    ds.Wrote after start (ds.typeCode type ++ bytes) := by
  obtain ⟨middle, typed, wrote⟩ := bind_eq_ok.mp returned
  refine writeType_wrote writes typed fun place same there => ?_
  obtain ⟨⟨rv, counted⟩, called, result⟩ := bind_eq_ok.mp wrote
  dsimp only at result
  split at result
  case isTrue => cases result
  case isFalse succeeded =>
    cases result
    rw [not_not.mp succeeded] at called
    exact writeP_wrote there (fun empty => absurd empty nonempty) (write_eq_ok called)

theorem readScalar_segment (segment : ds.backend.Segment start (ds.typeCode type ++ bytes))
    (cursor : ds.tell = start) :
    ∃ after, ds.readScalar type bytes.length = .ok (some bytes, after) ∧
        ds.readScalarV type bytes.length = .ok (some bytes, after) ∧
        ds.Consumed after (ds.typeCode type ++ bytes).length := by
  obtain ⟨code, value⟩ := Backend.segment_append.mp segment
  obtain ⟨middle, matching, coded⟩ := typeMatches_segment code cursor
  have there : middle.tell = (start + (ds.typeCode type).length : Nat) := by
    rw [coded.cursor, cursor, Nat.cast_add]
  obtain ⟨after, read, consumed⟩ := read_segment (coded.kept _ _ value trivial) there
  refine ⟨after, ?_, ?_, ?_⟩
  · simp [readScalar, matching, read, bind, Except.bind, pure, Except.pure]
  · simp [readScalarV, matching, read, bind, Except.bind, pure, Except.pure]
  · rw [List.length_append]
    exact coded.trans consumed

theorem readUint_segment {width value : Nat}
    (segment : ds.backend.Segment start (ds.typeCode type ++ ds.byteOrder.encode width value))
    (fits : value < 256 ^ width) (cursor : ds.tell = start) :
    ∃ after, ds.readUint type width = .ok (value, after) ∧ ds.Consumed after
          (ds.typeCode type ++ ds.byteOrder.encode width value).length := by
  obtain ⟨after, read, _, consumed⟩ := readScalar_segment segment cursor
  rw [ByteOrder.length_encode] at read
  refine ⟨after, ?_, consumed⟩
  simp [readUint, read, bind, Except.bind, pure, Except.pure, Nat.mod_eq_of_lt fits]

theorem readUint32_segment {value : Nat}
    (segment : ds.backend.Segment start (ds.typeCode sourceUint32 ++ ds.byteOrder.encode 4 value))
    (fits : value < 256 ^ 4) (cursor : ds.tell = start) :
    ∃ next, ds.readUint32 = .ok (UInt32.ofNat value, next) ∧ ds.Consumed next
          (ds.typeCode sourceUint32 ++ ds.byteOrder.encode 4 value).length := by
  obtain ⟨next, read, consumed⟩ := readUint_segment segment fits cursor
  refine ⟨next, ?_, consumed⟩
  simp only [readUint32, read, bind, Except.bind]
  rfl

/-! ## Strings -/

theorem writeString_wrote {s : List UInt8} (writes : ds.backend.WritesAt start)
    (returned : ds.writeString s = .ok after) : ds.Wrote after start (ds.stringRecord s) := by
  obtain ⟨middle, typed, wrote⟩ := bind_eq_ok.mp returned
  refine writeType_wrote writes typed fun place same there => ?_
  obtain ⟨headed, header, rest⟩ := bind_eq_ok.mp wrote
  have length :=
    writeRaw_wrote there (fun empty => absurd (congrArg List.length empty) (by simp)) header
  rw [same.byteOrder] at length
  split at rest
  case isTrue empty =>
    cases rest
    rw [empty] at length
    rw [empty, List.append_nil]
    exact length
  case isFalse nonempty => exact length.trans (writeRaw_wrote length.stored.writes nonempty rest)

theorem copyString_header {s : List UInt8} (segment : ds.backend.Segment start (ds.stringRecord s))
    (encoded : s.length < 2 ^ 32) (cursor : ds.tell = start) :
    ∃ typed header headed, ds.typeMatches sourceString = .ok (true, typed) ∧
        typed.readRaw 4 = .ok (header, headed) ∧ headed.byteOrder.decode header = s.length ∧
        ds.Consumed headed ((ds.typeCode sourceString).length + 4) ∧
        headed.backend.Segment (start + ((ds.typeCode sourceString).length + 4)) s := by
  obtain ⟨code, value⟩ := Backend.segment_append.mp segment
  obtain ⟨typed, matching, coded⟩ := typeMatches_segment code cursor
  have there : typed.tell = (start + (ds.typeCode sourceString).length : Nat) := by
    rw [coded.cursor, cursor, Nat.cast_add]
  obtain ⟨header, body⟩ := Backend.segment_append.mp (coded.kept _ _ value trivial)
  obtain ⟨headed, readHeader, length⟩ := read_segment header there
  rw [ByteOrder.length_encode] at readHeader length body
  have small : s.length % 256 ^ 4 = s.length := Nat.mod_eq_of_lt (by omega)
  refine ⟨typed, _, headed, matching, readRaw_of_read readHeader, ?_, coded.trans length, ?_⟩
  · rw [length.byteOrder, coded.byteOrder, ByteOrder.decode_encode, small]
  · rw [← Nat.add_assoc]
    exact length.kept _ _ body trivial

theorem copyString_segment {ds : DataSource} {start dstSize : Nat} {s : List UInt8}
    (segment : ds.backend.Segment start (ds.stringRecord s))
    (fits : s.length ≤ (dstSize - 1) % 2 ^ 32) (cursor : ds.tell = start) :
    ∃ after, ds.copyString dstSize = .ok (s.length, s, after) ∧
        ds.Consumed after (ds.stringRecord s).length := by
  obtain ⟨typed, header, headed, matching, readHeader, decoded, consumed, body⟩ :=
    copyString_header segment (by omega) cursor
  have length : (ds.stringRecord s).length = (ds.typeCode sourceString).length + 4 + s.length := by
    rw [stringRecord, List.length_append, List.length_append,
      ByteOrder.length_encode, Nat.add_assoc]
  unfold copyString
  rw [matching, length]
  simp only [bind, Except.bind, not_true_eq_false, if_false, readHeader,
    decoded, if_neg (Nat.not_lt.mpr fits)]
  by_cases empty : s = []
  · subst s
    exact ⟨headed, rfl, consumed⟩
  · rw [if_neg (by simpa using empty)]
    have behind : headed.tell = (start + ((ds.typeCode sourceString).length + 4) : Nat) := by
      rw [consumed.cursor, cursor, ← Nat.cast_add]
    obtain ⟨after, readBody, taken⟩ := read_segment body behind
    rw [readRaw_of_read readBody]
    exact ⟨after, rfl, consumed.trans taken⟩

/-! ## Files -/

/-- A source on a file whose device reports no error. -/
def Healthy (ds : DataSource) : Prop := ∃ fs, ds.backend = .file fs ∧ fs.faultAfter = none

section Healthy

variable {ds : DataSource}

theorem openFileHandle_writesAt (fs : FileSource) (healthy : fs.faultAfter = none) :
    (openFileHandle allocation fs).backend.WritesAt fs.pos :=
  ⟨rfl, healthy⟩

theorem openFileHandle_healthy (fs : FileSource) (healthy : fs.faultAfter = none) :
    (openFileHandle allocation fs).Healthy :=
  ⟨fs, rfl, healthy⟩

theorem Healthy.write (healthy : ds.Healthy) (buf : List UInt8) : ∃ after,
      ds.writeP buf = .ok (0, after) ∧ ds.write buf = .ok (0, after) ∧ after.Healthy := by
  obtain ⟨fs, backend, noFault⟩ := healthy
  let transfer : Transfer := { status := 0, count := some buf.length, bytes := [] }
  let written : FileSource :=
    { fs with contents := store (fun _ => 0) fs.contents fs.pos buf, pos := fs.pos + buf.length }
  have wrote : ds.backend.write ds.allocation buf = .ok (transfer, .file written) := by
    rw [backend, Backend.write, Backend.fwrite_healthy noFault]
  have called : ds.writeP buf = .ok (0, ds.countWrite transfer (.file written)) := by
    simp only [writeP, wrote, bind, Except.bind]
    rfl
  refine ⟨_, called, ?_, written, rfl, noFault⟩
  have whole : ¬ (ds.countWrite transfer (.file written)).wrLast < buf.length :=
    lt_irrefl buf.length
  simp only [DataSource.write, called, bind, Except.bind, if_neg whole]
  rfl

theorem Healthy.writeRaw (healthy : ds.Healthy) (buf : List UInt8) :
    ∃ after, ds.writeRaw buf = .ok after ∧ after.Healthy := by
  obtain ⟨after, wrote, _, healthyAfter⟩ := healthy.write buf
  refine ⟨after, ?_, healthyAfter⟩
  simp only [DataSource.writeRaw, wrote, bind, Except.bind]
  rfl

theorem Healthy.writeType (healthy : ds.Healthy) (type : UInt32) :
    ∃ after, ds.writeType type = .ok after ∧ after.Healthy := by
  unfold DataSource.writeType
  split
  · obtain ⟨after, _, wrote, healthyAfter⟩ :=
      healthy.write (ds.byteOrder.encode 4 type.toNat)
    refine ⟨after, ?_, healthyAfter⟩
    simp only [writeTypeCode, wrote, bind, Except.bind]
    rfl
  · exact ⟨ds, rfl, healthy⟩

theorem Healthy.writeScalar (healthy : ds.Healthy) (type : UInt32) (bytes : List UInt8) :
    ∃ after, ds.writeScalar type bytes = .ok after ∧ after.Healthy := by
  obtain ⟨typed, code, healthyTyped⟩ := healthy.writeType type
  obtain ⟨after, _, wrote, healthyAfter⟩ := healthyTyped.write bytes
  refine ⟨after, ?_, healthyAfter⟩
  simp only [DataSource.writeScalar, code, wrote, bind, Except.bind]
  rfl

theorem Healthy.writeString (healthy : ds.Healthy) (s : List UInt8) :
    ∃ after, ds.writeString s = .ok after ∧ after.Healthy := by
  obtain ⟨typed, code, healthyTyped⟩ := healthy.writeType sourceString
  obtain ⟨headed, header, healthyHeaded⟩ :=
    healthyTyped.writeRaw (typed.byteOrder.encode 4 s.length)
  by_cases empty : s = []
  · refine ⟨headed, ?_, healthyHeaded⟩
    simp only [DataSource.writeString, code, header, bind, Except.bind, if_pos empty]
    rfl
  · obtain ⟨after, wrote, healthyAfter⟩ := healthyHeaded.writeRaw s
    refine ⟨after, ?_, healthyAfter⟩
    simp only [DataSource.writeString, code, header, bind, Except.bind, if_neg empty, wrote]

/-- A source on a healthy file, with its cursor inside the file. -/
structure FileAt (ds : DataSource) (start : Nat) : Prop where
  healthy : ds.Healthy
  writes : ds.backend.WritesAt start
  inside : ds.backend.Segment start []

theorem openFileHandle_fileAt (contents : List UInt8) :
    (openFileHandle allocation ⟨contents, 0, none⟩).FileAt 0 where
  healthy := openFileHandle_healthy allocation _ rfl
  writes := openFileHandle_writesAt allocation _ rfl
  inside := ⟨⟨Nat.zero_le _, fun _ below => absurd below (Nat.not_lt_zero _)⟩, rfl⟩

theorem FileAt.refl (file : ds.FileAt start) : ds.Wrote ds start [] where
  debug := rfl
  byteOrder := rfl
  stored :=
    { writes := file.writes
      segment := file.inside
      kept := fun _ _ segment _ => segment }

theorem FileAt.behind (wrote : ds.Wrote after start bytes) (healthy : after.Healthy) :
    after.FileAt (start + bytes.length) where
  healthy := healthy
  writes := wrote.stored.writes
  inside := by
    have segment := wrote.stored.segment
    rw [← List.append_nil bytes] at segment
    exact (Backend.segment_append.mp segment).2

theorem FileAt.writeUint32 (file : ds.FileAt start) (value : UInt32) : ∃ after,
      ds.writeUint32 value = .ok after ∧ ds.Wrote after start
          (ds.typeCode sourceUint32 ++ ds.byteOrder.encode 4 value.toNat) ∧
        after.Healthy := by
  obtain ⟨after, wrote, healthy⟩ :=
    file.healthy.writeScalar sourceUint32 (ds.byteOrder.encode 4 value.toNat)
  have nonempty : ds.byteOrder.encode 4 value.toNat ≠ [] := by
    intro empty
    have length := congrArg List.length empty
    rw [ByteOrder.length_encode] at length
    cases length
  exact ⟨after, wrote, writeScalar_wrote file.writes nonempty wrote, healthy⟩

theorem FileAt.writeString (file : ds.FileAt start) (s : List UInt8) : ∃ after,
      ds.writeString s = .ok after ∧ ds.Wrote after start (ds.stringRecord s) ∧ after.Healthy := by
  obtain ⟨after, wrote, healthy⟩ := file.healthy.writeString s
  exact ⟨after, wrote, writeString_wrote file.writes wrote, healthy⟩

end Healthy

end DataSource

end Agar.Core
