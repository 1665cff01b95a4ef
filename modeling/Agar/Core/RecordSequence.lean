import Agar.Core.Records
import Agar.Lib.Streams

namespace Agar.Core

open Agar.Lib

/-!
# Sequences of records

What one function writes record by record, another one reads record by record.
`Pending` sees a source as the stream of what is still to be read of the
records, so that the rules for streams apply to the readers; a writer is
described by the record that it leaves behind those that are there (`Leaves`),
and by the fact that it completes on a healthy file (`Completes`).
-/

namespace DataSource

/-- The record of an integer. -/
def uintRecord (ds : DataSource) (type : UInt32) (width value : Nat) : List UInt8 :=
  ds.typeCode type ++ ds.byteOrder.encode width value

/-! ## Reading -/

/--
A source with the settings of the one that records were written to, in front
of the last of them.
-/
structure Pending (origin : DataSource) (finish : Nat) (ds : DataSource)
    (bytes : List UInt8) : Prop extends origin.SameSettings ds where
  ahead : ∃ start, ds.tell = (start : Nat) ∧
        ds.backend.Segment start bytes ∧ start + bytes.length = finish

section Reading

variable {origin : DataSource} {finish : Nat}

theorem Pending.cursor {ds : DataSource} (pending : origin.Pending finish ds []) :
    ds.tell = finish := by
  obtain ⟨start, cursor, _, length⟩ := pending.ahead
  rw [cursor, ← length, List.length_nil, Nat.add_zero]

theorem Wrote.pending {wrote : DataSource} {start : Nat} {bytes : List UInt8}
    (record : origin.Wrote wrote start bytes) (nonempty : bytes ≠ [])
    (addressable : start < 2 ^ 63) :
    ∃ back, wrote.seek start .seekSet = (0, back) ∧
        origin.Pending (start + bytes.length) back bytes ∧
        wrote.tell = (start + bytes.length : Nat) := by
  obtain ⟨back, sought, same, there, kept⟩ :=
    seek_segment record.stored.segment nonempty addressable
  exact ⟨back, sought, ⟨record.toSameSettings.trans same, start, there,
      kept _ _ record.stored.segment trivial, rfl⟩,
    record.stored.writes.cursor⟩

theorem Pending.of_consumed {ds after : DataSource} {bytes rest : List UInt8}
    (pending : origin.Pending finish ds (bytes ++ rest))
    (consumed : ds.Consumed after bytes.length) : origin.Pending finish after rest := by
  obtain ⟨start, cursor, segment, length⟩ := pending.ahead
  refine ⟨pending.toSameSettings.trans consumed.toSameSettings, start + bytes.length, ?_,
    consumed.kept _ _ (Backend.segment_append.mp segment).2 trivial, ?_⟩
  · rw [consumed.cursor, cursor, Nat.cast_add]
  · rw [← length, List.length_append, Nat.add_assoc]

theorem Pending.read {ds : DataSource} {bytes rest : List UInt8}
    (pending : origin.Pending finish ds (bytes ++ rest)) :
    ∃ next, ds.read bytes.length = .ok (0, bytes, next) ∧ origin.Pending finish next rest := by
  obtain ⟨start, cursor, segment, _⟩ := pending.ahead
  obtain ⟨next, read, consumed⟩ := read_segment (Backend.segment_append.mp segment).1 cursor
  exact ⟨next, read, pending.of_consumed consumed⟩

theorem Pending.readScalar {ds : DataSource} {type : UInt32} {bytes rest : List UInt8}
    (pending : origin.Pending finish ds ((origin.typeCode type ++ bytes) ++ rest)) :
    ∃ next, ds.readScalar type bytes.length = .ok (some bytes, next) ∧
        ds.readScalarV type bytes.length = .ok (some bytes, next) ∧
        origin.Pending finish next rest := by
  obtain ⟨start, cursor, segment, _⟩ := pending.ahead
  have first := (Backend.segment_append.mp segment).1
  rw [← pending.toSameSettings.typeCode] at first
  obtain ⟨next, read, readV, consumed⟩ := readScalar_segment first cursor
  rw [pending.toSameSettings.typeCode] at consumed
  exact ⟨next, read, readV, pending.of_consumed consumed⟩

theorem yields_readUint (type : UInt32) {width value : Nat} (fits : value < 256 ^ width) :
    Yields (origin.Pending finish) (ε := Stop) (fun ds => ds.readUint type width)
      (origin.uintRecord type width value) value := by
  intro ds rest pending
  obtain ⟨next, read, _, later⟩ := pending.readScalar
  rw [ByteOrder.length_encode] at read
  refine ⟨next, ?_, later⟩
  dsimp only
  rw [DataSource.readUint, read, ok_bind]
  dsimp only [Option.elim_some]
  rw [pending.byteOrder, ByteOrder.decode_encode, Nat.mod_eq_of_lt fits]
  rfl

theorem yields_readUint32 (value : UInt32) : Yields (origin.Pending finish) readUint32
      (origin.uintRecord sourceUint32 4 value.toNat) value := by
  intro ds rest pending
  obtain ⟨next, read, later⟩ := yields_readUint sourceUint32 value.toNat_lt ds rest pending
  dsimp only at read
  refine ⟨next, ?_, later⟩
  rw [DataSource.readUint32, read, ok_bind]
  dsimp only
  rw [UInt32.ofNat_toNat]
  rfl

theorem yields_readUint32v (value : UInt32) : Yields (origin.Pending finish) readUint32v
      (origin.uintRecord sourceUint32 4 value.toNat) (some value) := by
  intro ds rest pending
  obtain ⟨next, _, read, later⟩ := pending.readScalar
  rw [ByteOrder.length_encode] at read
  refine ⟨next, ?_, later⟩
  rw [DataSource.readUint32v, read, ok_bind]
  dsimp only [Option.map_some]
  have small : value.toNat < 256 ^ 4 := value.toNat_lt
  rw [pending.byteOrder, ByteOrder.decode_encode, Nat.mod_eq_of_lt small, UInt32.ofNat_toNat]
  rfl

end Reading

/-! ## Writing -/

/-- A writer leaves a record behind those that are there. -/
def Leaves (origin : DataSource) (program : DataSource → Except Stop DataSource)
    (record : List UInt8) : Prop :=
  ∀ ds start bytes after, origin.Wrote ds start bytes → program ds = .ok after →
      origin.Wrote after start (bytes ++ record)

/-- A writer completes on a healthy file. -/
def Completes (program : DataSource → Except Stop DataSource) : Prop :=
  ∀ ds : DataSource, ds.Healthy → ∃ after, program ds = .ok after ∧ after.Healthy

section Writing

variable {origin : DataSource} {first second : DataSource → Except Stop DataSource}

theorem leaves_writeScalar (type : UInt32) {value : List UInt8} (nonempty : value ≠ []) :
    origin.Leaves (fun ds => ds.writeScalar type value) (origin.typeCode type ++ value) := by
  intro ds start bytes after wrote returned
  have record := writeScalar_wrote wrote.stored.writes nonempty returned
  rw [wrote.toSameSettings.typeCode] at record
  exact wrote.trans record

theorem leaves_writeUint (type : UInt32) {width : Nat} (value : Nat) (wide : 0 < width) :
    origin.Leaves (fun ds => ds.writeScalar type (ds.byteOrder.encode width value))
      (origin.uintRecord type width value) := by
  intro ds start bytes after wrote returned
  dsimp only at returned
  rw [wrote.byteOrder] at returned
  refine leaves_writeScalar type (fun empty => ?_) ds start bytes after wrote returned
  have length := congrArg List.length empty
  rw [ByteOrder.length_encode, List.length_nil] at length
  exact wide.ne' length

theorem leaves_writeUint32 (value : UInt32) : origin.Leaves (fun ds => ds.writeUint32 value)
      (origin.uintRecord sourceUint32 4 value.toNat) :=
  leaves_writeUint _ _ (by decide)

theorem completes_writeUint32 (value : UInt32) : Completes fun ds => ds.writeUint32 value :=
  fun _ healthy => healthy.writeScalar _ _

end Writing

end DataSource

end Agar.Core
