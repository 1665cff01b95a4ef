import Agar.Core.DataSource
import Agar.Lib.Outcome

namespace Agar.Core

open Agar.Lib

/-!
# What a source holds

A source holds a segment when its backend has the bytes at a position and lets
them be read.  Reads from the start of a segment give it and move the cursor
behind it; a write at the cursor leaves a segment and keeps those in front of
it.  The codecs of the following modules are composed of these steps.
-/

namespace Backend

/-- The bytes behind a backend. -/
def contents : Backend → List UInt8
  | .file fs => fs.contents
  | .core cs | .constCore cs | .autoCore cs => cs.data
  | .netSocket _ => []

/-- Reads of what the backend has, up to a position, succeed. -/
def ReadsTo (reach : Nat) : Backend → Prop
  | .file fs => fs.faultAfter = none
  | .core cs | .constCore cs | .autoCore cs => reach ≤ cs.size ∧ cs.data.length < 2 ^ 63
  | .netSocket _ => False

/-- The backend keeps its books for writes at its cursor. -/
def Appends : Backend → Prop
  | .file fs => fs.faultAfter = none
  | .core cs | .constCore cs => cs.data.length < 2 ^ 63
  | .autoCore cs =>
    cs.data.length < 2 ^ 63 ∧ cs.data.length ≤ cs.size ∧
      cs.offs ≤ cs.size ∧ cs.size < cs.offs + 2 ^ 63
  | .netSocket _ => False

/-- The backend has the bytes at a position and lets them be read. -/
structure Segment (backend : Backend) (start : Nat) (bytes : List UInt8) : Prop where
  held : SegmentAt backend.contents start bytes
  readable : backend.ReadsTo (start + bytes.length)

/-- The cursor is at a position, and the backend can be written there. -/
structure WritesAt (backend : Backend) (start : Nat) : Prop where
  cursor : backend.tell = start
  appends : backend.Appends

/-- The backend keeps every segment that meets a condition. -/
def Keeps (backend after : Backend) (condition : Nat → Nat → Prop) : Prop :=
  ∀ start bytes, backend.Segment start bytes → condition start (start + bytes.length) →
    after.Segment start bytes

variable {backend : Backend}

theorem ReadsTo.mono {reach lower : Nat} (reads : backend.ReadsTo reach) (below : lower ≤ reach) :
    backend.ReadsTo lower := by
  cases backend with
  | file fs | netSocket fs => exact reads
  | core cs | constCore cs | autoCore cs => exact ⟨Nat.le_trans below reads.1, reads.2⟩

variable {start : Nat}

theorem segment_append {first second : List UInt8} : backend.Segment start (first ++ second) ↔
      backend.Segment start first ∧ backend.Segment (start + first.length) second := by
  have reach : start + (first ++ second).length = start + first.length + second.length := by
    rw [List.length_append, Nat.add_assoc]
  constructor
  · intro segment
    obtain ⟨early, late⟩ := segmentAt_append.mp segment.held
    have readable := segment.readable
    rw [reach] at readable
    exact ⟨⟨early, readable.mono (Nat.le_add_right _ _)⟩, ⟨late, readable⟩⟩
  · rintro ⟨early, late⟩
    refine ⟨segmentAt_append.mpr ⟨early.held, late.held⟩, ?_⟩
    rw [reach]
    exact late.readable

/-! ## Reads -/

variable {cs : CoreSource}

theorem coreRead_segment {bytes : List UInt8} (held : SegmentAt cs.data start bytes)
    (readable : start + bytes.length ≤ cs.size ∧ cs.data.length < 2 ^ 63)
    (cursor : cs.offs = start) :
    coreRead cs bytes.length = .ok ({ status := 0, count := some bytes.length, bytes := bytes },
        { cs with offs := start + bytes.length }) := by
  have inside := held.inside
  have reach : sizeT (cs.offs + bytes.length) = start + bytes.length := by
    rw [cursor, sizeT]
    omega
  have copied : memRead cs.data cs.offs bytes.length = .ok bytes := by
    rw [memRead_eq_ok, cursor]
    exact ⟨⟨Int.natCast_nonneg _, by omega⟩, held.read⟩
  have moved : offT (cs.offs + bytes.length) = (start : Int) + bytes.length := by
    rw [cursor, offT]
    exact Int.bmod_eq_of_le (by omega) (by omega)
  unfold coreRead
  rw [if_neg (by omega), copied, moved]
  rfl

theorem fileRead_segment {fs : FileSource} {bytes : List UInt8}
    (held : SegmentAt fs.contents start bytes) (healthy : fs.faultAfter = none)
    (cursor : fs.pos = start) :
    fileRead fs bytes.length = ({ status := 0, count := some bytes.length, bytes := bytes },
        { fs with pos := start + bytes.length }) := by
  have available : min bytes.length (fs.contents.length - start) = bytes.length := by
    have inside := held.inside
    omega
  simp only [fileRead, fread, FileSource.completes, FileSource.spend,
    cursor, healthy, available, held.read]
  simp

theorem Segment.read {bytes : List UInt8} (segment : backend.Segment start bytes)
    (cursor : backend.tell = start) :
    ∃ after, backend.read bytes.length =
          .ok ({ status := 0, count := some bytes.length, bytes := bytes }, after) ∧
        after.tell = start + bytes.length ∧ backend.Keeps after fun _ _ => True := by
  obtain ⟨held, readable⟩ := segment
  cases backend with
  | file fs =>
    have got := fileRead_segment held readable (Int.ofNat.inj cursor)
    refine ⟨.file { fs with pos := start + bytes.length }, ?_, rfl, ?_⟩
    · simp only [Backend.read, got]
    · exact fun place old segment _ => ⟨segment.held, segment.readable⟩
  | core cs =>
    have got := coreRead_segment held readable cursor
    refine ⟨.core { cs with offs := start + bytes.length }, ?_, rfl, ?_⟩
    · simp only [Backend.read, got]
      rfl
    · exact fun place old segment _ => ⟨segment.held, segment.readable⟩
  | constCore cs =>
    have got := coreRead_segment held readable cursor
    refine ⟨.constCore { cs with offs := start + bytes.length }, ?_, rfl, ?_⟩
    · simp only [Backend.read, got]
      rfl
    · exact fun place old segment _ => ⟨segment.held, segment.readable⟩
  | autoCore cs =>
    have got := coreRead_segment held readable cursor
    refine ⟨.autoCore { cs with offs := start + bytes.length }, ?_, rfl, ?_⟩
    · simp only [Backend.read, got]
      rfl
    · exact fun place old segment _ => ⟨segment.held, segment.readable⟩
  | netSocket sock => cases readable

/-- Positions of the backend do not wrap. -/
def Regular : Backend → Prop
  | .file _ => True
  | .core cs | .constCore cs | .autoCore cs => cs.data.length < 2 ^ 63
  | .netSocket _ => False

theorem ReadsTo.regular {reach : Nat} (reads : backend.ReadsTo reach) : backend.Regular := by
  cases backend with
  | file fs => exact trivial
  | core cs | constCore cs | autoCore cs => exact reads.2
  | netSocket sock => exact reads

variable {transfer : Transfer}

theorem coreRead_advances {after : CoreSource} {size : Nat}
    (returned : coreRead cs size = .ok (transfer, after)) (succeeded : transfer.status = 0) :
    transfer.bytes.length = size ∧ (cs.data.length < 2 ^ 63 →
        after = { cs with offs := cs.offs + size }) := by
  unfold coreRead at returned
  split at returned
  case isTrue =>
    cases returned
    cases succeeded
  case isFalse =>
    obtain ⟨bytes, copied, result⟩ := bind_eq_ok.mp returned
    obtain ⟨inside, rfl⟩ := memRead_eq_ok.mp copied
    cases result
    refine ⟨?_, fun addressable => ?_⟩
    · simp only [List.length_take, List.length_drop]
      omega
    · have moved : offT (cs.offs + size) = cs.offs + size :=
        Int.bmod_eq_of_le (by omega) (by omega)
      rw [moved]

theorem read_advances {after : Backend} {size : Nat}
    (returned : backend.read size = .ok (transfer, after)) (succeeded : transfer.status = 0)
    (complete : ∀ count, transfer.count = some count → size ≤ count) :
    transfer.bytes.length = size ∧ (backend.Regular →
        after.Regular ∧ after.tell = backend.tell + size) := by
  cases backend with
  | file fs =>
    cases returned
    have whole := complete _ rfl
    dsimp only [fileRead, fread, FileSource.completes] at whole ⊢
    rw [List.length_take, List.length_drop] at whole ⊢
    refine ⟨?_, fun _ => ⟨trivial, ?_⟩⟩
    · split at whole <;> omega
    · simp only [tell, fileTell, Nat.cast_add]
      split at whole <;> omega
  | core cs | constCore cs | autoCore cs =>
    obtain ⟨⟨moved, next⟩, read, result⟩ := bind_eq_ok.mp returned
    cases result
    obtain ⟨length, advanced⟩ := coreRead_advances read succeeded
    refine ⟨length, fun regular => ?_⟩
    rw [advanced regular]
    exact ⟨regular, rfl⟩
  | netSocket sock =>
    cases returned
    cases answer : sock.incoming.head?.join with
    | none =>
      simp only [answer] at succeeded
      cases succeeded
    | some received =>
      simp only [answer] at complete ⊢
      have whole := complete _ rfl
      refine ⟨?_, nofun⟩
      rw [List.length_take] at whole ⊢
      omega

theorem read_delivers {after : Backend} {size : Nat} (regular : backend.Regular)
    (returned : backend.read size = .ok (transfer, after)) :
    ∃ count, transfer.bytes = (backend.contents.drop backend.tell.toNat).take count := by
  have memory {cs next : CoreSource} (called : coreRead cs size = .ok (transfer, next)) :
      ∃ count, transfer.bytes = (cs.data.drop cs.offs.toNat).take count := by
    unfold coreRead at called
    split at called
    case isTrue =>
      cases called
      exact ⟨0, List.take_zero.symm⟩
    case isFalse =>
      obtain ⟨bytes, copied, result⟩ := bind_eq_ok.mp called
      cases result
      exact ⟨size, (memRead_eq_ok.mp copied).2.symm⟩
  cases backend with
  | file fs =>
    cases returned
    exact ⟨_, rfl⟩
  | core cs | constCore cs | autoCore cs =>
    obtain ⟨⟨got, next⟩, called, result⟩ := bind_eq_ok.mp returned
    cases result
    exact memory called
  | netSocket sock => exact regular.elim

theorem fseek_inside (fs : FileSource) (addressable : start < 2 ^ 63) :
    fseek fs start .seekSet = some { fs with pos := start } := by
  have inside : (0 : Int) ≤ start ∧ (start : Int) < 2 ^ 63 :=
    ⟨Int.natCast_nonneg _, by exact_mod_cast addressable⟩
  unfold fseek
  dsimp only
  rw [if_pos inside, Int.toNat_natCast]

theorem fileSeek_inside (fs : FileSource) (addressable : start < 2 ^ 63) :
    fileSeek fs start .seekSet = (0, { fs with pos := start }) := by
  rw [fileSeek, fseek_inside fs addressable]

theorem coreSeek_start (inside : start < cs.size) (addressable : start < 2 ^ 63) :
    coreSeek cs start .seekSet = (0, { cs with offs := start }) := by
  have within : ¬ ((start : Int) < 0 ∨ sizeT start ≥ cs.size) := by
    rw [sizeT]
    omega
  unfold coreSeek
  dsimp only
  rw [if_neg within]

theorem Segment.seek {bytes : List UInt8} (segment : backend.Segment start bytes)
    (nonempty : bytes ≠ []) (addressable : start < 2 ^ 63) :
    ∃ after, backend.seek start .seekSet = (0, after) ∧ after.tell = start ∧
        backend.Keeps after fun _ _ => True := by
  obtain ⟨held, readable⟩ := segment
  have positive : 0 < bytes.length := List.length_pos_iff.mpr nonempty
  cases backend with
  | file fs =>
    refine ⟨.file { fs with pos := start }, ?_, rfl, ?_⟩
    · rw [Backend.seek, fileSeek_inside fs addressable]
    · exact fun place old segment _ => ⟨segment.held, segment.readable⟩
  | core cs =>
    have inside : start < cs.size := Nat.lt_of_lt_of_le (by omega) readable.1
    refine ⟨.core { cs with offs := start }, ?_, rfl, ?_⟩
    · rw [Backend.seek, coreSeek_start inside addressable]
    · exact fun place old segment _ => ⟨segment.held, segment.readable⟩
  | constCore cs =>
    have inside : start < cs.size := Nat.lt_of_lt_of_le (by omega) readable.1
    refine ⟨.constCore { cs with offs := start }, ?_, rfl, ?_⟩
    · rw [Backend.seek, coreSeek_start inside addressable]
    · exact fun place old segment _ => ⟨segment.held, segment.readable⟩
  | autoCore cs =>
    have inside : start < cs.size := Nat.lt_of_lt_of_le (by omega) readable.1
    refine ⟨.autoCore { cs with offs := start }, ?_, rfl, ?_⟩
    · rw [Backend.seek, coreSeek_start inside addressable]
    · exact fun place old segment _ => ⟨segment.held, segment.readable⟩
  | netSocket sock => cases readable

/-! ## Writes -/

/-- What a write at the cursor leaves. -/
structure Wrote (backend after : Backend) (start : Nat) (bytes : List UInt8) : Prop where
  writes : after.WritesAt (start + bytes.length)
  segment : after.Segment start bytes
  kept : backend.Keeps after fun _ reach => reach ≤ start

theorem fwrite_healthy {fs : FileSource} (healthy : fs.faultAfter = none) (buf : List UInt8) :
    fileWrite fs buf = ({ status := 0, count := some buf.length, bytes := [] },
        { fs with
          contents := store (fun _ => 0) fs.contents fs.pos buf
          pos := fs.pos + buf.length }) := by
  simp [fileWrite, fwrite, FileSource.completes, FileSource.spend, healthy]

theorem sizeT_of_inside {data : List UInt8} {start : Int} {len : Nat}
    (inside : 0 ≤ start ∧ start + len ≤ data.length) (addressable : data.length < 2 ^ 63) :
    sizeT (start + len) = start.toNat + len ∧ offT (start + len) = start + len := by
  constructor
  · rw [sizeT]
    omega
  · rw [offT]
    exact Int.bmod_eq_of_le (by omega) (by omega)

variable {buf : List UInt8}

theorem coreWrite_eq_ok {after : CoreSource} (addressable : cs.data.length < 2 ^ 63)
    (returned : coreWrite cs buf = .ok (transfer, after)) (succeeded : transfer.status = 0) :
    0 ≤ cs.offs ∧ cs.offs.toNat + buf.length ≤ cs.data.length ∧
      cs.offs.toNat + buf.length ≤ cs.size ∧
      after =
        { cs with data := splice cs.data cs.offs.toNat buf, offs := cs.offs + buf.length } := by
  unfold coreWrite at returned
  split at returned
  case isTrue =>
    cases returned
    cases succeeded
  case isFalse within =>
    obtain ⟨data, stored, result⟩ := bind_eq_ok.mp returned
    obtain ⟨inside, rfl⟩ := memWrite_eq_ok.mp stored
    cases result
    obtain ⟨reach, moved⟩ := sizeT_of_inside inside addressable
    rw [moved]
    exact ⟨inside.1, by omega, by omega, rfl⟩

theorem coreAutoWrite_eq_ok {allocation : Allocation} {after : CoreSource}
    (addressable : cs.data.length < 2 ^ 63)
    (counted : cs.offs ≤ cs.size ∧ cs.size < cs.offs + 2 ^ 63)
    (returned : coreAutoWrite allocation cs buf = .ok (transfer, after))
    (succeeded : transfer.status = 0) :
    0 ≤ cs.offs ∧ ∃ memory, (memory = cs.data ∨ memory =
            resize allocation.fresh (cs.offs.toNat + buf.length) cs.data ∧
          cs.size < cs.offs.toNat + buf.length) ∧
        memory.length < 2 ^ 63 ∧ cs.offs.toNat + buf.length ≤ memory.length ∧ after =
          { data := splice memory cs.offs.toNat buf
            size := cs.size + buf.length
            offs := cs.offs + buf.length } := by
  unfold coreAutoWrite at returned
  dsimp only at returned
  split at returned
  case h_1 =>
    cases returned
    cases succeeded
  case h_2 memory granted =>
    obtain ⟨data, stored, result⟩ := bind_eq_ok.mp returned
    obtain ⟨inside, rfl⟩ := memWrite_eq_ok.mp stored
    cases result
    have fresh : memory.length < 2 ^ 63 ∧ (memory = cs.data ∨ memory =
              resize allocation.fresh (sizeT (cs.offs + buf.length)) cs.data ∧
            cs.size < sizeT (cs.offs + buf.length)) := by
      split at granted
      case isTrue beyond =>
        obtain ⟨grants, rfl⟩ := tryRealloc_eq_some.mp granted
        rw [length_resize]
        exact ⟨grants_lt grants, .inr ⟨rfl, beyond⟩⟩
      case isFalse =>
        cases granted
        exact ⟨addressable, .inl rfl⟩
    obtain ⟨reach, moved⟩ := sizeT_of_inside inside fresh.1
    have grown : sizeT (cs.size + buf.length) = cs.size + buf.length := by
      rw [sizeT]
      omega
    rw [reach] at fresh
    rw [moved, grown]
    exact ⟨inside.1, memory, fresh.2, fresh.1, by omega, rfl⟩

theorem write_wrote {after : Backend} {allocation : Allocation} (writes : backend.WritesAt start)
    (reaches : buf = [] → start ≤ backend.contents.length)
    (returned : backend.write allocation buf = .ok (transfer, after))
    (succeeded : transfer.status = 0) : backend.Wrote after start buf := by
  obtain ⟨cursor, appends⟩ := writes
  cases backend with
  | file fs =>
    have atStart : fs.pos = start := Int.ofNat.inj cursor
    simp only [Backend.write, fwrite_healthy appends] at returned
    cases returned
    refine ⟨⟨?_, appends⟩, ⟨?_, appends⟩, ?_⟩
    · simp [tell, fileTell, atStart]
    · rw [← atStart]
      exact segmentAt_store _ (atStart ▸ reaches)
    · intro place old segment inFront
      refine ⟨segment.held.store (.inl ?_), appends⟩
      rw [atStart]
      exact inFront
  | core cs =>
    obtain ⟨⟨moved, next⟩, wrote, result⟩ := bind_eq_ok.mp returned
    cases result
    obtain ⟨nonnegative, inData, inSize, rfl⟩ := coreWrite_eq_ok appends wrote succeeded
    have atStart : cs.offs = start := cursor
    rw [atStart, Int.toNat_natCast] at inData inSize
    rw [atStart, Int.toNat_natCast]
    have sameLength := length_splice inData
    have addressable : (splice cs.data start buf).length < 2 ^ 63 := by rwa [sameLength]
    refine ⟨⟨rfl, addressable⟩, ⟨segmentAt_splice inData, inSize, addressable⟩, ?_⟩
    intro place old segment inFront
    exact ⟨segment.held.splice inData (.inl inFront), segment.readable.1, addressable⟩
  | constCore cs =>
    cases returned
    cases succeeded
  | autoCore cs =>
    obtain ⟨⟨moved, next⟩, wrote, result⟩ := bind_eq_ok.mp returned
    cases result
    obtain ⟨small, behind, inSize, close⟩ := appends
    obtain ⟨nonnegative, memory, grown, addressable, inMemory, rfl⟩ :=
      coreAutoWrite_eq_ok small ⟨inSize, close⟩ wrote succeeded
    have atStart : cs.offs = start := cursor
    rw [atStart, Int.toNat_natCast] at grown inMemory
    rw [atStart, Int.toNat_natCast]
    rw [atStart] at inSize close
    have sameLength := length_splice inMemory
    have memorySmall : (splice memory start buf).length < 2 ^ 63 := by rwa [sameLength]
    have memoryBehind : memory.length ≤ cs.size + buf.length := by
      rcases grown with rfl | ⟨rfl, _⟩
      · exact Nat.le_trans behind (Nat.le_add_right _ _)
      · rw [length_resize]
        omega
    refine ⟨⟨rfl, memorySmall, ?_, ?_, ?_⟩, ⟨segmentAt_splice inMemory, ?_, memorySmall⟩, ?_⟩
    · rwa [sameLength]
    · push_cast
      omega
    · push_cast
      omega
    · dsimp only
      omega
    · intro place old segment inFront
      have kept : SegmentAt memory place old := by
        rcases grown with rfl | ⟨rfl, beyond⟩
        · exact segment.held
        · exact segment.held.resize (by omega)
      refine ⟨kept.splice inMemory (.inl inFront), ?_, memorySmall⟩
      exact Nat.le_trans segment.readable.1 (Nat.le_add_right _ _)
  | netSocket sock => cases appends

end Backend

end Agar.Core
