import Agar.Core.CoreSeek
import Agar.Lib.Runs

namespace Agar.Core

open Agar.Lib

/-!
# A growable byte array with a cursor

Whether the source of `AG_OpenAutoCore` is a growable byte array with a cursor
under any interleaving of reads, writes and seeks.  The array itself is
`IdealSource`.  The calls that the source serves as the array does are
`CoreSource.Serves`: a sequential write counts its bytes as new even where it
overwrites, a positioned read accepts some negative positions, an empty
positioned write beyond the end extends the source, and seeks have the limits
of `CoreSeek`.
-/

/-- One call on a data source, with the allocator's answer to it. -/
inductive SourceOp where
  | write (allocation : Allocation) (buf : List UInt8)
  | writeAt (allocation : Allocation) (buf : List UInt8) (pos : Int)
  | read (len : Nat)
  | readAt (len : Nat) (pos : Int)
  | seek (offs : Int) (mode : SeekMode)

namespace SourceOp

/-- Buffers are objects in memory, and positions have type `off_t`. -/
def Admitted : SourceOp → Prop
  | .write _ buf => buf.length < 2 ^ 63
  | .writeAt _ buf pos => buf.length < 2 ^ 63 ∧ -2 ^ 63 ≤ pos ∧ pos < 2 ^ 63
  | .read len => len < 2 ^ 63
  | .readAt len pos => len < 2 ^ 63 ∧ -2 ^ 63 ≤ pos ∧ pos < 2 ^ 63
  | .seek offs _ => -2 ^ 63 ≤ offs ∧ offs < 2 ^ 63

end SourceOp

/-- What a call returns: its status and the bytes it read. -/
structure Reply where
  status : Int
  bytes : List UInt8
  deriving Repr, DecidableEq

/-- Perform one call on a source. -/
def DataSource.perform (ds : DataSource) : SourceOp → Except Stop (DataSource × Reply)
  | .write allocation buf => do
      let (status, after) ← DataSource.write { ds with allocation := allocation } buf
      return (after, { status := status, bytes := [] })
  | .writeAt allocation buf pos => do
      let (status, after) ← DataSource.writeAt { ds with allocation := allocation } buf pos
      return (after, { status := status, bytes := [] })
  | .read len => do
      let (status, bytes, after) ← ds.read len
      return (after, { status := status, bytes := bytes })
  | .readAt len pos => do
      let (status, bytes, after) ← ds.readAt len pos
      return (after, { status := status, bytes := bytes })
  | .seek offs mode =>
    let (status, after) := ds.seek offs mode
    .ok (after, { status := status, bytes := [] })

/-- An ideal byte array with a cursor. -/
structure IdealSource where
  bytes : List UInt8
  cursor : Nat
  deriving Repr, DecidableEq

namespace IdealSource

/--
Write at a position: replace or extend the positions from it on, unless the
array must grow and the allocator refuses.
-/
def put (ideal : IdealSource) (allocation : Allocation) (buf : List UInt8)
    (pos : Nat) : Option (List UInt8) :=
  let bytes := store allocation.fresh ideal.bytes pos buf
  if bytes.length ≤ ideal.bytes.length ∨ allocation.grants bytes.length then some bytes else none

/-- Read a range that lies inside the array. -/
def get (ideal : IdealSource) (pos len : Nat) : Option (List UInt8) :=
  if pos + len ≤ ideal.bytes.length then some ((ideal.bytes.drop pos).take len) else none

/-- A call that fails and changes nothing. -/
def refuse (ideal : IdealSource) : IdealSource × Reply := (ideal, { status := -1, bytes := [] })

/-- Perform one call on the ideal array. -/
def perform (ideal : IdealSource) : SourceOp → IdealSource × Reply
  | .write allocation buf =>
    match ideal.put allocation buf ideal.cursor with
    | none => ideal.refuse
    | some bytes =>
      ({ bytes := bytes, cursor := ideal.cursor + buf.length }, { status := 0, bytes := [] })
  | .writeAt allocation buf pos =>
    if pos < 0 then ideal.refuse
    else
      match ideal.put allocation buf pos.toNat with
      | none => ideal.refuse
      | some bytes => ({ ideal with bytes := bytes }, { status := 0, bytes := [] })
  | .read len =>
    match ideal.get ideal.cursor len with
    | none => ideal.refuse
    | some bytes => ({ ideal with cursor := ideal.cursor + len }, { status := 0, bytes := bytes })
  | .readAt len pos =>
    if pos < 0 then ideal.refuse
    else
      match ideal.get pos.toNat len with
      | none => ideal.refuse
      | some bytes => (ideal, { status := 0, bytes := bytes })
  | .seek offs mode =>
    let target := seekTarget ideal.bytes.length ideal.cursor offs mode
    if 0 ≤ target ∧ target ≤ ideal.bytes.length then
      ({ ideal with cursor := target.toNat }, { status := 0, bytes := [] })
    else ideal.refuse

end IdealSource

/--
The contents, the size and the cursor of a memory source are those of an
array, and the size does not exceed the allocated length.
-/
structure CoreSource.Matches (cs : CoreSource) (ideal : IdealSource) : Prop where
  contents : cs.data.take cs.size = ideal.bytes
  size : cs.size = ideal.bytes.length
  cursor : cs.offs = ideal.cursor
  allocated : cs.size ≤ cs.data.length

/-- The source is made by `AG_OpenAutoCore` and matches an array. -/
def DataSource.Matches (ds : DataSource) (ideal : IdealSource) : Prop :=
  ∃ cs, ds.backend = .autoCore cs ∧ cs.Matches ideal

/--
The memory of an automatic source holds the array and nothing more, and the
cursor of the array lies inside it.
-/
structure CoreSource.Holds (cs : CoreSource) (ideal : IdealSource) : Prop where
  contents : cs.data = ideal.bytes
  size : cs.size = cs.data.length
  cursor : cs.offs = ideal.cursor
  cursorInside : ideal.cursor ≤ ideal.bytes.length
  addressable : ideal.bytes.length < 2 ^ 63

/-- An automatic source holds the array. -/
def DataSource.Holds (ds : DataSource) (ideal : IdealSource) : Prop :=
  ∃ cs, ds.backend = .autoCore cs ∧ cs.Holds ideal

/--
The calls that an automatic source serves as the ideal array does: it writes
sequentially at the end of the data only, gives no empty positioned write
beyond it, reads at no negative position from which the range would end
inside the data, and seeks to no target that `CoreSeek` mistakes.
-/
def CoreSource.Serves (cs : CoreSource) : SourceOp → Prop
  | .write allocation buf =>
    buf = [] ∨ cs.offs = cs.size ∨ (cs.size < cs.offs + buf.length ∧
        allocation.grants (cs.offs + buf.length).toNat = false)
  | .writeAt _ buf pos => buf = [] → pos ≤ cs.size
  | .read _ => True
  | .readAt len pos => 0 ≤ pos ∨ pos + len < 0 ∨ cs.size < pos + len
  | .seek offs .seekSet => offs ≠ cs.size
  | .seek offs .seekCur => cs.offs + offs ≠ cs.size
  | .seek offs .seekEnd => offs < -cs.size ∨ cs.size < offs

/-- The call is one that the source's memory serves. -/
def DataSource.Serves (ds : DataSource) (op : SourceOp) : Prop :=
  ∀ cs, ds.backend = .autoCore cs → cs.Serves op

/-- The callbacks of an automatic source, without the counters. -/
def CoreSource.autoPerform (cs : CoreSource) : SourceOp → Except Stop (CoreSource × Reply)
  | .write allocation buf => do
      let (transfer, after) ← coreAutoWrite allocation cs buf
      return (after, { status := transfer.status, bytes := [] })
  | .writeAt allocation buf pos => do
      let (transfer, after) ← coreAutoWriteAt allocation cs buf pos
      return (after, { status := transfer.status, bytes := [] })
  | .read len => do
      let (transfer, after) ← coreRead cs len
      return (after, { status := transfer.status, bytes := transfer.bytes })
  | .readAt len pos => do
      let (transfer, after) ← coreReadAt cs len pos
      return (after, { status := transfer.status, bytes := transfer.bytes })
  | .seek offs mode =>
    let (status, after) := coreSeek cs offs mode
    .ok (after, { status := status, bytes := [] })

/-- A callback either fails without a count or transfers all it was asked. -/
def Transfer.Complete (transfer : Transfer) (size : Nat) : Prop :=
  transfer.status = -1 ∨ (transfer.status = 0 ∧ transfer.count = some size)

variable {transfer : Transfer}

theorem Transfer.Complete.status_kept {size : Nat} (complete : transfer.Complete size)
    (last : Nat) :
    (if transfer.count.getD last < size then (-1 : Int)
      else transfer.status) = transfer.status := by
  rcases complete with failed | ⟨succeeded, counted⟩
  · rw [failed]
    split <;> rfl
  · simp [counted, succeeded]

variable {cs after : CoreSource}

variable {len : Nat}

theorem coreRead_complete (result : coreRead cs len = .ok (transfer, after)) :
    transfer.Complete len := by
  unfold coreRead memRead at result
  split at result
  · cases result
    exact .inl rfl
  · split at result
    · cases result
      exact .inr ⟨rfl, rfl⟩
    · cases result

theorem coreReadAt_complete {pos : Int} (result : coreReadAt cs len pos = .ok (transfer, after)) :
    transfer.Complete len := by
  unfold coreReadAt memRead at result
  split at result
  · cases result
    exact .inl rfl
  · split at result
    · cases result
      exact .inr ⟨rfl, rfl⟩
    · cases result

variable {allocation : Allocation}

variable {buf : List UInt8}

theorem coreAutoWrite_complete (result : coreAutoWrite allocation cs buf = .ok (transfer, after)) :
    transfer.Complete buf.length := by
  unfold coreAutoWrite memWrite at result
  dsimp only at result
  split at result
  · cases result
    exact .inl rfl
  · split at result
    · cases result
      exact .inr ⟨rfl, rfl⟩
    · cases result

theorem coreAutoWriteAt_complete {pos : Int}
    (result : coreAutoWriteAt allocation cs buf pos = .ok (transfer, after)) :
    transfer.Complete buf.length := by
  unfold coreAutoWriteAt memWrite at result
  dsimp only at result
  split at result
  · cases result
    exact .inl rfl
  · split at result
    · cases result
      exact .inl rfl
    · split at result
      · cases result
        exact .inr ⟨rfl, rfl⟩
      · cases result

theorem perform_autoCore {ds : DataSource} (auto : ds.backend = .autoCore cs) (op : SourceOp) :
    match cs.autoPerform op with
    | .error stop => ds.perform op = .error stop
    | .ok (after, reply) =>
      ∃ next, ds.perform op = .ok (next, reply) ∧ next.backend = .autoCore after := by
  cases op with
  | write allocation buf =>
    simp only [CoreSource.autoPerform, DataSource.perform,
      DataSource.write, DataSource.writeP, Backend.write, auto]
    cases result : coreAutoWrite allocation cs buf with
    | error stop => rfl
    | ok outcome =>
      refine ⟨DataSource.countWrite
          { ds with allocation := allocation } outcome.1
          (.autoCore outcome.2), ?_, rfl⟩
      have kept := (coreAutoWrite_complete result).status_kept ds.wrLast
      simp only [Except.bind, bind, pure, Except.pure, DataSource.countWrite, kept]
  | writeAt allocation buf pos =>
    simp only [CoreSource.autoPerform, DataSource.perform,
      DataSource.writeAt, DataSource.writeAtP, Backend.writeAt, auto]
    cases result : coreAutoWriteAt allocation cs buf pos with
    | error stop => rfl
    | ok outcome =>
      refine ⟨DataSource.countWrite
          { ds with allocation := allocation } outcome.1
          (.autoCore outcome.2), ?_, rfl⟩
      have kept := (coreAutoWriteAt_complete result).status_kept ds.wrLast
      simp only [Except.bind, bind, pure, Except.pure, DataSource.countWrite, kept]
  | read len =>
    simp only [CoreSource.autoPerform, DataSource.perform,
      DataSource.read, DataSource.readP, Backend.read, auto]
    cases result : coreRead cs len with
    | error stop => rfl
    | ok outcome =>
      refine ⟨ds.countRead outcome.1 (.autoCore outcome.2), ?_, rfl⟩
      have kept := (coreRead_complete result).status_kept ds.rdLast
      simp only [Except.bind, bind, pure, Except.pure, DataSource.countRead, kept]
  | readAt len pos =>
    simp only [CoreSource.autoPerform, DataSource.perform,
      DataSource.readAt, DataSource.readAtP, Backend.readAt, auto]
    cases result : coreReadAt cs len pos with
    | error stop => rfl
    | ok outcome =>
      refine ⟨ds.countRead outcome.1 (.autoCore outcome.2), ?_, rfl⟩
      have kept := (coreReadAt_complete result).status_kept ds.rdLast
      simp only [Except.bind, bind, pure, Except.pure, DataSource.countRead, kept]
  | seek offs mode =>
    simp only [CoreSource.autoPerform, DataSource.perform, DataSource.seek, Backend.seek, auto]
    exact ⟨_, rfl, rfl⟩

/-! ## One step -/

/-- The memory that holds an ideal array. -/
def IdealSource.inMemory (ideal : IdealSource) : CoreSource where
  data := ideal.bytes
  size := ideal.bytes.length
  offs := ideal.cursor

variable {ideal : IdealSource}

theorem CoreSource.Holds.eq_inMemory (holds : cs.Holds ideal) : cs = ideal.inMemory := by
  obtain ⟨contents, size, cursor, _, _⟩ := holds
  cases cs
  simp_all [IdealSource.inMemory]

theorem CoreSource.Holds.matches (holds : cs.Holds ideal) : cs.Matches ideal := by
  obtain rfl := holds.eq_inMemory
  exact
    { contents := List.take_length
      size := rfl
      cursor := rfl
      allocated := Nat.le_refl _ }

/--
The memory of an array answers a call as the array does, and is then related
to the array that the call leaves.
-/
def CoreSource.AnswersAs (related : CoreSource → IdealSource → Prop) (cs : CoreSource)
    (ideal : IdealSource) (op : SourceOp) : Prop :=
  ∃ after, cs.autoPerform op = .ok (after, (ideal.perform op).2) ∧
      related after (ideal.perform op).1

/--
The calls that are served keep the array in memory, and no other call is
answered as the array does with a matching state.
-/
structure CoreSource.ServedExactly (cs : CoreSource) (ideal : IdealSource)
    (op : SourceOp) : Prop where
  serves : cs.Serves op → cs.AnswersAs Holds ideal op
  necessary : cs.AnswersAs Matches ideal op → cs.Serves op

variable {op : SourceOp}

theorem CoreSource.servedExactly_of_answers (served : cs.Serves op)
    (answers : cs.AnswersAs Holds ideal op) : cs.ServedExactly ideal op where
  serves _ := answers
  necessary _ := served

theorem CoreSource.servedExactly_of_mistaken (unserved : ¬ cs.Serves op)
    (mistaken : ¬ cs.AnswersAs Matches ideal op) : cs.ServedExactly ideal op where
  serves served := absurd served unserved
  necessary answers := absurd answers mistaken

private theorem rangeEnd (start len : Nat) (startBound : start < 2 ^ 63) (lenBound : len < 2 ^ 63) :
    sizeT ((start : Int) + len) = start + len := by
  rw [sizeT_of_inRange (by omega) (by omega)]
  omega

theorem tryRealloc_length {data grown : List UInt8} {size : Nat}
    (realloced : tryRealloc allocation data size = some grown) :
    grown.length = size ∧ size < 2 ^ 63 := by
  unfold tryRealloc at realloced
  split at realloced
  case isTrue granted =>
    cases realloced
    rw [Allocation.grants, Bool.and_eq_true, decide_eq_true_eq] at granted
    exact ⟨length_resize _ _ _, granted.2⟩
  case isFalse => cases realloced

variable {pos : Nat}

theorem IdealSource.put_inside (inside : pos + buf.length ≤ ideal.bytes.length) :
    ideal.put allocation buf pos = some (splice ideal.bytes pos buf) := by
  rw [IdealSource.put, store_inside inside]
  simp only [length_splice inside, Nat.le_refl, true_or, if_true]

theorem IdealSource.put_beyond (nonempty : buf ≠ [])
    (beyond : ideal.bytes.length < pos + buf.length) :
    ideal.put allocation buf pos = (tryRealloc allocation ideal.bytes (pos + buf.length)).map
        fun grown => splice grown pos buf := by
  have stored : store allocation.fresh ideal.bytes pos buf =
        splice (resize allocation.fresh (pos + buf.length) ideal.bytes) pos buf :=
    store_extending nonempty (Nat.le_of_lt beyond)
  have storedLength : (store allocation.fresh ideal.bytes pos buf).length = pos + buf.length := by
    rw [length_store, if_neg (by simpa using nonempty), Nat.max_eq_right (Nat.le_of_lt beyond)]
  simp only [IdealSource.put, storedLength, tryRealloc]
  rw [stored]
  by_cases granted : allocation.grants (pos + buf.length) <;>
    simp [granted, Nat.not_le.mpr beyond]

theorem coreAutoWrite_inMemory (allocation : Allocation)
    (cursorInside : ideal.cursor ≤ ideal.bytes.length) (addressable : ideal.bytes.length < 2 ^ 63)
    (admitted : (SourceOp.write allocation buf).Admitted) :
    coreAutoWrite allocation ideal.inMemory buf =
      .ok (match ideal.put allocation buf ideal.cursor with
        | none => (.failed, ideal.inMemory)
        | some bytes =>
          ({ status := 0, count := some buf.length, bytes := [] },
            { data := bytes
              size := ideal.bytes.length + buf.length
              offs := offT ((ideal.cursor : Int) + buf.length) })) := by
  simp only [SourceOp.Admitted] at admitted
  have needed := rangeEnd ideal.cursor _ (by omega) admitted
  have sizeAfter := rangeEnd _ _ addressable admitted
  simp only [coreAutoWrite, IdealSource.inMemory, needed, sizeAfter]
  by_cases inside : ideal.cursor + buf.length ≤ ideal.bytes.length
  · rw [if_neg (by omega), IdealSource.put_inside inside]
    simp only [memWrite_inside inside]
    rfl
  · have nonempty : buf ≠ [] := by
      rintro rfl
      exact inside cursorInside
    rw [if_pos (by omega), IdealSource.put_beyond nonempty (by omega)]
    cases realloced : tryRealloc allocation ideal.bytes (ideal.cursor + buf.length) with
    | none => rfl
    | some grown =>
      have grownLength := (tryRealloc_length realloced).1
      simp only [memWrite_inside (Nat.le_of_eq grownLength.symm)]
      rfl

theorem IdealSource.put_length {bytes : List UInt8}
    (stored : ideal.put allocation buf pos = some bytes) :
    bytes.length = (if buf.isEmpty then ideal.bytes.length
          else max ideal.bytes.length (pos + buf.length)) ∧
      (ideal.bytes.length < 2 ^ 63 → bytes.length < 2 ^ 63) := by
  unfold IdealSource.put at stored
  dsimp only at stored
  split at stored
  case isTrue fits =>
    cases stored
    refine ⟨length_store _ _ _ _, fun addressable => ?_⟩
    rcases fits with kept | granted
    · omega
    · rw [Allocation.grants, Bool.and_eq_true, decide_eq_true_eq] at granted
      exact granted.2
  case isFalse => cases stored

theorem IdealSource.put_none_iff :
    ideal.put allocation buf pos = none ↔ buf ≠ [] ∧ ideal.bytes.length < pos + buf.length ∧
        allocation.grants (pos + buf.length) = false := by
  by_cases nonempty : buf = []
  · subst nonempty
    simp [IdealSource.put, store]
  by_cases inside : pos + buf.length ≤ ideal.bytes.length
  · simp [IdealSource.put_inside inside, Nat.not_lt.mpr inside]
  · rw [IdealSource.put_beyond nonempty (by omega), tryRealloc]
    cases granted : allocation.grants (pos + buf.length) <;>
      simp [nonempty]
    omega

theorem IdealSource.put_range {bytes : List UInt8}
    (stored : ideal.put allocation buf pos = some bytes)
    (startInside : buf = [] → pos ≤ ideal.bytes.length) : pos + buf.length ≤ bytes.length := by
  obtain ⟨storedLength, _⟩ := IdealSource.put_length stored
  rw [storedLength]
  by_cases empty : buf = []
  · simpa [empty] using startInside empty
  · rw [if_neg (by simpa using empty)]
    exact Nat.le_max_right _ _

theorem write_size_iff {bytes : List UInt8}
    (stored : ideal.put allocation buf ideal.cursor = some bytes) :
    ideal.bytes.length + buf.length = bytes.length ↔
      ideal.inMemory.Serves (.write allocation buf) := by
  obtain ⟨storedLength, _⟩ := IdealSource.put_length stored
  simp only [CoreSource.Serves, IdealSource.inMemory]
  by_cases empty : buf = []
  · simp [empty, storedLength]
  · have positive : 0 < buf.length :=
      List.length_pos_iff.mpr empty
    have allowed : ¬ ((ideal.bytes.length : Int) < ideal.cursor + buf.length ∧ allocation.grants
            ((ideal.cursor : Int) + buf.length).toNat = false) := by
      rintro ⟨beyond, refused⟩
      have notStored : ideal.put allocation buf ideal.cursor = none :=
        IdealSource.put_none_iff.mpr ⟨empty, by omega, refused⟩
      rw [stored] at notStored
      cases notStored
    simp only [empty, allowed, false_or, or_false]
    rw [storedLength, if_neg (by simpa using empty)]
    omega

theorem write_servedExactly (holds : cs.Holds ideal)
    (admitted : (SourceOp.write allocation buf).Admitted) :
    cs.ServedExactly ideal (.write allocation buf) := by
  have cursorInside := holds.cursorInside
  have addressable := holds.addressable
  obtain rfl := holds.eq_inMemory
  have written := coreAutoWrite_inMemory allocation cursorInside addressable admitted
  cases stored : ideal.put allocation buf ideal.cursor with
  | none =>
    obtain ⟨_, beyond, refused⟩ := IdealSource.put_none_iff.mp stored
    refine CoreSource.servedExactly_of_answers (.inr (.inr ⟨?_, refused⟩)) ⟨ideal.inMemory, ?_, ?_⟩
    · simp only [IdealSource.inMemory]
      omega
    · simp only [CoreSource.autoPerform, written, IdealSource.perform, stored]
      rfl
    · simpa only [IdealSource.perform, stored, IdealSource.refuse] using holds
  | some bytes =>
    have bound := (IdealSource.put_length stored).2 addressable
    have rangeInside := IdealSource.put_range stored fun _ => cursorInside
    have offsAfter : offT ((ideal.cursor : Int) + buf.length) =
          ((ideal.cursor + buf.length : Nat) : Int) := by
      rw [offT_of_inRange (by omega) (by omega)]
      omega
    have sizes := write_size_iff stored
    simp only [stored, offsAfter] at written
    constructor
    · intro served
      simp only [CoreSource.AnswersAs, CoreSource.autoPerform, written, IdealSource.perform, stored]
      exact ⟨_, rfl,
        { contents := rfl
          size := sizes.mpr served
          cursor := rfl
          cursorInside := rangeInside
          addressable := bound }⟩
    · simp only [CoreSource.AnswersAs, CoreSource.autoPerform, written, IdealSource.perform, stored]
      rintro ⟨after, taken, matching⟩
      cases taken
      exact sizes.mp matching.size

theorem coreAutoWriteAt_inMemory (allocation : Allocation) (lengthBound : buf.length < 2 ^ 63)
    (posBound : pos < 2 ^ 63) (startInside : buf = [] → pos ≤ ideal.bytes.length) :
    coreAutoWriteAt allocation ideal.inMemory buf pos = .ok (match ideal.put allocation buf pos with
        | none => (.failed, ideal.inMemory)
        | some bytes =>
          ({ status := 0, count := some buf.length, bytes := [] },
            { data := bytes
              size := bytes.length
              offs := ideal.cursor })) := by
  have needed := rangeEnd _ _ posBound lengthBound
  simp only [coreAutoWriteAt, IdealSource.inMemory, needed,
    if_neg (Int.not_lt.mpr (Int.natCast_nonneg pos))]
  by_cases inside : pos + buf.length ≤ ideal.bytes.length
  · rw [if_neg (by omega), IdealSource.put_inside inside]
    simp only [memWrite_inside inside, length_splice inside]
    rfl
  · have nonempty : buf ≠ [] := by
      rintro rfl
      exact inside (startInside rfl)
    rw [if_pos (by omega), IdealSource.put_beyond nonempty (by omega)]
    cases realloced : tryRealloc allocation ideal.bytes (pos + buf.length) with
    | none => rfl
    | some grown =>
      have grownLength := (tryRealloc_length realloced).1
      have copied : pos + buf.length ≤ grown.length := Nat.le_of_eq grownLength.symm
      simp only [Option.map_some, memWrite_inside copied, length_splice copied, grownLength]
      rfl

theorem emptyWriteAt_mistaken (posBound : pos < 2 ^ 63) (beyond : ideal.bytes.length < pos) :
    ¬ ideal.inMemory.AnswersAs CoreSource.Matches ideal (.writeAt allocation [] pos) := by
  have needed : sizeT (pos : Int) = pos := rangeEnd pos 0 posBound (by omega)
  have ideally : ideal.perform (.writeAt allocation [] pos) =
        (ideal, { status := 0, bytes := [] }) := by
    simp [IdealSource.perform, IdealSource.put, store, Int.not_lt.mpr (Int.natCast_nonneg pos)]
  rintro ⟨after, taken, matching⟩
  rw [ideally] at taken matching
  simp only [CoreSource.autoPerform, coreAutoWriteAt,
    if_neg (Int.not_lt.mpr (Int.natCast_nonneg pos)),
    IdealSource.inMemory, List.length_nil, Int.natCast_zero, Int.add_zero,
    needed, if_pos beyond] at taken
  cases realloced : tryRealloc allocation ideal.bytes pos with
  | none => simp [realloced, Transfer.failed, bind, Except.bind, pure, Except.pure] at taken
  | some grown =>
    have grownLength := (tryRealloc_length realloced).1
    have copied : memWrite grown pos [] = .ok (splice grown pos []) :=
      memWrite_inside (Nat.le_of_eq grownLength.symm)
    simp only [realloced, Option.map_some, copied, splice_nil] at taken
    cases taken
    have sameSize := matching.size
    dsimp only at sameSize
    omega

theorem writeAt_servedExactly (holds : cs.Holds ideal) {pos : Int}
    (admitted : (SourceOp.writeAt allocation buf pos).Admitted) :
    cs.ServedExactly ideal (.writeAt allocation buf pos) := by
  have cursorInside := holds.cursorInside
  have addressable := holds.addressable
  obtain rfl := holds.eq_inMemory
  obtain ⟨lengthBound, _, posBelow⟩ := admitted
  by_cases negative : pos < 0
  · refine CoreSource.servedExactly_of_answers (fun _ => ?_) ⟨ideal.inMemory, ?_, ?_⟩
    · simp only [IdealSource.inMemory]
      omega
    · simp only [CoreSource.autoPerform, coreAutoWriteAt, IdealSource.perform, if_pos negative]
      rfl
    · simpa only [IdealSource.perform, if_pos negative, IdealSource.refuse] using holds
  obtain ⟨pos, rfl⟩ := Int.eq_ofNat_of_zero_le (Int.not_lt.mp negative)
  by_cases startInside : buf = [] → pos ≤ ideal.bytes.length
  · have written :=
      coreAutoWriteAt_inMemory allocation lengthBound (by omega) startInside
    refine CoreSource.servedExactly_of_answers
      (fun empty => Int.ofNat_le.mpr (startInside empty)) ?_
    simp only [CoreSource.AnswersAs, CoreSource.autoPerform, written,
      IdealSource.perform, if_neg negative, Int.toNat_natCast]
    cases stored : ideal.put allocation buf pos with
    | none => exact ⟨_, rfl, holds⟩
    | some bytes =>
      obtain ⟨storedLength, bound⟩ := IdealSource.put_length stored
      have noShorter : ideal.bytes.length ≤ bytes.length := by
        rw [storedLength]
        split <;> omega
      exact ⟨_, rfl,
        { contents := rfl
          size := rfl
          cursor := rfl
          cursorInside := Nat.le_trans cursorInside noShorter
          addressable := bound addressable }⟩
  · obtain ⟨rfl, beyond⟩ := Classical.not_imp.mp startInside
    exact CoreSource.servedExactly_of_mistaken (fun served => beyond (Int.ofNat_le.mp (served rfl)))
      (emptyWriteAt_mistaken (by omega) (by omega))

theorem read_servedExactly (holds : cs.Holds ideal) (admitted : (SourceOp.read len).Admitted) :
    cs.ServedExactly ideal (.read len) := by
  have cursorInside := holds.cursorInside
  have addressable := holds.addressable
  obtain rfl := holds.eq_inMemory
  simp only [SourceOp.Admitted] at admitted
  have needed := rangeEnd ideal.cursor _ (by omega) admitted
  refine CoreSource.servedExactly_of_answers trivial ?_
  simp only [CoreSource.AnswersAs, CoreSource.autoPerform, coreRead,
    IdealSource.perform, IdealSource.get]
  by_cases inside : ideal.cursor + len ≤ ideal.bytes.length
  · have offsAfter : offT ((ideal.cursor : Int) + len) = ((ideal.cursor + len : Nat) : Int) := by
      rw [offT_of_inRange (by omega) (by omega)]
      omega
    simp only [IdealSource.inMemory, needed, if_pos inside,
      if_neg (Nat.not_lt.mpr inside), memRead_inside inside, offsAfter]
    exact ⟨_, rfl,
      { contents := rfl
        size := rfl
        cursor := rfl
        cursorInside := inside
        addressable := addressable }⟩
  · simp only [IdealSource.inMemory, needed, if_neg inside, if_pos (Nat.not_le.mp inside)]
    exact ⟨_, rfl, holds⟩

theorem readAt_servedExactly (holds : cs.Holds ideal) {pos : Int}
    (admitted : (SourceOp.readAt len pos).Admitted) : cs.ServedExactly ideal (.readAt len pos) := by
  have addressable := holds.addressable
  obtain rfl := holds.eq_inMemory
  obtain ⟨lengthBound, posAbove, posBelow⟩ := admitted
  by_cases negative : pos < 0
  · by_cases refused : pos + len < 0 ∨ (ideal.bytes.length : Int) < pos + len
    · have tooLong : sizeT (pos + len) > ideal.inMemory.size := by
        simp only [sizeT, IdealSource.inMemory]
        omega
      refine CoreSource.servedExactly_of_answers (.inr refused) ⟨ideal.inMemory, ?_, ?_⟩
      · simp only [CoreSource.autoPerform, coreReadAt, if_pos tooLong,
          IdealSource.perform, if_pos negative]
        rfl
      · simpa only [IdealSource.perform, if_pos negative, IdealSource.refuse] using holds
    · have needed : sizeT (pos + len) = (pos + len).toNat :=
        sizeT_of_inRange (by omega) (by omega)
      have fits : ¬ (pos + len).toNat > ideal.inMemory.size := by
        simp only [IdealSource.inMemory]
        omega
      have outside : ¬ (0 ≤ pos ∧ pos + len ≤ ideal.inMemory.data.length) := by omega
      refine CoreSource.servedExactly_of_mistaken ?_ ?_
      · simp only [CoreSource.Serves, IdealSource.inMemory]
        omega
      · rintro ⟨after, taken, _⟩
        simp only [CoreSource.autoPerform, coreReadAt, needed, if_neg fits,
          memRead, if_neg outside] at taken
        cases taken
  · obtain ⟨pos, rfl⟩ := Int.eq_ofNat_of_zero_le (Int.not_lt.mp negative)
    have needed := rangeEnd pos _ (by omega) lengthBound
    refine CoreSource.servedExactly_of_answers (.inl (Int.natCast_nonneg pos)) ?_
    simp only [CoreSource.AnswersAs, CoreSource.autoPerform, coreReadAt,
      IdealSource.perform, IdealSource.inMemory, if_neg negative,
      IdealSource.get, Int.toNat_natCast]
    by_cases inside : pos + len ≤ ideal.bytes.length
    · simp only [needed, if_pos inside, if_neg (Nat.not_lt.mpr inside), memRead_inside inside]
      exact ⟨_, rfl, holds⟩
    · simp only [needed, if_neg inside, if_pos (Nat.not_le.mp inside)]
      exact ⟨_, rfl, holds⟩

theorem CoreSource.Holds.inRange (holds : cs.Holds ideal) : cs.InRange := by
  have cursorInside := holds.cursorInside
  have addressable := holds.addressable
  obtain rfl := holds.eq_inMemory
  exact
    { allocated := Nat.le_refl _
      addressable := addressable
      cursorNonnegative := Int.natCast_nonneg _
      cursorInside := Int.ofNat_le.mpr cursorInside }

theorem seek_servedExactly (holds : cs.Holds ideal) {offs : Int} {mode : SeekMode}
    (admitted : (SourceOp.seek offs mode).Admitted) : cs.ServedExactly ideal (.seek offs mode) := by
  have inRange := holds.inRange
  have cursorInside := holds.cursorInside
  obtain rfl := holds.eq_inMemory
  let here : Int := coreSeekTarget ideal.bytes.length ideal.cursor offs mode
  let there : Int := seekTarget ideal.bytes.length ideal.cursor offs mode
  have seeks : coreSeek ideal.inMemory offs mode = if 0 ≤ here ∧ here < ideal.bytes.length then
          (0, { ideal.inMemory with offs := here })
        else
          (-1, ideal.inMemory) :=
    coreSeek_eq inRange admitted.1 admitted.2
  have ideally : ideal.perform (.seek offs mode) = if 0 ≤ there ∧ there ≤ ideal.bytes.length then
          ({ ideal with cursor := there.toNat }, { status := 0, bytes := [] })
        else
          ideal.refuse :=
    rfl
  -- Both sides compare a target of their own with the bounds of the data.
  have aims : ideal.inMemory.Serves (.seek offs mode) ↔ ((0 ≤ here ∧ here < ideal.bytes.length) ↔
          (0 ≤ there ∧ there ≤ ideal.bytes.length)) := by
    cases mode <;>
      simp only [here, there, coreSeekTarget, seekTarget,
        CoreSource.Serves, IdealSource.inMemory] <;>
      omega
  have sameTarget (reached : 0 ≤ here ∧ here < ideal.bytes.length)
      (admissible : 0 ≤ there ∧ there ≤ ideal.bytes.length) :
      here = there := by
    cases mode <;>
      simp only [here, there, coreSeekTarget, seekTarget] at reached admissible ⊢
    omega
  by_cases reached : 0 ≤ here ∧ here < ideal.bytes.length <;>
    by_cases admissible : 0 ≤ there ∧ there ≤ ideal.bytes.length
  · refine CoreSource.servedExactly_of_answers (aims.mpr (iff_of_true reached admissible)) ?_
    simp only [CoreSource.AnswersAs, CoreSource.autoPerform, seeks, ideally,
      if_pos reached, if_pos admissible]
    exact ⟨_, rfl,
      { holds with
        cursor := by
          rw [Int.toNat_of_nonneg admissible.1]
          exact sameTarget reached admissible
        cursorInside := Int.toNat_le.mpr admissible.2 }⟩
  · refine CoreSource.servedExactly_of_mistaken
      (fun served => admissible ((aims.mp served).mp reached)) ?_
    simp only [CoreSource.AnswersAs, CoreSource.autoPerform, seeks, ideally,
      if_pos reached, if_neg admissible]
    rintro ⟨after, taken, _⟩
    cases taken
  · refine CoreSource.servedExactly_of_mistaken
      (fun served => reached ((aims.mp served).mpr admissible)) ?_
    simp only [CoreSource.AnswersAs, CoreSource.autoPerform, seeks, ideally,
      if_neg reached, if_pos admissible]
    rintro ⟨after, taken, _⟩
    cases taken
  · refine CoreSource.servedExactly_of_answers (aims.mpr (iff_of_false reached admissible)) ?_
    simp only [CoreSource.AnswersAs, CoreSource.autoPerform, seeks, ideally,
      if_neg reached, if_neg admissible]
    exact ⟨_, rfl, holds⟩

theorem perform_servedExactly (holds : cs.Holds ideal) (admitted : op.Admitted) :
    cs.ServedExactly ideal op := by
  cases op with
  | write allocation buf => exact write_servedExactly holds admitted
  | writeAt allocation buf pos => exact writeAt_servedExactly holds admitted
  | read len => exact read_servedExactly holds admitted
  | readAt len pos => exact readAt_servedExactly holds admitted
  | seek offs mode => exact seek_servedExactly holds admitted

/-! ## Runs -/

/-- One call on a source, if it is defined. -/
def DataSource.step (ds : DataSource) (op : SourceOp) : Option (DataSource × Reply) :=
  (ds.perform op).toOption

/--
A source follows an array through a sequence of calls: every call is defined
and gives the reply of the array, and the two match all along.
-/
abbrev DataSource.FollowsIdeal : DataSource → IdealSource → List SourceOp → Prop :=
  Follows DataSource.step IdealSource.perform DataSource.Matches

theorem step_of_serves {ds : DataSource} (holds : ds.Holds ideal) (admitted : op.Admitted)
    (serves : ds.Serves op) :
    ∃ next, ds.step op = some (next, (ideal.perform op).2) ∧ next.Holds (ideal.perform op).1 := by
  obtain ⟨cs, auto, csHolds⟩ := holds
  obtain ⟨after, taken, afterHolds⟩ :=
    (perform_servedExactly csHolds admitted).serves (serves cs auto)
  have performed := perform_autoCore auto op
  rw [taken] at performed
  obtain ⟨next, nextTaken, nextAuto⟩ := performed
  refine ⟨next, ?_, after, nextAuto, afterHolds⟩
  rw [DataSource.step, nextTaken]
  rfl

theorem serves_of_step {ds next : DataSource} (holds : ds.Holds ideal) (admitted : op.Admitted)
    (taken : ds.step op = some (next, (ideal.perform op).2))
    (matching : next.Matches (ideal.perform op).1) : ds.Serves op := by
  obtain ⟨cs, auto, csHolds⟩ := holds
  have performed := perform_autoCore auto op
  intro other otherAuto
  obtain rfl : cs = other := Backend.autoCore.inj (auto.symm.trans otherAuto)
  refine (perform_servedExactly csHolds admitted).necessary ?_
  cases outcome : cs.autoPerform op with
  | error stop =>
    rw [outcome] at performed
    simp only [DataSource.step, performed] at taken
    cases taken
  | ok result =>
    rw [outcome] at performed
    obtain ⟨reached, reachedTaken, reachedAuto⟩ := performed
    simp only [DataSource.step, reachedTaken, Except.toOption,
      Option.some.injEq, Prod.mk.injEq] at taken
    obtain ⟨rfl, sameReply⟩ := taken
    obtain ⟨after, afterAuto, afterMatches⟩ := matching
    obtain rfl : result.1 = after := Backend.autoCore.inj (reachedAuto.symm.trans afterAuto)
    exact ⟨result.1, sameReply ▸ outcome, afterMatches⟩

/--
A source of `AG_OpenAutoCore` is the growable array through a sequence of
calls exactly when every call of the sequence is one that its memory serves.
-/
theorem autoCore_follows_iff (allocation : Allocation) {ops : List SourceOp}
    (admitted : ∀ op ∈ ops, op.Admitted) :
    (DataSource.openAutoCore allocation).FollowsIdeal
        { bytes := [], cursor := 0 } ops ↔
      EachInput DataSource.step DataSource.Serves (.openAutoCore allocation) ops := by
  refine follows_iff_eachInput DataSource.Holds ?_ ?_ ?_ ?_ admitted
  · rintro state ideal ⟨cs, auto, holds⟩
    exact ⟨cs, auto, holds.matches⟩
  · intro state ideal op
    exact step_of_serves
  · intro state ideal op next
    exact serves_of_step
  · exact ⟨_, rfl,
      { contents := rfl
        size := rfl
        cursor := rfl
        cursorInside := Nat.le_refl 0
        addressable := by decide }⟩

theorem autoCore_follows_iff_read_back : (DataSource.openAutoCore .zeroed).FollowsIdeal
      { bytes := [], cursor := 0 }
      [.write .zeroed [1, 2], .seek 0 .seekSet, .read 2] := by
  refine (autoCore_follows_iff .zeroed ?_).mpr ?_
  · simp [SourceOp.Admitted]
  · refine ⟨?_, fun written reply taken => ?_⟩
    · rintro cs auto
      cases auto
      exact .inr (.inl rfl)
    cases taken
    refine ⟨?_, fun sought reply taken => ?_⟩
    · rintro cs auto
      cases auto
      simp [CoreSource.Serves, sizeT]
    cases taken
    exact ⟨fun _ _ => trivial, fun _ _ _ => trivial⟩

theorem autoCore_miscounts_overwrite : ¬ (DataSource.openAutoCore .zeroed).FollowsIdeal
      { bytes := [], cursor := 0 }
      [.write .zeroed [1, 2, 3], .seek 0 .seekSet, .write .zeroed [9]] := by
  rintro ⟨_, written, taken, _, sought, moved, _, patched, overwritten, cs, auto, matching⟩
  cases taken
  cases moved
  cases overwritten
  cases auto
  exact absurd matching.size (by decide)

end Agar.Core
