import Agar.Lib.ByteArray

namespace Agar.Core

open Agar.Lib

/-!
# Data sources

An `AG_DataSource` is a record of settings and counters over a backend: a
file, a fixed memory region, a read-only memory region, memory that is
reallocated as it is written, or a network socket.  The callbacks of each backend come first, with
the conversions between `size_t` and `off_t` that their bounds checks make;
the operations of the interface dispatch on the backend and keep the counters.

An access outside the allocated memory has no defined result, and a raised
data source exception ends the program (`ErrorDefault` calls
`AG_FatalError`), so an operation gives either a result or a `Stop`.
-/

/-- Why a computation gives no result. -/
inductive Stop where
  /-- Memory was accessed outside its bounds. -/
  | undefined
  /-- `AG_FatalError` was called. -/
  | fatal
  /-- A loop was given too few turns. -/
  | outOfFuel
  deriving Repr, DecidableEq

/-- A value of C type `size_t`. -/
def sizeT (value : Int) : Nat := (value % 2 ^ 64).toNat

/-- A value of C type `off_t`. -/
def offT (value : Int) : Int := value.bmod (2 ^ 64)

/-- `enum ag_byte_order` -/
inductive ByteOrder where
  | bigEndian
  | littleEndian
  deriving Repr, DecidableEq

/-- `enum ag_seek_mode` -/
inductive SeekMode where
  | seekSet
  | seekCur
  | seekEnd
  deriving Repr, DecidableEq

/--
What the allocator answers to one request: whether it grants it, and what the
cells that it adds hold.
-/
structure Allocation where
  granted : Bool
  fresh : Nat → UInt8

/-- An allocator that grants every request with zeroed cells. -/
def Allocation.zeroed : Allocation where
  granted := true
  fresh _ := 0

/-- No object is larger than `PTRDIFF_MAX` bytes. -/
def Allocation.grants (allocation : Allocation) (size : Nat) : Bool :=
  allocation.granted && decide (size < 2 ^ 63)

/-- `AG_TryRealloc` -/
def tryRealloc (allocation : Allocation) (data : List UInt8) (size : Nat) : Option (List UInt8) :=
  if allocation.grants size then some (resize allocation.fresh size data) else none

theorem tryRealloc_eq_some {allocation : Allocation} {data memory : List UInt8} {size : Nat} :
    tryRealloc allocation data size = some memory ↔ allocation.grants size = true ∧
        resize allocation.fresh size data = memory := by
  unfold tryRealloc
  split
  case isTrue granted => simp [granted]
  case isFalse refused => simp [refused]

theorem grants_lt {allocation : Allocation} {size : Nat} (granted : allocation.grants size = true) :
    size < 2 ^ 63 := by
  simp only [Allocation.grants, Bool.and_eq_true, decide_eq_true_eq] at granted
  exact granted.2

theorem tryRealloc_eq_none {allocation : Allocation} {data : List UInt8} {size : Nat} :
    tryRealloc allocation data size = none ↔ allocation.grants size = false := by
  unfold tryRealloc
  split
  case isTrue granted => simp [granted]
  case isFalse refused => simpa using refused

/-- Copy `len` bytes out of the memory at `data`. -/
def memRead (data : List UInt8) (start : Int) (len : Nat) : Except Stop (List UInt8) :=
  if 0 ≤ start ∧ start + len ≤ data.length then .ok ((data.drop start.toNat).take len)
  else .error .undefined

/-- Copy bytes into the memory at `data`. -/
def memWrite (data : List UInt8) (start : Int) (bytes : List UInt8) : Except Stop (List UInt8) :=
  if 0 ≤ start ∧ start + bytes.length ≤ data.length then .ok (splice data start.toNat bytes)
  else .error .undefined

theorem memRead_eq_ok {data bytes : List UInt8} {start : Int} {len : Nat} :
    memRead data start len = .ok bytes ↔ (0 ≤ start ∧ start + len ≤ data.length) ∧
        (data.drop start.toNat).take len = bytes := by
  unfold memRead
  split
  case isTrue inside => simp [inside]
  case isFalse outside => simp [outside]

theorem memWrite_eq_ok {data stored bytes : List UInt8} {start : Int} :
    memWrite data start bytes = .ok stored ↔ (0 ≤ start ∧ start + bytes.length ≤ data.length) ∧
        splice data start.toNat bytes = stored := by
  unfold memWrite
  split
  case isTrue inside => simp [inside]
  case isFalse outside => simp [outside]

theorem memWrite_inside {data bytes : List UInt8} {start : Nat}
    (inside : start + bytes.length ≤ data.length) :
    memWrite data start bytes = .ok (splice data start bytes) := by
  rw [memWrite, if_pos ⟨by omega, by omega⟩]
  rfl

theorem memRead_inside {data : List UInt8} {start len : Nat} (inside : start + len ≤ data.length) :
    memRead data start len = .ok ((data.drop start).take len) := by
  rw [memRead, if_pos ⟨by omega, by omega⟩]
  rfl

/--
What a read or write callback reports: its return value, what it stored
through its last argument (if it did), and the bytes it delivered.
-/
structure Transfer where
  status : Int
  count : Option Nat
  bytes : List UInt8
  deriving Repr, DecidableEq

/-- A callback that fails before it stores a count. -/
def Transfer.failed : Transfer := { status := -1, count := none, bytes := [] }

/-! ## Memory operations -/

/-- `struct ag_core_source`, with the memory allocated behind `cs->data` -/
structure CoreSource where
  data : List UInt8
  size : Nat
  offs : Int
  deriving Repr, DecidableEq

def coreRead (cs : CoreSource) (len : Nat) : Except Stop (Transfer × CoreSource) :=
  if sizeT (cs.offs + len) > cs.size then .ok (.failed, cs)
  else do
    let bytes ← memRead cs.data cs.offs len
    return ({ status := 0, count := some len, bytes := bytes },
      { cs with offs := offT (cs.offs + len) })

def coreReadAt (cs : CoreSource) (len : Nat) (pos : Int) : Except Stop (Transfer × CoreSource) :=
  if sizeT (pos + len) > cs.size then .ok (.failed, cs)
  else do
    let bytes ← memRead cs.data pos len
    return ({ status := 0, count := some len, bytes := bytes }, cs)

def coreWrite (cs : CoreSource) (buf : List UInt8) : Except Stop (Transfer × CoreSource) :=
  if sizeT (cs.offs + buf.length) > cs.size then .ok (.failed, cs)
  else do
    let data ← memWrite cs.data cs.offs buf
    return ({ status := 0, count := some buf.length, bytes := [] },
      { cs with data := data, offs := offT (cs.offs + buf.length) })

def coreAutoWrite (allocation : Allocation) (cs : CoreSource)
    (buf : List UInt8) : Except Stop (Transfer × CoreSource) :=
  let needed := sizeT (cs.offs + buf.length)
  let realloced :=
    if needed > cs.size then tryRealloc allocation cs.data needed else some cs.data
  match realloced with
  | none => .ok (.failed, cs)
  | some dataNew => do
      let data ← memWrite dataNew cs.offs buf
      return ({ status := 0, count := some buf.length, bytes := [] },
        { data := data
          size := sizeT (cs.size + buf.length)
          offs := offT (cs.offs + buf.length) })

def coreWriteAt (cs : CoreSource) (buf : List UInt8)
    (pos : Int) : Except Stop (Transfer × CoreSource) :=
  if sizeT (pos + buf.length) > cs.size then .ok (.failed, cs)
  else do
    let data ← memWrite cs.data pos buf
    return ({ status := 0, count := some buf.length, bytes := [] }, { cs with data := data })

def coreAutoWriteAt (allocation : Allocation) (cs : CoreSource) (buf : List UInt8)
    (pos : Int) : Except Stop (Transfer × CoreSource) :=
  if pos < 0 then .ok (.failed, cs)
  else
    let needed := sizeT (pos + buf.length)
    let realloced :=
      if needed > cs.size then
        (tryRealloc allocation cs.data needed).map
          fun dataNew => { cs with data := dataNew, size := needed }
      else some cs
    match realloced with
    | none => .ok (.failed, cs)
    | some grown => do
        let data ← memWrite grown.data pos buf
        return ({ status := 0, count := some buf.length, bytes := [] }, { grown with data := data })

def coreTell (cs : CoreSource) : Int := cs.offs

def coreSeek (cs : CoreSource) (offs : Int) (mode : SeekMode) : Int × CoreSource :=
  let nOffs :=
    match mode with
    | .seekSet => offs
    | .seekCur => offT (cs.offs + offs)
    | .seekEnd => offT (cs.size - offs)
  if nOffs < 0 ∨ sizeT nOffs ≥ cs.size then (-1, cs) else (0, { cs with offs := nOffs })

/-! ## File operations -/

/--
A regular file opened for update, seen through its `FILE`.  The device may
transfer `faultAfter` more bytes before it reports an error, if it is set.
-/
structure FileSource where
  contents : List UInt8
  pos : Nat
  faultAfter : Option Nat
  deriving Repr, DecidableEq

/-- How much of a transfer of `len` bytes the device completes. -/
def FileSource.completes (file : FileSource) (len : Nat) : Nat :=
  match file.faultAfter with
  | none => len
  | some budget => min len budget

/-- The device after a transfer of `len` bytes. -/
def FileSource.spend (file : FileSource) (len : Nat) : FileSource :=
  { file with faultAfter := file.faultAfter.map (· - len) }

/-- `fread`: the bytes read, whether `ferror` is then set, and the file. -/
def fread (file : FileSource) (len : Nat) : List UInt8 × Bool × FileSource :=
  let available := min len (file.contents.length - file.pos)
  let done := file.completes available
  ((file.contents.drop file.pos).take done, decide (done < available),
    { file.spend done with pos := file.pos + done })

/-- `fwrite`: the count written, whether `ferror` is then set, and the file. -/
def fwrite (file : FileSource) (buf : List UInt8) : Nat × Bool × FileSource :=
  let done := file.completes buf.length
  (done, decide (done < buf.length),
    { file.spend done with
      contents := store (fun _ => 0) file.contents file.pos (buf.take done)
      pos := file.pos + done })

/-- `fseek` on a regular file, which may move beyond its end. -/
def fseek (file : FileSource) (offs : Int) (mode : SeekMode) : Option FileSource :=
  let target :=
    match mode with
    | .seekSet => offs
    | .seekCur => file.pos + offs
    | .seekEnd => file.contents.length + offs
  if 0 ≤ target ∧ target < 2 ^ 63 then some { file with pos := target.toNat } else none

def fileRead (file : FileSource) (size : Nat) : Transfer × FileSource :=
  let (bytes, failed, after) := fread file size
  ({ status := if failed then -1 else 0
     count := some bytes.length
     bytes := bytes }, after)

def fileReadAt (file : FileSource) (size : Nat) (pos : Int) : Transfer × FileSource :=
  match fseek file pos .seekSet with
  | none => (.failed, file)
  | some moved =>
    let (transfer, after) := fileRead moved size
    (transfer, { after with pos := file.pos })

def fileWrite (file : FileSource) (buf : List UInt8) : Transfer × FileSource :=
  let (done, failed, after) := fwrite file buf
  ({ status := if failed then -1 else 0
     count := some done
     bytes := [] }, after)

def fileWriteAt (file : FileSource) (buf : List UInt8) (pos : Int) : Transfer × FileSource :=
  match fseek file pos .seekSet with
  | none => (.failed, file)
  | some moved =>
    let (transfer, after) := fileWrite moved buf
    (transfer, { after with pos := file.pos })

def fileTell (file : FileSource) : Int := file.pos

def fileSeek (file : FileSource) (offs : Int) (mode : SeekMode) : Int × FileSource :=
  match fseek file offs mode with
  | none => (-1, file)
  | some moved => (0, moved)

/-! ## Network socket operations -/

/--
An `AG_NetSocket` seen through `read(2)` and `write(2)`: the bytes that each
read to come delivers and how many bytes each write to come accepts, with
`none` for a call that fails.
-/
structure NetSocket where
  incoming : List (Option (List UInt8))
  outgoing : List (Option Nat)
  deriving Repr, DecidableEq

def netSocketRead (sock : NetSocket) (size : Nat) : Transfer × NetSocket :=
  let after := { sock with incoming := sock.incoming.tail }
  match sock.incoming.head?.join with
  | none => (.failed, after)
  | some received =>
    ({ status := 0
       count := some (received.take size).length
       bytes := received.take size }, after)

def netSocketWrite (sock : NetSocket) (buf : List UInt8) : Transfer × NetSocket :=
  let after := { sock with outgoing := sock.outgoing.tail }
  match sock.outgoing.head?.join with
  | none => (.failed, after)
  | some accepted =>
    ({ status := 0
       count := some (min accepted buf.length)
       bytes := [] }, after)

/-! ## The interface -/

/-- Which open function made the source, with the source's own state. -/
inductive Backend where
  | file (file : FileSource)
  | core (cs : CoreSource)
  | constCore (cs : CoreSource)
  | autoCore (cs : CoreSource)
  | netSocket (sock : NetSocket)
  deriving Repr, DecidableEq

namespace Backend

/-- The `read` callback. -/
def read (size : Nat) : Backend → Except Stop (Transfer × Backend)
  | .file fs =>
    let (transfer, after) := fileRead fs size
    .ok (transfer, .file after)
  | .core cs => do
      let (transfer, after) ← coreRead cs size
      return (transfer, .core after)
  | .constCore cs => do
      let (transfer, after) ← coreRead cs size
      return (transfer, .constCore after)
  | .autoCore cs => do
      let (transfer, after) ← coreRead cs size
      return (transfer, .autoCore after)
  | .netSocket sock =>
    let (transfer, after) := netSocketRead sock size
    .ok (transfer, .netSocket after)

/-- The `read_at` callback; `ReadAtNotSup` for a network socket. -/
def readAt (size : Nat) (pos : Int) : Backend → Except Stop (Transfer × Backend)
  | .file fs =>
    let (transfer, after) := fileReadAt fs size pos
    .ok (transfer, .file after)
  | .core cs => do
      let (transfer, after) ← coreReadAt cs size pos
      return (transfer, .core after)
  | .constCore cs => do
      let (transfer, after) ← coreReadAt cs size pos
      return (transfer, .constCore after)
  | .autoCore cs => do
      let (transfer, after) ← coreReadAt cs size pos
      return (transfer, .autoCore after)
  | .netSocket sock => .ok (.failed, .netSocket sock)

/-- The `write` callback; `WriteNotSup` for read-only memory. -/
def write (allocation : Allocation) (buf : List UInt8) : Backend → Except Stop (Transfer × Backend)
  | .file fs =>
    let (transfer, after) := fileWrite fs buf
    .ok (transfer, .file after)
  | .core cs => do
      let (transfer, after) ← coreWrite cs buf
      return (transfer, .core after)
  | .constCore cs => .ok (.failed, .constCore cs)
  | .autoCore cs => do
      let (transfer, after) ← coreAutoWrite allocation cs buf
      return (transfer, .autoCore after)
  | .netSocket sock =>
    let (transfer, after) := netSocketWrite sock buf
    .ok (transfer, .netSocket after)

/--
The `write_at` callback; `WriteAtNotSup` for read-only memory and for a
network socket.
-/
def writeAt (allocation : Allocation) (buf : List UInt8)
    (pos : Int) : Backend → Except Stop (Transfer × Backend)
  | .file fs =>
    let (transfer, after) := fileWriteAt fs buf pos
    .ok (transfer, .file after)
  | .core cs => do
      let (transfer, after) ← coreWriteAt cs buf pos
      return (transfer, .core after)
  | .constCore cs => .ok (.failed, .constCore cs)
  | .autoCore cs => do
      let (transfer, after) ← coreAutoWriteAt allocation cs buf pos
      return (transfer, .autoCore after)
  | .netSocket sock => .ok (.failed, .netSocket sock)

/-- The `tell` callback; `TellNotSup` for a network socket. -/
def tell : Backend → Int
  | .file fs => fileTell fs
  | .core cs => coreTell cs
  | .constCore cs => coreTell cs
  | .autoCore cs => coreTell cs
  | .netSocket _ => 0

/-- The `seek` callback; `SeekNotSup` for a network socket. -/
def seek (offs : Int) (mode : SeekMode) : Backend → Int × Backend
  | .file fs =>
    let (status, after) := fileSeek fs offs mode
    (status, .file after)
  | .core cs =>
    let (status, after) := coreSeek cs offs mode
    (status, .core after)
  | .constCore cs =>
    let (status, after) := coreSeek cs offs mode
    (status, .constCore after)
  | .autoCore cs =>
    let (status, after) := coreSeek cs offs mode
    (status, .autoCore after)
  | .netSocket sock => (-1, .netSocket sock)

end Backend

/--
`struct ag_data_source`.  The field `allocation` is the environment's answer
to the reallocations that the source asks for.
-/
structure DataSource where
  debug : Bool
  byteOrder : ByteOrder
  wrLast : Nat
  rdLast : Nat
  wrTotal : Nat
  rdTotal : Nat
  allocation : Allocation
  backend : Backend

namespace DataSource

/-- `AG_DataSourceInit` -/
def init (allocation : Allocation) (backend : Backend) : DataSource where
  debug := false
  byteOrder := .bigEndian
  wrLast := 0
  rdLast := 0
  wrTotal := 0
  rdTotal := 0
  allocation := allocation
  backend := backend

/-- `AG_OpenFileHandle`, and `AG_OpenFile` once the file is open -/
def openFileHandle (allocation : Allocation) (file : FileSource) : DataSource :=
  init allocation (.file file)

def openCore (allocation : Allocation) (data : List UInt8) : DataSource :=
  init allocation (.core { data := data, size := data.length, offs := 0 })

def openConstCore (allocation : Allocation) (data : List UInt8) : DataSource :=
  init allocation (.constCore { data := data, size := data.length, offs := 0 })

def openAutoCore (allocation : Allocation) : DataSource :=
  init allocation (.autoCore { data := [], size := 0, offs := 0 })

def setSourceDebug (ds : DataSource) (enable : Bool) : DataSource := { ds with debug := enable }

/-- Record what a read callback stored in `rdLast`, and add it up. -/
def countRead (ds : DataSource) (transfer : Transfer) (backend : Backend) : DataSource :=
  let rdLast := transfer.count.getD ds.rdLast
  { ds with rdLast := rdLast, rdTotal := ds.rdTotal + rdLast, backend := backend }

/-- Record what a write callback stored in `wrLast`, and add it up. -/
def countWrite (ds : DataSource) (transfer : Transfer) (backend : Backend) : DataSource :=
  let wrLast := transfer.count.getD ds.wrLast
  { ds with wrLast := wrLast, wrTotal := ds.wrTotal + wrLast, backend := backend }

/-- `AG_ReadP` -/
def readP (ds : DataSource) (size : Nat) : Except Stop (Int × List UInt8 × DataSource) := do
  let (transfer, backend) ← ds.backend.read size
  return (transfer.status, transfer.bytes, ds.countRead transfer backend)

/-- `AG_Read` -/
def read (ds : DataSource) (size : Nat) : Except Stop (Int × List UInt8 × DataSource) := do
  let (status, bytes, after) ← ds.readP size
  return (if after.rdLast < size then -1 else status, bytes, after)

/-- `AG_ReadAtP` -/
def readAtP (ds : DataSource) (size : Nat)
    (pos : Int) : Except Stop (Int × List UInt8 × DataSource) := do
  let (transfer, backend) ← ds.backend.readAt size pos
  return (transfer.status, transfer.bytes, ds.countRead transfer backend)

/-- `AG_ReadAt` -/
def readAt (ds : DataSource) (size : Nat)
    (pos : Int) : Except Stop (Int × List UInt8 × DataSource) := do
  let (status, bytes, after) ← ds.readAtP size pos
  return (if after.rdLast < size then -1 else status, bytes, after)

/-- `AG_WriteP` -/
def writeP (ds : DataSource) (buf : List UInt8) : Except Stop (Int × DataSource) := do
  let (transfer, backend) ← ds.backend.write ds.allocation buf
  return (transfer.status, ds.countWrite transfer backend)

/-- `AG_Write` -/
def write (ds : DataSource) (buf : List UInt8) : Except Stop (Int × DataSource) := do
  let (status, after) ← ds.writeP buf
  return (if after.wrLast < buf.length then -1 else status, after)

/-- `AG_WriteAtP` -/
def writeAtP (ds : DataSource) (buf : List UInt8) (pos : Int) : Except Stop (Int × DataSource) := do
  let (transfer, backend) ← ds.backend.writeAt ds.allocation buf pos
  return (transfer.status, ds.countWrite transfer backend)

/-- `AG_WriteAt` -/
def writeAt (ds : DataSource) (buf : List UInt8) (pos : Int) : Except Stop (Int × DataSource) := do
  let (status, after) ← ds.writeAtP buf pos
  return (if after.wrLast < buf.length then -1 else status, after)

/-- `AG_Tell` -/
def tell (ds : DataSource) : Int := ds.backend.tell

/-- `AG_Seek` -/
def seek (ds : DataSource) (pos : Int) (mode : SeekMode) : Int × DataSource :=
  let (status, backend) := ds.backend.seek pos mode
  (status, { ds with backend := backend })

end DataSource

end Agar.Core
