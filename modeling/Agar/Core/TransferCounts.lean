import Agar.Core.DataSource
import Agar.Lib.Runs
import Agar.Lib.Outcome

namespace Agar.Core

open Agar.Lib

/-!
# Transfer counts

Whether `rdTotal` and `wrTotal` are the numbers of bytes that the calls on a
source have read and written.  A callback that fails before it stores a count
leaves the count of the call before it in `rdLast` or `wrLast`, and the
wrappers add that up again.
-/

/-- One call on a data source, with the allocator's answer to it. -/
inductive TransferCall where
  | read (size : Nat)
  | readP (size : Nat)
  | readAt (size : Nat) (pos : Int)
  | readAtP (size : Nat) (pos : Int)
  | write (allocation : Allocation) (buf : List UInt8)
  | writeP (allocation : Allocation) (buf : List UInt8)
  | writeAt (allocation : Allocation) (buf : List UInt8) (pos : Int)
  | writeAtP (allocation : Allocation) (buf : List UInt8) (pos : Int)
  | seek (offs : Int) (mode : SeekMode)

/-! ## Callbacks that fail before they count -/

namespace Backend

/-- The `read` callback fails and stores no count. -/
def RefusesRead (size : Nat) : Backend → Prop
  | .file _ => False
  | .core cs | .constCore cs | .autoCore cs => cs.size < sizeT (cs.offs + size)
  | .netSocket sock => sock.incoming.head?.join = none

end Backend

/--
A callback stores no count exactly when it refuses, and a count that it stores
is the number of bytes it delivers.
-/
structure Transfer.Delivers (transfer : Transfer) (refused : Prop) : Prop where
  uncounted : transfer.count = none ↔ refused
  counted : transfer.bytes.length = transfer.count.getD 0

variable {start : Int}

theorem length_memRead {data bytes : List UInt8} {len : Nat}
    (copied : memRead data start len = .ok bytes) : bytes.length = len := by
  obtain ⟨inside, rfl⟩ := memRead_eq_ok.mp copied
  simp only [List.length_take, List.length_drop]
  omega

variable {size : Nat} {transfer : Transfer}

private theorem delivers_memRead {cs next after : CoreSource} {reached : Int}
    (returned : (if sizeT reached > cs.size then
          (.ok (.failed, cs) : Except Stop (Transfer × CoreSource))
        else do
          let bytes ← memRead cs.data start size
          return ({ status := 0, count := some size, bytes := bytes }, next)) =
        .ok (transfer, after)) : transfer.Delivers (cs.size < sizeT reached) := by
  split at returned
  case isTrue beyond =>
    cases returned
    exact ⟨iff_of_true rfl beyond, rfl⟩
  case isFalse within =>
    obtain ⟨bytes, copied, stored⟩ := bind_eq_ok.mp returned
    cases stored
    exact ⟨iff_of_false nofun within, length_memRead copied⟩

theorem fileRead_delivers (file : FileSource) (size : Nat) :
    (fileRead file size).1.Delivers False :=
  ⟨iff_of_false nofun id, rfl⟩

variable {backend after : Backend}

theorem read_delivers (returned : backend.read size = .ok (transfer, after)) :
    transfer.Delivers (backend.RefusesRead size) := by
  cases backend with
  | file fs =>
    cases returned
    exact fileRead_delivers fs size
  | core cs | constCore cs | autoCore cs =>
    obtain ⟨⟨moved, next⟩, read, stored⟩ := bind_eq_ok.mp returned
    cases stored
    exact delivers_memRead read
  | netSocket sock =>
    cases returned
    cases answer : sock.incoming.head?.join with
    | none => exact ⟨iff_of_true rfl answer, rfl⟩
    | some received =>
      refine ⟨iff_of_false nofun ?_, rfl⟩
      simp only [Backend.RefusesRead, answer]
      nofun

variable {buf : List UInt8}

namespace DataSource

/-- The source after a call. -/
def call (ds : DataSource) : TransferCall → Except Stop DataSource
  | .read size => do
      let (_, _, after) ← ds.read size
      return after
  | .readP size => do
      let (_, _, after) ← ds.readP size
      return after
  | .readAt size pos => do
      let (_, _, after) ← ds.readAt size pos
      return after
  | .readAtP size pos => do
      let (_, _, after) ← ds.readAtP size pos
      return after
  | .write allocation buf => do
      let (_, after) ← { ds with allocation := allocation }.write buf
      return after
  | .writeP allocation buf => do
      let (_, after) ← { ds with allocation := allocation }.writeP buf
      return after
  | .writeAt allocation buf pos => do
      let (_, after) ← { ds with allocation := allocation }.writeAt buf pos
      return after
  | .writeAtP allocation buf pos => do
      let (_, after) ← { ds with allocation := allocation }.writeAtP buf pos
      return after
  | .seek offs mode => return (ds.seek offs mode).2

/-- How many bytes a call reads from the backend, and how many it writes. -/
def moved (ds : DataSource) : TransferCall → Except Stop (Nat × Nat)
  | .read size | .readP size => do
      let (transfer, _) ← ds.backend.read size
      return (transfer.bytes.length, 0)
  | .readAt size pos | .readAtP size pos => do
      let (transfer, _) ← ds.backend.readAt size pos
      return (transfer.bytes.length, 0)
  | .write allocation buf | .writeP allocation buf => do
      let (transfer, _) ← ds.backend.write allocation buf
      return (0, transfer.count.getD 0)
  | .writeAt allocation buf pos | .writeAtP allocation buf pos => do
      let (transfer, _) ← ds.backend.writeAt allocation buf pos
      return (0, transfer.count.getD 0)
  | .seek _ _ => return (0, 0)

end DataSource

/-- A source with the numbers of bytes read and written so far. -/
structure Audit where
  source : DataSource
  read : Nat
  written : Nat

namespace Audit

/-- A source as it is opened. -/
def opened (allocation : Allocation) (backend : Backend) : Audit where
  source := .init allocation backend
  read := 0
  written := 0

def step (audit : Audit) (call : TransferCall) : Option Audit :=
  match audit.source.call call, audit.source.moved call with
  | .ok after, .ok (read, written) =>
    some
      { source := after
        read := audit.read + read
        written := audit.written + written }
  | _, _ => none

end Audit

end Agar.Core
