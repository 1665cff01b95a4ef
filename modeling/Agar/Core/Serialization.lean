import Agar.Core.SourceSegments
import Agar.Lib.Bytes
import Agar.Lib.CString

namespace Agar.Core

open Agar.Lib

/-!
# Serialization

Integers, floating point numbers and strings on a data source.  In debug mode
a type code precedes every value that is written, and is checked when it is
read.

The machine is little-endian.  A `float`, `double` or `long double` is the
bytes that represent it, and has the byte order of the source on the source.
-/

/-- `AG_SOURCE_UINT8` -/
def sourceUint8 : UInt32 := 0x41470001

/-- `AG_SOURCE_UINT32` -/
def sourceUint32 : UInt32 := 0x41470005

/-- `AG_SOURCE_STRING` -/
def sourceString : UInt32 := 0x4147000c

/-- `AG_LOAD_STRING_MAX` -/
def loadStringMax : Nat := 32767

namespace ByteOrder

/-- Put the bytes of a little-endian machine in order: `AG_SwapBE`, `AG_SwapLE` -/
def swap (bytes : List UInt8) : ByteOrder → List UInt8
  | .bigEndian => bytes.reverse
  | .littleEndian => bytes

/-- The bytes of an integer of a given width. -/
def encode (order : ByteOrder) (width value : Nat) : List UInt8 :=
  order.swap (Lib.littleEndian width value)

/-- The integer that some bytes encode. -/
def decode (order : ByteOrder) (bytes : List UInt8) : Nat := ofLittleEndian (order.swap bytes)

variable (order : ByteOrder)

@[simp] theorem length_swap (bytes : List UInt8) : (order.swap bytes).length = bytes.length := by
  cases order <;> simp [swap]

@[simp] theorem swap_swap (bytes : List UInt8) : order.swap (order.swap bytes) = bytes := by
  cases order <;> simp [swap]

@[simp] theorem length_encode (width value : Nat) : (order.encode width value).length = width := by
  rw [encode, length_swap, length_littleEndian]

@[simp] theorem decode_encode (width value : Nat) :
    order.decode (order.encode width value) = value % 256 ^ width := by
  rw [decode, encode, swap_swap, ofLittleEndian_littleEndian]

end ByteOrder

namespace DataSource

/-! ## Type codes -/

/-- `AG_WriteTypeCode` -/
def writeTypeCode (ds : DataSource) (type : UInt32) : Except Stop DataSource := do
  let (rv, ds) ← ds.write (ds.byteOrder.encode 4 type.toNat)
  if rv ≠ 0 then .error .fatal else return ds

/-- `AG_CheckTypeCode` -/
def checkTypeCode (ds : DataSource) (type : UInt32) : Except Stop (Int × DataSource) := do
  let (rv, bytes, ds) ← ds.read 4
  if rv ≠ 0 then return (-1, ds)
  else return (if ds.byteOrder.decode bytes = type.toNat then 0 else -1, ds)

/-- `!(ds->debug && AG_CheckTypeCode(ds, type) == -1)` -/
def typeMatches (ds : DataSource) (type : UInt32) : Except Stop (Bool × DataSource) :=
  if ds.debug then do
    let (rv, ds) ← ds.checkTypeCode type
    return (rv ≠ -1, ds)
  else return (true, ds)

/-- `if (ds->debug) { AG_WriteTypeCode(ds, type); }` -/
def writeType (ds : DataSource) (type : UInt32) : Except Stop DataSource :=
  if ds.debug then ds.writeTypeCode type else return ds

/-! ## Integers and floating point numbers -/

/-- The common body of the `AG_WriteFoo` functions. -/
def writeScalar (ds : DataSource) (type : UInt32)
    (bytes : List UInt8) : Except Stop DataSource := do
  let ds ← ds.writeType type
  let (rv, ds) ← ds.write bytes
  if rv ≠ 0 then .error .fatal else return ds

/-- The common body of the `AG_WriteFoov` functions. -/
def writeScalarV (ds : DataSource) (type : UInt32)
    (bytes : List UInt8) : Except Stop (Int × DataSource) := do
  let (rv, ds) ←
    if ds.debug then ds.write (ds.byteOrder.encode 4 type.toNat) else pure (0, ds)
  if rv = -1 then return (-1, ds) else ds.write bytes

/--
The common body of the `AG_ReadFoo` functions, which return 0 where the type
code differs.
-/
def readScalar (ds : DataSource) (type : UInt32)
    (size : Nat) : Except Stop (Option (List UInt8) × DataSource) := do
  let (matching, ds) ← ds.typeMatches type
  if matching then do
    let (rv, bytes, ds) ← ds.read size
    if rv ≠ 0 then .error .fatal else return (some bytes, ds)
  else return (none, ds)

/-- The common body of the `AG_ReadFoov` functions: `none` where they return -1 -/
def readScalarV (ds : DataSource) (type : UInt32)
    (size : Nat) : Except Stop (Option (List UInt8) × DataSource) := do
  let (matching, ds) ← ds.typeMatches type
  if matching then do
    let (rv, bytes, ds) ← ds.read size
    return (if rv ≠ 0 then none else some bytes, ds)
  else return (none, ds)

def writeUint8 (ds : DataSource) (value : UInt8) : Except Stop DataSource :=
  ds.writeScalar sourceUint8 [value]

def writeUint32 (ds : DataSource) (value : UInt32) : Except Stop DataSource :=
  ds.writeScalar sourceUint32 (ds.byteOrder.encode 4 value.toNat)

def writeUint32v (ds : DataSource) (value : UInt32) : Except Stop (Int × DataSource) :=
  ds.writeScalarV sourceUint32 (ds.byteOrder.encode 4 value.toNat)

/-- The integer that a read function of the `AG_ReadFoo` family returns. -/
def readUint (ds : DataSource) (type : UInt32) (width : Nat) : Except Stop (Nat × DataSource) := do
  let (bytes, after) ← ds.readScalar type width
  return (bytes.elim 0 ds.byteOrder.decode, after)

def readUint8 (ds : DataSource) : Except Stop (UInt8 × DataSource) := do
  let (value, ds) ← ds.readUint sourceUint8 1
  return (UInt8.ofNat value, ds)

def readUint32 (ds : DataSource) : Except Stop (UInt32 × DataSource) := do
  let (value, ds) ← ds.readUint sourceUint32 4
  return (UInt32.ofNat value, ds)

/-- `AG_ReadUint32v`: `none` where it returns -1 -/
def readUint32v (ds : DataSource) : Except Stop (Option UInt32 × DataSource) := do
  let (bytes, after) ← ds.readScalarV sourceUint32 4
  return (bytes.map fun read => UInt32.ofNat (ds.byteOrder.decode read), after)

/-! ## Strings -/

/-- A `write` callback whose status alone is checked. -/
def writeRaw (ds : DataSource) (buf : List UInt8) : Except Stop DataSource := do
  let (rv, ds) ← ds.writeP buf
  if rv ≠ 0 then .error .fatal else return ds

/-- A `read` callback whose status and count are checked. -/
def readRaw (ds : DataSource) (size : Nat) : Except Stop (List UInt8 × DataSource) := do
  let (rv, bytes, ds) ← ds.readP size
  if rv ≠ 0 then .error .fatal
  else if ds.rdLast < size then .error .fatal
  else return (bytes, ds)

/-- `AG_WriteString` of a string, with `[]` also for a `NULL` pointer -/
def writeString (ds : DataSource) (s : List UInt8) : Except Stop DataSource := do
  let ds ← ds.writeType sourceString
  let ds ← ds.writeRaw (ds.byteOrder.encode 4 s.length)
  if s = [] then return ds else ds.writeRaw s

/--
The start of `AG_ReadStringLen` and `AG_ReadStringLenv`: the length of the
string, within the limit
-/
def readStringHeader (ds : DataSource) (maxlen : Nat) : Except Stop (Nat × DataSource) := do
  let (matching, ds) ← ds.typeMatches sourceString
  if ¬ matching then .error .fatal
  else
    match ← ds.readUint32v with
    | (none, _) => .error .fatal
    | (some len, ds) =>
      if len.toNat > maxlen % 2 ^ 32 then .error .fatal else return (len.toNat, ds)

/-- Read a string of a given length into a buffer and terminate it. -/
def readStringBody (ds : DataSource) (len : Nat)
    (s : List UInt8) : Except Stop (List UInt8 × DataSource) := do
  let (rv, bytes, ds) ← ds.read len
  if rv ≠ 0 then .error .fatal else return (splice s 0 (bytes ++ [0]), ds)

/--
`AG_ReadStringLen`, with the allocator's answer: the buffer that it allocates,
which ends in the terminator
-/
def readStringLen (ds : DataSource) (allocation : Allocation)
    (maxlen : Nat) : Except Stop (List UInt8 × DataSource) := do
  let (len, ds) ← ds.readStringHeader maxlen
  match tryRealloc allocation [] (len + 1) with
  | none => .error .fatal
  | some s => if len > 0 then ds.readStringBody len s else return (splice s 0 [0], ds)

/--
`AG_ReadStringLenv`, with the allocator's answer: the status, the buffer that
`*s` then points to, and what is stored through `newLen`
-/
def readStringLenv (ds : DataSource) (allocation : Allocation) (maxlen : Nat)
    (s : Option (List UInt8)) : Except Stop (Int × List UInt8 × Nat × DataSource) := do
  let (len, ds) ← ds.readStringHeader maxlen
  match tryRealloc allocation (s.getD []) (len + 1) with
  | none => .error .fatal
  | some sp =>
    if len > 0 then do
      let (sp, ds) ← ds.readStringBody len sp
      return (0, sp, len, ds)
    else
      -- the terminator is stored in the other branch only
      return (0, sp, 0, ds)

/-- `AG_ReadString` -/
def readString (ds : DataSource)
    (allocation : Allocation) : Except Stop (List UInt8 × DataSource) :=
  ds.readStringLen allocation loadStringMax

/--
`AG_CopyString` into a buffer of `dstSize` bytes: the length of the string,
one more where it is truncated, and what is stored in front of the terminator
-/
def copyString (ds : DataSource) (dstSize : Nat) : Except Stop (Nat × List UInt8 × DataSource) := do
  let (matching, ds) ← ds.typeMatches sourceString
  if ¬ matching then .error .fatal
  else do
    let (header, ds) ← ds.readRaw 4
    let len := ds.byteOrder.decode header
    let (rvLen, len) :=
      if len > (dstSize - 1) % 2 ^ 32 then (len + 1, (dstSize - 1) % 2 ^ 32) else (len, len)
    if len = 0 then return (rvLen, [], ds)
    else do
      let (bytes, ds) ← ds.readRaw len
      return (rvLen, bytes, ds)

end DataSource

end Agar.Core
