import Agar.Core.Variable
import Agar.Lib.Bytes
import Agar.Lib.Outcome
import Agar.Lib.OwnedHeap
import Agar.Lib.Runs
import Agar.Lib.UpdateFirst

namespace Agar.Core

open Agar.Lib

/-!
# Setting and binding variables

What the functions that set, bind and unset the variables of an object do to
the type and the union of a variable, and to the memory that they refer to.
Here a string is the address of a block of memory, which is freed with the
variable that owns it.  Freeing what was not allocated, or writing outside a
block, has no defined result.

The memory also records which strings were given to variables of type
`AG_VARIABLE_STRING` and not freed since, and the state which target a
variable was last bound to; no function reads these.
-/

/-- An address; `NULL` is 0 -/
abbrev Address := Nat

/-- A block of memory, and whether `malloc` returned it -/
structure Block where
  bytes : List UInt8
  malloced : Bool
  deriving DecidableEq

/-- The memory, and the strings that variables were given and not freed. -/
structure VariableMemory where
  heap : Heap Block
  strings : List Address

/-- The members of `union ag_variable_data` -/
inductive UnionMember where
  | p
  | Cp
  | s
  | Cs
  | i
  | u
  | flt
  | dbl
  | ldbl
  | u8
  | s8
  | u16
  | s16
  | u32
  | s32
  | u64
  | s64
  deriving Repr, DecidableEq

/--
`union ag_variable_data`: the member stored last and its value.  Floating
point numbers are the bytes that represent them.
-/
inductive VariableData where
  | p (address : Address)
  | Cp (address : Address)
  | s (address : Address)
  | Cs (address : Address)
  | i (value : Int32)
  | u (value : UInt32)
  | flt (value : UInt32)
  | dbl (value : UInt64)
  | ldbl (value : Vector UInt8 16)
  | u8 (value : UInt8)
  | s8 (value : Int8)
  | u16 (value : UInt16)
  | s16 (value : Int16)
  | u32 (value : UInt32)
  | s32 (value : Int32)
  | u64 (value : UInt64)
  | s64 (value : Int64)
  deriving DecidableEq

namespace VariableData

/-- The member that was stored last. -/
def member : VariableData → UnionMember
  | p _ => .p
  | Cp _ => .Cp
  | s _ => .s
  | Cs _ => .Cs
  | i _ => .i
  | u _ => .u
  | flt _ => .flt
  | dbl _ => .dbl
  | ldbl _ => .ldbl
  | u8 _ => .u8
  | s8 _ => .s8
  | u16 _ => .u16
  | s16 _ => .s16
  | u32 _ => .u32
  | s32 _ => .s32
  | u64 _ => .u64
  | s64 _ => .s64

/-- The address that a pointer member holds. -/
def address : VariableData → Option Address
  | p a | Cp a | s a | Cs a => some a
  | _ => none

/-- The bytes of the member. -/
def bytes : VariableData → List UInt8
  | p a | Cp a | s a | Cs a => littleEndian 8 a
  | i value => littleEndian 4 value.toUInt32.toNat
  | u value => littleEndian 4 value.toNat
  | flt value => littleEndian 4 value.toNat
  | dbl value => littleEndian 8 value.toNat
  | ldbl value => value.toList
  | u8 value => [value]
  | s8 value => [value.toUInt8]
  | u16 value => littleEndian 2 value.toNat
  | s16 value => littleEndian 2 value.toUInt16.toNat
  | u32 value => littleEndian 4 value.toNat
  | s32 value => littleEndian 4 value.toUInt32.toNat
  | u64 value => littleEndian 8 value.toNat
  | s64 value => littleEndian 8 value.toUInt64.toNat

end VariableData

/-- The member in which a variable of a type has its value or its pointer. -/
def VariableType.member : VariableType → UnionMember
  | .uint => .u
  | .int => .i
  | .uint8 => .u8
  | .sint8 => .s8
  | .uint16 => .u16
  | .sint16 => .s16
  | .uint32 => .u32
  | .sint32 => .s32
  | .uint64 => .u64
  | .sint64 => .s64
  | .float => .flt
  | .double => .dbl
  | .longDouble => .ldbl
  | .null | .string | .pString => .s
  | .constString | .pConstString => .Cs
  | .constPointer => .Cp
  | _ => .p

/--
`struct ag_variable`, without its lock and its function; `info` is the first
word of the union of that name: the size of a string or of a buffer, the
bitmask of a flag, or the address of the key of a reference
-/
structure StoredVariable where
  name : CString variableNameMax
  type : VariableType
  info : Nat
  data : VariableData
  deriving DecidableEq

/-- `AG_InitVariable`, which keeps the name -/
def StoredVariable.init (name : CString variableNameMax)
    (type : VariableType) : StoredVariable where
  name := name
  type := type
  info := 0
  data := .s 0

namespace VariableMemory

/-- `free` -/
def free (m : VariableMemory) (address : Address) : Except Stop VariableMemory :=
  if address = 0 then .ok m
  else
    match m.heap.cells address with
    | some block =>
      if block.malloced then
        .ok {
          heap := m.heap.free address
          strings := m.strings.erase address
        }
      else .error .undefined
    | none => .error .undefined

/-- Store bytes at the start of a block. -/
def write (m : VariableMemory) (address : Address)
    (bytes : List UInt8) : Except Stop VariableMemory :=
  match m.heap.cells address with
  | some block =>
    if bytes.length ≤ block.bytes.length then
      .ok { m with
        heap := m.heap.modify address fun block =>
          { block with bytes := splice block.bytes 0 bytes }
      }
    else .error .undefined
  | none => .error .undefined

/-- `Strdup`: the address of the copy is the next one -/
def strdup (m : VariableMemory) (s : List UInt8) : VariableMemory :=
  { m with heap := m.heap.alloc { bytes := s ++ [0], malloced := true } }

/-- `Strlcpy` to an address -/
def strlcpy (m : VariableMemory) (address : Address) (s : List UInt8)
    (size : Nat) : Except Stop VariableMemory :=
  if size = 0 then .ok m else m.write address (s.take (size - 1) ++ [0])

/-- Record that a variable was given a string. -/
def give (m : VariableMemory) (address : Address) : VariableMemory :=
  { m with strings := address :: m.strings }

end VariableMemory

namespace StoredVariable

/-- `AG_FreeVariable` -/
def free (V : StoredVariable) (m : VariableMemory) : Except Stop VariableMemory :=
  match V.type with
  | .string =>
    if V.info = 0 then
      match V.data.address with
      | some address => m.free address
      | none => .error .undefined
    else .ok m
  | .pVariable => m.free V.info
  | _ => .ok m

/-- A variable with the memory around it, to be changed. -/
abbrev Change := StoredVariable → VariableMemory → Except Stop (StoredVariable × VariableMemory)

/--
What `AG_FetchVariableOfType` does to the variable that `AG_FetchVariable`
returns
-/
def ofType (type : VariableType) : Change :=
  fun V m =>
    if V.type ≠ type then do
      let m ← V.free m
      return (.init V.name type, m)
    else .ok (V, m)

/-- The body of `FN_VARIABLE_SET` behind `AG_FetchVariable` -/
def set (v : VariableData) : Change :=
  fun V m =>
    if (agVariableTypes V.type).indirLvl > 0 then
      match V.data.address with
      | some address => do
          let m ← m.write address v.bytes
          return (V, m)
      | none => .error .undefined
    else .ok ({ V with data := v }, m)

/--
What the functions that bind a variable, and `AG_SetConstString`, store in
the variable of their type
-/
def bind (type : VariableType) (data : VariableData) (info : Option Nat) : Change :=
  fun V m => do
    let (V, m) ← V.ofType type m
    return ({ V with data := data, info := info.getD V.info }, m)

/-- The body of `AG_BindVariable` behind `AG_FetchVariable` -/
def bindVariable (tgtObj : Address) (tgtKey : List UInt8) : Change :=
  fun V m => do
    let keyDup := m.heap.next
    let (V, m) ← V.ofType .pVariable (m.strdup tgtKey)
    return ({ V with data := .p tgtObj, info := keyDup }, m)

/-- Free the string of a string variable, at an address. -/
def freeText (V : StoredVariable) (old : Address)
    (m : VariableMemory) : Except Stop VariableMemory :=
  if old ≠ 0 ∧ V.info = 0 then m.free old else .ok m

/--
The switch of `AG_SetString` and of `AG_SetStringNODUP`, on a string that is
at an address to become the string of the variable
-/
def setText (address : Address) (s : List UInt8) : Change :=
  fun V m =>
    match V.type with
    | .string =>
      match V.data.address with
      | some old => do
          let m ← V.freeText old m
          return ({ V with data := .s address, info := 0 }, m.give address)
      | none => .error .undefined
    | .pString =>
      match V.data.address with
      | some buffer => do
          let m ← m.strlcpy buffer s V.info
          return (V, m)
      | none => .error .undefined
    | _ => do
        let m ← V.free m
        return ({ StoredVariable.init V.name .string with data := .s address }, m.give address)

/--
`AG_SetString` on a variable; where a buffer is referenced, nothing is
duplicated.  A new variable has no string to free.  Addresses are not used
again, so that the copy may as well be made before the old string is freed.
-/
def setString (s : List UInt8) : Change :=
  fun V m =>
    if V.type = .pString then V.setText 0 s m else V.setText m.heap.next s (m.strdup s)

/-- `AG_SetStringNODUP` on a variable, of a string that was just allocated -/
def setStringNODUP (s : List UInt8) : Change := fun V m => V.setText m.heap.next s (m.strdup s)

end StoredVariable

/-- The variables of an object, and what one of them was last bound to. -/
structure VariableState where
  vars : List StoredVariable
  memory : VariableMemory
  bound : Address

namespace VariableState

def empty : VariableState where
  vars := []
  memory := { heap := .empty, strings := [] }
  bound := 0

/--
`AG_FetchVariable`: change the variable of a name, or a new one of a type
behind the others
-/
def fetchVariable (σ : VariableState) (name : List UInt8) (type : VariableType)
    (change : StoredVariable.Change) : Except Stop VariableState :=
  match σ.vars.find? fun V => V.name.bytes = name with
  | some V => do
      let (V, m) ← change V σ.memory
      return { σ with
        vars := updateFirst (fun W => W.name.bytes = name) (fun _ => V) σ.vars
        memory := m
      }
  | none => do
      let (V, m) ← change (.init (.strlcpy name) type) σ.memory
      return { σ with vars := σ.vars ++ [V], memory := m }

/-- `AG_Unset` -/
def unset (σ : VariableState) (name : List UInt8) : Except Stop VariableState :=
  match σ.vars.find? fun V => V.name.bytes = name with
  | some V => do
      let m ← V.free σ.memory
      return { σ with
        vars := σ.vars.eraseP fun W => W.name.bytes = name
        memory := m
      }
  | none => .ok σ

end VariableState

/-- The functions that set a variable to a value. -/
inductive SetCall where
  /-- `AG_SetUint` -/
  | setUint (v : UInt32)
  /-- `AG_SetInt` -/
  | setInt (v : Int32)
  /-- `AG_SetUint8` -/
  | setUint8 (v : UInt8)
  /-- `AG_SetSint8` -/
  | setSint8 (v : Int8)
  /-- `AG_SetUint16` -/
  | setUint16 (v : UInt16)
  /-- `AG_SetSint16` -/
  | setSint16 (v : Int16)
  /-- `AG_SetUint32` -/
  | setUint32 (v : UInt32)
  /-- `AG_SetSint32` -/
  | setSint32 (v : Int32)
  /-- `AG_SetUint64` -/
  | setUint64 (v : UInt64)
  /-- `AG_SetSint64` -/
  | setSint64 (v : Int64)
  /-- `AG_SetFloat` -/
  | setFloat (v : UInt32)
  /-- `AG_SetDouble` -/
  | setDouble (v : UInt64)
  /-- `AG_SetLongDouble` -/
  | setLongDouble (v : Vector UInt8 16)
  /-- `AG_SetPointer` -/
  | setPointer (v : Address)
  /-- `AG_SetText` -/
  | setText (v : Address)
  /-- `AG_SetConstPointer` -/
  | setConstPointer (v : Address)

namespace SetCall

/-- The type that a function gives to a new variable. -/
def ntype : SetCall → VariableType
  | setUint _ => .uint
  | setInt _ => .int
  | setUint8 _ => .uint8
  | setSint8 _ => .sint8
  | setUint16 _ => .uint16
  | setSint16 _ => .sint16
  | setUint32 _ => .uint32
  | setSint32 _ => .sint32
  | setUint64 _ => .uint64
  | setSint64 _ => .sint64
  | setFloat _ => .float
  | setDouble _ => .double
  | setLongDouble _ => .longDouble
  | setPointer _ => .pointer
  | setText _ => .pText
  | setConstPointer _ => .constPointer

/-- The member and the value that a function stores. -/
def data : SetCall → VariableData
  | setUint v => .u v
  | setInt v => .i v
  | setUint8 v => .u8 v
  | setSint8 v => .s8 v
  | setUint16 v => .u16 v
  | setSint16 v => .s16 v
  | setUint32 v => .u32 v
  | setSint32 v => .s32 v
  | setUint64 v => .u64 v
  | setSint64 v => .s64 v
  | setFloat v => .flt v
  | setDouble v => .dbl v
  | setLongDouble v => .ldbl v
  | setPointer v => .p v
  | setText v => .p v
  | setConstPointer v => .Cp v

end SetCall

/-- The functions that bind a variable to a target. -/
inductive BindCall where
  /-- `AG_BindUint` -/
  | bindUint (v : Address)
  /-- `AG_BindInt` -/
  | bindInt (v : Address)
  /-- `AG_BindUint8` -/
  | bindUint8 (v : Address)
  /-- `AG_BindSint8` -/
  | bindSint8 (v : Address)
  /-- `AG_BindUint16` -/
  | bindUint16 (v : Address)
  /-- `AG_BindSint16` -/
  | bindSint16 (v : Address)
  /-- `AG_BindUint32` -/
  | bindUint32 (v : Address)
  /-- `AG_BindSint32` -/
  | bindSint32 (v : Address)
  /-- `AG_BindUint64` -/
  | bindUint64 (v : Address)
  /-- `AG_BindSint64` -/
  | bindSint64 (v : Address)
  /-- `AG_BindFloat` -/
  | bindFloat (v : Address)
  /-- `AG_BindDouble` -/
  | bindDouble (v : Address)
  /-- `AG_BindLongDouble` -/
  | bindLongDouble (v : Address)
  /-- `AG_BindPointer` -/
  | bindPointer (v : Address)
  /-- `AG_BindText` -/
  | bindText (v : Address)
  /-- `AG_BindConstPointer` -/
  | bindConstPointer (v : Address)
  /-- `AG_BindFlag` -/
  | bindFlag (v : Address) (bitmask : UInt32)
  /-- `AG_BindFlag8` -/
  | bindFlag8 (v : Address) (bitmask : UInt8)
  /-- `AG_BindFlag16` -/
  | bindFlag16 (v : Address) (bitmask : UInt16)
  /-- `AG_BindFlag32` -/
  | bindFlag32 (v : Address) (bitmask : UInt32)
  /-- `AG_BindString` -/
  | bindString (buf : Address) (bufSize : Nat)
  /-- `AG_BindConstString` of a string of some length -/
  | bindConstString (v : Address) (length : Nat)

namespace BindCall

/-- The type of the variable that a function binds. -/
def ntype : BindCall → VariableType
  | bindUint _ => .pUint
  | bindInt _ => .pInt
  | bindUint8 _ => .pUint8
  | bindSint8 _ => .pSint8
  | bindUint16 _ => .pUint16
  | bindSint16 _ => .pSint16
  | bindUint32 _ => .pUint32
  | bindSint32 _ => .pSint32
  | bindUint64 _ => .pUint64
  | bindSint64 _ => .pSint64
  | bindFloat _ => .pFloat
  | bindDouble _ => .pDouble
  | bindLongDouble _ => .pLongDouble
  | bindPointer _ => .pPointer
  | bindText _ => .pText
  | bindConstPointer _ => .pConstPointer
  | bindFlag _ _ => .pFlag
  | bindFlag8 _ _ => .pFlag8
  | bindFlag16 _ _ => .pFlag16
  | bindFlag32 _ _ => .pFlag32
  | bindString _ _ => .pString
  | bindConstString _ _ => .pConstString

/-- The target. -/
def target : BindCall → Address
  | bindUint v | bindInt v | bindUint8 v | bindSint8 v | bindUint16 v
  | bindSint16 v | bindUint32 v | bindSint32 v | bindUint64 v | bindSint64 v
  | bindFloat v | bindDouble v | bindLongDouble v | bindPointer v
  | bindText v | bindConstPointer v | bindFlag v _ | bindFlag8 v _
  | bindFlag16 v _ | bindFlag32 v _ | bindString v _
  | bindConstString v _ => v

/-- The member in which a function stores the target. -/
def data : BindCall → VariableData
  | bindString buf _ => .s buf
  | bindConstString v _ => .Cs v
  | call => .p call.target

/-- What a function stores in `info`. -/
def info : BindCall → Option Nat
  | bindFlag _ bitmask => some bitmask.toNat
  | bindFlag8 _ bitmask => some bitmask.toNat
  | bindFlag16 _ bitmask => some bitmask.toNat
  | bindFlag32 _ bitmask => some bitmask.toNat
  | bindString _ bufSize => some bufSize
  | bindConstString _ length => some (length + 1)
  | _ => none

end BindCall

/-- A call for the variable of a name. -/
inductive VariableCall where
  /-- `AG_SetFoo` -/
  | set (call : SetCall)
  /-- `AG_BindFoo` -/
  | bind (call : BindCall)
  /-- `AG_BindVariable` -/
  | bindVariable (tgtObj : Address) (tgtKey : List UInt8)
  /-- `AG_SetString` -/
  | setString (s : List UInt8)
  /-- `AG_SetStringNODUP` -/
  | setStringNODUP (s : List UInt8)
  /-- `AG_SetConstString` of a string of some length -/
  | setConstString (v : Address) (length : Nat)
  /-- `AG_Unset` -/
  | unset

/-- Make a call. -/
def VariableState.call (σ : VariableState)
    (name : List UInt8) : VariableCall → Except Stop VariableState
  | .set call => σ.fetchVariable name call.ntype (StoredVariable.set call.data)
  | .bind call =>
    { σ with bound := call.target }.fetchVariable name call.ntype
      (StoredVariable.bind call.ntype call.data call.info)
  | .bindVariable tgtObj tgtKey =>
    { σ with bound := tgtObj }.fetchVariable name .pVariable
      (StoredVariable.bindVariable tgtObj tgtKey)
  | .setString s => σ.fetchVariable name .string (StoredVariable.setString s)
  | .setStringNODUP s => σ.fetchVariable name .string (StoredVariable.setStringNODUP s)
  | .setConstString v length =>
    σ.fetchVariable name .constString (StoredVariable.bind .constString (.Cs v) (some (length + 1)))
  | .unset => σ.unset name

end Agar.Core
