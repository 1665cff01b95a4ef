import Agar.Core.DataSource
import Agar.Lib.CString

namespace Agar.Core

open Agar.Lib

/-!
# Variables

An `AG_Variable` is a name, a type and a value.  Objects have lists of them,
and the arguments of an event are an array of them.
-/

/-- An `AG_Object *` -/
abbrev ObjRef := Nat

/-- A `void *`: an address, or `NULL` -/
abbrev Pointer := Option Nat

/-- The function that an `AG_Function` points to -/
abbrev FnRef := Nat

/-- `AG_VARIABLE_NAME_MAX` -/
abbrev variableNameMax : Nat := 40

instance : NeZero variableNameMax := ⟨by decide⟩

/-- `enum ag_variable_type` -/
inductive VariableType where
  | null
  | uint
  | pUint
  | int
  | pInt
  | uint8
  | pUint8
  | sint8
  | pSint8
  | uint16
  | pUint16
  | sint16
  | pSint16
  | uint32
  | pUint32
  | sint32
  | pSint32
  | uint64
  | pUint64
  | sint64
  | pSint64
  | float
  | pFloat
  | double
  | pDouble
  | longDouble
  | pLongDouble
  | string
  | pString
  | constString
  | pConstString
  | pointer
  | pPointer
  | constPointer
  | pConstPointer
  | pFlag
  | pFlag8
  | pFlag16
  | pFlag32
  | pObject
  | pText
  | pVariable
  deriving Repr, DecidableEq

/--
`union ag_variable_data`: the member stored last and its value.  Floating
point numbers are the bytes that represent them (ten of a `long double`; the
rest is padding), and a string is the bytes that the pointer leads to.
-/
inductive Data where
  | p (pointer : Pointer)
  | Cp (pointer : Pointer)
  | s (text : Option (List UInt8))
  | Cs (text : Option (List UInt8))
  | i (value : Int32)
  | u (value : UInt32)
  | flt (value : UInt32)
  | dbl (value : UInt64)
  | ldbl (value : Vector UInt8 10)
  | u8 (value : UInt8)
  | s8 (value : Int8)
  | u16 (value : UInt16)
  | s16 (value : Int16)
  | u32 (value : UInt32)
  | s32 (value : Int32)
  | u64 (value : UInt64)
  | s64 (value : Int64)
  deriving DecidableEq

/--
`struct ag_variable`, with `info.size` for the buffer of a string and without
its lock
-/
structure Variable where
  name : CString variableNameMax
  type : VariableType
  size : Nat
  fn : Option FnRef
  data : Data
  deriving DecidableEq

/-- `AG_InitVariable` -/
def initVariable (name : CString variableNameMax) (type : VariableType) : Variable where
  name := name
  type := type
  size := 0
  fn := none
  data := .s none

/-- The parts of an `AG_VariableTypeInfo` that archives depend on -/
structure VariableTypeInfo where
  indirLvl : Nat
  typeTgt : VariableType
  code : Int
  deriving Repr, DecidableEq

/-- `agVariableTypes` -/
def agVariableTypes : VariableType → VariableTypeInfo
  | .null => ⟨0, .null, -1⟩
  | .uint => ⟨0, .uint, 0⟩
  | .pUint => ⟨1, .uint, 0⟩
  | .int => ⟨0, .int, 1⟩
  | .pInt => ⟨1, .int, 1⟩
  | .uint8 => ⟨0, .uint8, 2⟩
  | .pUint8 => ⟨1, .uint8, 2⟩
  | .sint8 => ⟨0, .sint8, 3⟩
  | .pSint8 => ⟨1, .sint8, 3⟩
  | .uint16 => ⟨0, .uint16, 4⟩
  | .pUint16 => ⟨1, .uint16, 4⟩
  | .sint16 => ⟨0, .sint16, 5⟩
  | .pSint16 => ⟨1, .sint16, 5⟩
  | .uint32 => ⟨0, .uint32, 6⟩
  | .pUint32 => ⟨1, .uint32, 6⟩
  | .sint32 => ⟨0, .sint32, 7⟩
  | .pSint32 => ⟨1, .sint32, 7⟩
  | .uint64 => ⟨0, .uint64, 8⟩
  | .pUint64 => ⟨1, .uint64, 8⟩
  | .sint64 => ⟨0, .sint64, 9⟩
  | .pSint64 => ⟨1, .sint64, 9⟩
  | .float => ⟨0, .float, 10⟩
  | .pFloat => ⟨1, .float, 10⟩
  | .double => ⟨0, .double, 11⟩
  | .pDouble => ⟨1, .double, 11⟩
  | .longDouble => ⟨0, .longDouble, 12⟩
  | .pLongDouble => ⟨1, .longDouble, 12⟩
  | .string => ⟨0, .string, 13⟩
  | .pString => ⟨1, .string, 13⟩
  | .constString => ⟨0, .constString, 13⟩
  | .pConstString => ⟨1, .constString, 13⟩
  | .pointer => ⟨0, .pointer, -1⟩
  | .pPointer => ⟨1, .pointer, -1⟩
  | .constPointer => ⟨0, .constPointer, -1⟩
  | .pConstPointer => ⟨1, .constPointer, -1⟩
  | .pFlag => ⟨1, .pFlag, -1⟩
  | .pFlag8 => ⟨1, .pFlag8, -1⟩
  | .pFlag16 => ⟨1, .pFlag16, -1⟩
  | .pFlag32 => ⟨1, .pFlag32, -1⟩
  | .pObject => ⟨1, .pObject, -1⟩
  | .pText => ⟨1, .pText, -1⟩
  | .pVariable => ⟨1, .pVariable, -1⟩

end Agar.Core
