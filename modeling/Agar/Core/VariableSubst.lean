import Agar.Core.ClassSpec
import Agar.Core.Printf
import Agar.Lib.Terminated

namespace Agar.Core

open Agar.Lib

/-!
# Substitution of variables

`AG_VariableSubst` copies a template, in which references of the form `$(key)`
stand for variables of an object, and for the names of the object and of its
class.  Each value is printed to a buffer of 64 bytes first.

A variable that points to its value is given with the value that is there at
present, and a variable with a function with the value that the function would
store.
-/

/-- `'$'` -/
def dollar : UInt8 := 36

/-- The value of a number type -/
inductive NumberValue where
  | uint (value : UInt32)
  | int (value : Int32)
  | uint8 (value : UInt8)
  | sint8 (value : Int8)
  | uint16 (value : UInt16)
  | sint16 (value : Int16)
  | uint32 (value : UInt32)
  | sint32 (value : Int32)
  | uint64 (value : UInt64)
  | sint64 (value : Int64)
  | float (bits : UInt32)
  | double (bits : UInt64)
  | longDouble (bytes : Vector UInt8 10)
  deriving DecidableEq

/-- The type of a variable, with what its data is or leads to -/
inductive VariableContent (ω : Type) where
  /-- `AG_VARIABLE_UINT` and the other number types -/
  | number (value : NumberValue)
  /-- `AG_VARIABLE_P_UINT` and the others: the number at `data.p` -/
  | pNumber (value : NumberValue)
  /-- `AG_VARIABLE_STRING` and `AG_VARIABLE_CONST_STRING`, or a `NULL` -/
  | string (s : Option (List UInt8))
  /-- `AG_VARIABLE_P_STRING`: the string in the buffer -/
  | pString (s : List UInt8)
  /--
  `AG_VARIABLE_P_CONST_STRING`: the bytes at `data.Cs`, where the address of
  the string is, and the string
  -/
  | pConstString (place s : List UInt8)
  /-- `AG_VARIABLE_POINTER` and `AG_VARIABLE_CONST_POINTER` -/
  | pointer (p : Nat)
  /-- `AG_VARIABLE_P_POINTER` and `AG_VARIABLE_P_CONST_POINTER` -/
  | pPointer (p : Nat)
  /-- `AG_VARIABLE_P_FLAG` and the others, with the bitmask -/
  | pFlag (value bitmask : UInt32)
  /-- `AG_VARIABLE_P_VARIABLE` -/
  | pVariable (tgtObj : ω) (tgtKey : List UInt8)
  /-- Other types, which have no text -/
  | other

/-- A variable, with what its function, if it has one, would store in it -/
structure ObjectVariable (ω : Type) where
  name : CString variableNameMax
  content : VariableContent ω
  fn : Option (VariableContent ω)

/-- The objects, with their names, their classes' names and their variables -/
structure NamedObjects (ω : Type) where
  name : ω → CString objectNameMax
  className : ω → CString objectTypeMax
  vars : ω → List (ObjectVariable ω)

/-- What the C library's `snprintf` makes of values by `%.2f`, `%.2Lf`, `%p` -/
structure NativeTexts where
  float : UInt32 → List UInt8
  double : UInt64 → List UInt8
  longDouble : Vector UInt8 10 → List UInt8
  pointer : Nat → List UInt8
  float_noNul : ∀ bits, 0 ∉ float bits
  double_noNul : ∀ bits, 0 ∉ double bits
  longDouble_noNul : ∀ bytes, 0 ∉ longDouble bytes
  pointer_noNul : ∀ p, 0 ∉ pointer p

variable {ω : Type}

/-! ## Printing -/

/-- `AG_StrlcpyUint` -/
def strlcpyUint (value : UInt32) (size : Nat) : List UInt8 :=
  ((lastDigitsFirst value.toNat).take (size - 1)).reverse

/-- `AG_StrlcpyInt` -/
def strlcpyInt (value : Int32) (size : Nat) : Except Stop (List UInt8) :=
  if value = Int32.minValue then
    -- `-val` overflows
    .error .undefined
  else .ok ((FmtPiece.reversedInt value).take (size - 1)).reverse

/-- The text of a number with its sign -/
def signedText (value : Int) : List UInt8 :=
  (lastDigitsFirst value.natAbs ++ (if value < 0 then [45] else [])).reverse

/-- The text of a number without a sign -/
def unsignedText (value : Nat) : List UInt8 := (lastDigitsFirst value).reverse

/-- The branches of `AG_PrintVariable` for numbers -/
def printNumber (texts : NativeTexts) (len : Nat) : NumberValue → Except Stop (List UInt8)
  | .uint value => .ok (strlcpyUint value len)
  | .int value => strlcpyInt value len
  | .uint8 value => .ok (strlcpyUint value.toUInt32 len)
  | .sint8 value => strlcpyInt value.toInt32 len
  | .uint16 value => .ok (strlcpyUint value.toUInt32 len)
  | .sint16 value => strlcpyInt value.toInt32 len
  | .uint32 value => .ok ((unsignedText value.toNat).take (len - 1))
  | .sint32 value => .ok ((signedText value.toInt).take (len - 1))
  | .uint64 value => .ok ((unsignedText value.toNat).take (len - 1))
  | .sint64 value => .ok ((signedText value.toInt).take (len - 1))
  | .float bits => .ok ((texts.float bits).take (len - 1))
  | .double bits => .ok ((texts.double bits).take (len - 1))
  | .longDouble bytes => .ok ((texts.longDouble bytes).take (len - 1))

/-- `AG_PrintFlagsVariable` -/
def printFlagsVariable (len : Nat) (value bitmask : UInt32) : List UInt8 :=
  (if value &&& bitmask ≠ 0 then ascii "Set" else ascii "UnSet").take (len - 1)

/-- The last branch of `AG_PrintVariable` -/
def printOther (len : Nat) : Except Stop (List UInt8) :=
  if len < 2 then .error .undefined else .ok (ascii "?")

/-- `AG_PrintVariable`: the string that is then in the buffer -/
def printVariable (texts : NativeTexts) (len : Nat) : VariableContent ω → Except Stop (List UInt8)
  | .number (.longDouble _) =>
    -- there is no branch for `AG_VARIABLE_LONG_DOUBLE`
    printOther len
  | .number value => printNumber texts len value
  | .pNumber value => printNumber texts len value
  | .string (some s) => .ok ((cString s).take (len - 1))
  | .string none => .error .undefined
  | .pString s => .ok ((cString s).take (len - 1))
  | .pConstString place _ => .ok ((cString place).take (len - 1))
  | .pointer p => .ok ((texts.pointer p).take (len - 1))
  | .pPointer p => .ok ((texts.pointer p).take (len - 1))
  | .pFlag value bitmask => .ok (printFlagsVariable len value bitmask)
  | .pVariable _ _ => printOther len
  | .other => printOther len

/-! ## Substituting -/

namespace NamedObjects

/-- The variable that a name finds -/
def find (objects : NamedObjects ω) (obj : ω) (name : List UInt8) : Option (ObjectVariable ω) :=
  (objects.vars obj).find? fun V => V.name.bytes = name

/--
`AG_GetVariableLocked`, which calls itself for the target of a reference; the
number bounds the depth of the calls
-/
def getVariableLocked (objects : NamedObjects ω) :
    Nat → ω → List UInt8 → Except Stop (Option (ObjectVariable ω))
  | 0, _, _ => .error .outOfFuel
  | depth + 1, obj, name =>
    match objects.find obj name with
    | none => .ok none
    | some V =>
      match V.content with
      | .pVariable tgtObj tgtKey => objects.getVariableLocked depth tgtObj tgtKey
      | _ => .ok (some V)

end NamedObjects

/-- The key of a reference that a string begins with, and what is behind it -/
def referenceAt : List UInt8 → Option (List UInt8 × List UInt8)
  | c :: d :: rest =>
    if c = dollar ∧ d = openParen ∧ closeParen ∈ rest then
      some (rest.takeWhile (· ≠ closeParen), (rest.dropWhile (· ≠ closeParen)).tail)
    else none
  | _ => none

/-- `Strlcat(dst, src, len)` -/
def strlcatDst (dst src : List UInt8) (len : Nat) : Except Stop (List UInt8) :=
  match strlcatAt dst src len with
  | some dst => .ok dst
  | none => .error .undefined

namespace NamedObjects

variable (objects : NamedObjects ω) (texts : NativeTexts) (depth : Nat) (obj : ω) (len : Nat)

/-- What the loop of `AG_VariableSubst` appends for the key of a reference -/
def appendReference (key dst : List UInt8) : Except Stop (List UInt8) :=
  if key.length + 1 ≥ variableNameMax then .ok dst
  else if key = ascii "name" then strlcatDst dst (objects.name obj).bytes len
  else if key = ascii "class" then strlcatDst dst (objects.className obj).bytes len
  else do
    match ← objects.getVariableLocked depth obj key with
    | none => return dst
    | some V => do
        let val ← printVariable texts 64 V.content
        strlcatDst dst val len

/-- The loop of `AG_VariableSubst` -/
def substLoop : Nat → List UInt8 → List UInt8 → Except Stop (List UInt8)
  | _, [], dst => .ok dst
  | 0, _ :: _, _ => .error .outOfFuel
  | fuel + 1, c :: rest, dst =>
    match referenceAt (c :: rest) with
    | some (key, behind) => do
        let dst ← objects.appendReference texts depth obj len key dst
        substLoop fuel behind dst
    | none => do
        let dst ← strlcatDst dst [c] len
        substLoop fuel rest dst

/-- `AG_VariableSubst` -/
def variableSubst (s dst : List UInt8) : Except Stop (List UInt8) :=
  if len < 1 then .ok dst
  else
    match terminateAt dst with
    | none => .error .undefined
    | some dst => objects.substLoop texts depth obj len s.length s dst

end NamedObjects

/-! ## Meaning -/

/-- The text of a number -/
def NumberValue.text (texts : NativeTexts) : NumberValue → List UInt8
  | uint value => unsignedText value.toNat
  | int value => signedText value.toInt
  | uint8 value => unsignedText value.toNat
  | sint8 value => signedText value.toInt
  | uint16 value => unsignedText value.toNat
  | sint16 value => signedText value.toInt
  | uint32 value => unsignedText value.toNat
  | sint32 value => signedText value.toInt
  | uint64 value => unsignedText value.toNat
  | sint64 value => signedText value.toInt
  | float bits => texts.float bits
  | double bits => texts.double bits
  | longDouble bytes => texts.longDouble bytes

/-- The whole text of a value -/
def VariableContent.text (texts : NativeTexts) : VariableContent ω → List UInt8
  | number value => value.text texts
  | pNumber value => value.text texts
  | string s => cString (s.getD [])
  | pString s => cString s
  | pConstString _ s => cString s
  | pointer p => texts.pointer p
  | pPointer p => texts.pointer p
  | pFlag value bitmask => if value &&& bitmask ≠ 0 then ascii "Set" else ascii "UnSet"
  | pVariable _ _ => ascii "?"
  | other => ascii "?"

/-- What a variable stands for at present -/
def ObjectVariable.present (V : ObjectVariable ω) : VariableContent ω := V.fn.getD V.content

/-- A part of a template -/
inductive TemplatePart where
  | literal (c : UInt8)
  | reference (key : List UInt8)
  deriving DecidableEq

def TemplatePart.source : TemplatePart → List UInt8
  | literal c => [c]
  | reference key => dollar :: openParen :: (key ++ [closeParen])

/-- The parts of a template, as far as a number of them -/
def partsFrom : Nat → List UInt8 → List TemplatePart
  | _, [] => []
  | 0, _ :: _ => []
  | count + 1, c :: rest =>
    match referenceAt (c :: rest) with
    | some (key, behind) => .reference key :: partsFrom count behind
    | none => .literal c :: partsFrom count rest

/-- The parts of a template -/
def templateParts (s : List UInt8) : List TemplatePart := partsFrom s.length s

/-- `AG_PrintVariable` has a branch for the value, which prints it. -/
def VariableContent.Shown : VariableContent ω → Prop
  | number (.longDouble _) => False
  | number (.int value) => value ≠ Int32.minValue
  | pNumber (.int value) => value ≠ Int32.minValue
  | string s => s ≠ none
  | pConstString _ _ => False
  | _ => True

/--
A variable can be shown, in 63 characters, and holds what its function, if it
has one, gives at present.
-/
structure ObjectVariable.Plain (texts : NativeTexts) (V : ObjectVariable ω) : Prop where
  shown : V.content.Shown
  fits : (V.content.text texts).length < 64
  current : V.present = V.content

namespace NamedObjects

variable (objects : NamedObjects ω) (texts : NativeTexts) (obj : ω)
  (found : List UInt8 → Option (ObjectVariable ω))

/-- The text that stands for a key: of a variable, if there is one -/
def replacement (key : List UInt8) : List UInt8 :=
  if key = ascii "name" then (objects.name obj).bytes
  else if key = ascii "class" then (objects.className obj).bytes
  else (found key).elim [] fun V => V.present.text texts

/-- A template with its references replaced -/
def expanded (s : List UInt8) : List UInt8 :=
  (templateParts s).flatMap fun
    | .literal c => [c]
    | .reference key => objects.replacement texts obj found key

/-- Substitution puts a text into the buffer, as far as there is room. -/
def Gives (len : Nat) (s dst text : List UInt8) : Prop :=
  ∃ depth, ∀ more, ∃ after, objects.variableSubst texts (depth + more) obj len s dst = .ok after ∧
      HoldsString after len (text.take (len - 1)) ∧
      ChangedInside dst after len

end NamedObjects

/-! ## Templates -/

section Printing

variable {texts : NativeTexts} {len : Nat}

variable {val : List UInt8}

variable {value : NumberValue}

end Printing

/-! ## Substituted templates -/

namespace NamedObjects

section Substituting

variable {objects : NamedObjects ω} {texts : NativeTexts} {obj : ω}
  {found : List UInt8 → Option (ObjectVariable ω)} {len depth : Nat} {dst after text : List UInt8}

end Substituting

def noTexts : NativeTexts where
  float _ := []
  double _ := []
  longDouble _ := []
  pointer _ := []
  float_noNul _ := List.not_mem_nil
  double_noNul _ := List.not_mem_nil
  longDouble_noNul _ := List.not_mem_nil
  pointer_noNul _ := List.not_mem_nil

end NamedObjects

end Agar.Core
