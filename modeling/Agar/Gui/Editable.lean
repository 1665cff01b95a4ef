import Agar.Core.Unicode
import Agar.Lib.TextCells

namespace Agar.Gui

open Agar.Lib
open Agar.Core

/-!
# Editable fields

An `AG_Editable` edits a text in a working buffer of UCS-4 characters.  The
cursor `pos` and the signed distance `sel` to the other end of the selection
are of type `int`, which the text of a field does not leave; sizes are numbers
of a `size_t`, which no sum of sizes here leaves.

Redrawing, scrolling and the locks are left out.
-/

/-! ## The field, its buffer and the clipboards -/

/-- `AG_Editable`: what its editing functions read -/
structure Editable where
  /-- `AG_EDITABLE_MULTILINE` -/
  multiline : Bool
  /-- `AG_EDITABLE_INT_ONLY` -/
  intOnly : Bool
  /-- `AG_EDITABLE_FLT_ONLY` -/
  fltOnly : Bool
  /-- `AG_EDITABLE_EXCL` -/
  excl : Bool
  /-- `AG_EDITABLE_NOEMACS` -/
  noEmacs : Bool
  /-- `AG_EDITABLE_NOLATIN1` -/
  noLatin1 : Bool
  /-- `AG_EDITABLE_READONLY` -/
  readonly : Bool
  /-- `AG_WidgetDisabled` -/
  disabled : Bool
  encoding : List UInt8
  pos : Int
  sel : Int
  compose : UInt32
  deriving DecidableEq

/--
`AG_EditableBuffer`: `s` is the memory that the pointer leads to, and
`infoSize` the size of the variable at `var`
-/
structure EditableBuffer where
  s : Option (List UInt32)
  len : Nat
  maxLen : Nat
  reallocable : Bool
  infoSize : Nat
  deriving DecidableEq

/-- `AG_EditableClipboard` -/
structure EditableClipboard where
  s : Option (List UInt32)
  len : Nat
  deriving DecidableEq

/-- What `AG_SetError` is told by the functions that change a text -/
inductive EditError where
  /-- `Bad UCS-4 character` -/
  | badCharacter
  /-- `%u > %u bytes` -/
  | tooLong (convLen size : Nat)
  /-- the allocator's `Out of memory` -/
  | outOfMemory
  /-- Non-integer input near `%c` -/
  | nonInteger (c : UInt32)
  /-- Non-float input near `%c` -/
  | nonFloat (c : UInt32)
  deriving Repr, DecidableEq

/--
How an editing function returns: 1 where it is done, and 0 where it has
nothing to do or fails with an error.
-/
inductive Verdict where
  | done
  | ignored
  | failed (error : EditError)
  deriving Repr, DecidableEq

/-- A field with its working buffer and a clipboard, behind an editing function -/
structure Edited where
  verdict : Verdict
  ed : Editable
  buf : EditableBuffer
  cb : EditableClipboard
  deriving DecidableEq

/-! ## Lengths -/

/-- `AG_CharLengthUTF8FromUCS4`: `none` where it returns -1 -/
def charLengthUTF8FromUCS4 (ch : UInt32) : Option Nat :=
  if ch < 0x80 then some 1
  else if ch < 0x800 then some 2
  else if ch < 0x10000 then some 3
  else if ch < 0x200000 then some 4
  else if ch < 0x4000000 then some 5
  else if ch ≤ 0x7fffffff then some 6
  else none

/-- `AG_LengthUTF8FromUCS4`: `none` where it returns -1 -/
def lengthUTF8FromUCS4 : List UInt32 → Except Stop (Option Nat)
  | [] => .error .undefined
  | c :: rest =>
    if c = 0 then .ok (some 0)
    else
      match charLengthUTF8FromUCS4 c with
      | none => .ok none
      | some cLen => do
          let rv ← lengthUTF8FromUCS4 rest
          return rv.map (cLen + ·)

/-- `AG_LengthUCS4` -/
def lengthUCS4 : List UInt32 → Except Stop Nat
  | [] => .error .undefined
  | c :: rest =>
    if c = 0 then .ok 0
    else do
      let len ← lengthUCS4 rest
      return len + 1

/-! ## The selection -/

/-- An `int` converted to `Uint` -/
def toUint (value : Int) : Nat := (value % 2 ^ 32).toNat

/-- A `size_t` converted to `int` -/
def toInt (value : Nat) : Int := Int.bmod value (2 ^ 32)

namespace Editable

/-- `AG_EditableReadOnly` -/
def readOnly (ed : Editable) : Bool := ed.readonly || ed.disabled

/-- `AG_EditableValidateSelection` -/
def validateSelection (ed : Editable) (buf : EditableBuffer) : Editable :=
  let ed :=
    if buf.len < toUint ed.pos then { ed with pos := toInt buf.len, sel := 0 } else ed
  if ed.sel ≠ 0 then
    let ep := ed.pos + ed.sel
    if ep < 0 then { ed with pos := 0, sel := 0 }
    else if buf.len < toUint ep then { ed with pos := toInt buf.len, sel := 0 }
    else ed
  else ed

/-- `NormSelection` -/
def normSelection (ed : Editable) : Editable :=
  if ed.sel < 0 then { ed with pos := ed.pos + ed.sel, sel := -ed.sel } else ed

end Editable

/-! ## Memory -/

/-- The memory at a pointer that is followed -/
def pointee (s : Option (List UInt32)) : Except Stop (List UInt32) := s.elim (.error .undefined) .ok

/-- The result of an operation on memory, which ends in its bounds -/
def inBounds (cells : Option (List UInt32)) : Except Stop (List UInt32) :=
  cells.elim (.error .undefined) .ok

/-- `count` characters from `start` on, which are read -/
def readCells (cells : List UInt32) (start : Int) (count : Nat) : Except Stop (List UInt32) :=
  if 0 ≤ start ∧ start + count ≤ cells.length then .ok (rangeOf cells start.toNat count)
  else .error .undefined

/-! ## Editing -/

/--
`AG_EditableCopyChunk` of `len` characters from `&s[start]`; the clipboard's
`encoding`, which nothing reads, is left out
-/
def copyChunk (allocation : Allocation) (cb : EditableClipboard) (s : List UInt32) (start : Int)
    (len : Nat) : Except Stop EditableClipboard :=
  if allocation.grants (4 * (len + 1)) then do
    let chunk ← readCells s start len
    return { s := some (chunk ++ [0]), len := len }
  else return cb

/-- `AG_EditableDelete` -/
def editableDelete (ed : Editable)
    (buf : EditableBuffer) : Except Stop (Verdict × Editable × EditableBuffer) :=
  if ed.readOnly ∨ ed.sel = 0 then return (.ignored, ed, buf)
  else do
    let ed := (ed.validateSelection buf).normSelection
    let s ← pointee buf.s
    let s ← inBounds <|
      if ed.pos + ed.sel = buf.len then copyCells? s ed.pos [0]
      else moveCells? s ed.pos (ed.pos + ed.sel) (buf.len - ed.sel + 1 - ed.pos).toNat
    return (.done, { ed with sel := 0 }, { buf with s := some s, len := (buf.len - ed.sel).toNat })

/-- Delete the selection that what is put in replaces, if there is one. -/
def deleteSelected (ed : Editable)
    (buf : EditableBuffer) : Except Stop (Editable × EditableBuffer) :=
  if ed.sel ≠ 0 then do
    let (_, ed, buf) ← editableDelete ed buf
    return (ed, buf)
  else return (ed, buf)

/-- `AG_EditableCut` -/
def editableCut (allocation : Allocation) (ed : Editable) (buf : EditableBuffer)
    (cb : EditableClipboard) : Except Stop Edited :=
  if ed.readOnly ∨ ed.sel = 0 then return ⟨.ignored, ed, buf, cb⟩
  else do
    let ed := (ed.validateSelection buf).normSelection
    let s ← pointee buf.s
    let cb ← copyChunk allocation cb s ed.pos ed.sel.toNat
    let (_, ed, buf) ← editableDelete ed buf
    return ⟨.done, ed, buf, cb⟩

/-- `AG_EditableCopy` -/
def editableCopy (allocation : Allocation) (ed : Editable) (buf : EditableBuffer)
    (cb : EditableClipboard) : Except Stop Edited :=
  if ed.sel = 0 then return ⟨.ignored, ed, buf, cb⟩
  else do
    let ed := (ed.validateSelection buf).normSelection
    let s ← pointee buf.s
    let cb ← copyChunk allocation cb s ed.pos ed.sel.toNat
    return ⟨.done, ed, buf, cb⟩

/-- The bytes that `AG_EditableGrowBuffer` estimates for a text and `nIns` more -/
def convertedLength (ed : Editable) (buf : EditableBuffer) (s ins : List UInt32)
    (nIns : Nat) : Except Stop (Option Nat) :=
  if equalsNoCase ed.encoding (ascii "UTF-8") then do
    match ← lengthUTF8FromUCS4 s with
    | none => return none
    | some sLen =>
      match ← lengthUTF8FromUCS4 ins with
      | none => return none
      | some insLen => return some (sLen + insLen + 1)
  else if equalsNoCase ed.encoding (ascii "US-ASCII") then do
    let len ← lengthUCS4 s
    return some (len + nIns + 1)
  else return some (4 * (buf.len + nIns + 1))

/-- `AG_EditableGrowBuffer`; `fresh` is what new memory holds -/
def growBuffer (allocation : Allocation) (fresh : Nat → UInt32) (ed : Editable)
    (buf : EditableBuffer) (ins : List UInt32)
    (nIns : Nat) : Except Stop (Except EditError EditableBuffer) := do
  let s ← pointee buf.s
  match ← convertedLength ed buf s ins nIns with
  | none => return .error .badCharacter
  | some convLen =>
    if buf.reallocable = false ∧ buf.infoSize < convLen then
      return .error (.tooLong convLen buf.infoSize)
    else if buf.maxLen < 4 * (buf.len + nIns + 1) then
      if allocation.grants (4 * (buf.len + nIns + 1)) then
        return .ok
          { buf with
            s := some (resize fresh (buf.len + nIns + 1) s)
            maxLen := 4 * (buf.len + nIns + 1) }
      else return .error .outOfMemory
    else return .ok buf

/-- `CharIsIntOnly` -/
def charIsIntOnly (c : UInt32) : Bool := c = 45 || c = 43 || (48 ≤ c && c ≤ 57)

/-- `CharIsFltOnly` -/
def charIsFltOnly (c : UInt32) : Bool :=
  c = 43 || c = 45 || c = 46 || c = 101 || c = 105 || c = 110 || c = 102 ||
    c = 97 || c = 0x221e || (48 ≤ c && c ≤ 57)

/-- The clipboard's text, in which the first newline is made the terminator -/
def cutLine : List UInt32 → Except Stop (List UInt32)
  | [] => .error .undefined
  | c :: rest =>
    if c = 0 then .ok (c :: rest)
    else if c = 10 then .ok (0 :: rest)
    else do
      let rest ← cutLine rest
      return c :: rest

/-- What is left of the clipboard's text for a field of one line, or of more -/
def pastedLines (ed : Editable) (s : List UInt32) : Except Stop (List UInt32) :=
  if ed.multiline then .ok s else cutLine s

/-- The first character of a string that a mode does not accept -/
def firstRefused (accepts : UInt32 → Bool) : List UInt32 → Except Stop (Option UInt32)
  | [] => .error .undefined
  | c :: rest =>
    if c = 0 then .ok none
    else if accepts c then firstRefused accepts rest
    else .ok (some c)

/-- What the mode of a field has against the text of a clipboard -/
def refusedByMode (ed : Editable) (s : List UInt32) : Except Stop (Option EditError) :=
  if ed.intOnly then do
    let c ← firstRefused charIsIntOnly s
    return c.map .nonInteger
  else if ed.fltOnly then do
    let c ← firstRefused charIsFltOnly s
    return c.map .nonFloat
  else return none

/-- Move up what is behind the cursor, where `AG_EditablePaste` does. -/
def makeRoom (ed : Editable) (buf : EditableBuffer) (s : List UInt32)
    (count : Nat) : Except Stop (List UInt32) :=
  if 0 ≤ ed.pos ∧ ed.pos < buf.len then
    inBounds (moveCells? s (ed.pos + count) ed.pos (buf.len - ed.pos).toNat)
  else .ok s

/-- Put `new` at the cursor of a buffer that has room. -/
def pasteCells (ed : Editable) (buf : EditableBuffer)
    (new : List UInt32) : Except Stop (Editable × EditableBuffer) := do
  let s ← pointee buf.s
  let s ← makeRoom ed buf s new.length
  let s ← inBounds (copyCells? s ed.pos new)
  let s ← inBounds (copyCells? s (buf.len + new.length : Nat) [0])
  return ({ ed with pos := ed.pos + new.length },
    { buf with s := some s, len := buf.len + new.length })

/-- `AG_EditablePaste` -/
def editablePaste (allocation : Allocation) (fresh : Nat → UInt32) (ed : Editable)
    (buf : EditableBuffer) (cb : EditableClipboard) : Except Stop Edited :=
  if ed.readOnly then return ⟨.ignored, ed, buf, cb⟩
  else do
    let (ed, buf) ← deleteSelected ed buf
    match cb.s with
    | none => return ⟨.done, ed, buf, cb⟩
    | some s =>
      let s ← pastedLines ed s
      let cb := { cb with s := some s }
      match ← refusedByMode ed s with
      | some error => return ⟨.failed error, ed, buf, cb⟩
      | none =>
        match ← growBuffer allocation fresh ed buf s cb.len with
        | .error error => return ⟨.failed error, ed, buf, cb⟩
        | .ok buf =>
          let new ← readCells s 0 cb.len
          let (ed, buf) ← pasteCells ed buf new
          return ⟨.done, ed, buf, cb⟩

end Agar.Gui
