import Agar.Gui.Editable
import Agar.Core.Text

namespace Agar.Gui

open Agar.Lib
open Agar.Core

/-!
# Keystrokes in editable fields

A keystroke gets the working buffer of a field, imported from the bound
variable unless the field keeps it, has the function of the key edit it, and
commits the buffer to the variable where that function returns 1.

What moves the cursor only is a parameter, as are the tables of LATIN-1
combinations and of compositions.  The requests for memory of one keystroke
are answered one by one; `__APPLE__` is not defined.
-/

/-! ## Bound variables and allocators -/

/-- The variable that a field is bound to -/
inductive Binding where
  /-- `text`: the entry of an `AG_Text` for the field's language -/
  | text (te : TextEnt)
  /-- `string`: a buffer of a fixed size -/
  | string (data : List UInt8)
  deriving DecidableEq

/-- The answers to the requests for memory, and what new characters are -/
structure Requests where
  /-- `TryMalloc` of the handle in `GetBuffer` -/
  handle : Allocation
  /-- the characters of the working buffer in `GetBuffer` -/
  working : Allocation
  /-- `AG_EditableCopyChunk` -/
  chunk : Allocation
  /-- `AG_EditableGrowBuffer` -/
  growth : Allocation
  /-- `AG_TextRealloc` in `CommitBuffer` -/
  entry : Allocation
  fresh : Nat → UInt32

/-- A field with its own buffer, what it is bound to, and the clipboards -/
structure Field where
  ed : Editable
  sBuf : EditableBuffer
  binding : Binding
  clipbrd : EditableClipboard
  killring : EditableClipboard
  deriving DecidableEq

/-- What `AG_ImportUnicode` and `AG_ExportUnicode` take an encoding for -/
def encodingOf (encoding : List UInt8) : Encoding :=
  if encoding = ascii "UTF-8" then .utf8
  else if encoding = ascii "US-ASCII" then .usAscii
  else .unknown

/-! ## The working buffer -/

/-- `sizeof(AG_EditableBuffer)` -/
def editableBufferSize : Nat := 40

/-- The buffer of a handle that was just allocated -/
def newBuffer : EditableBuffer where
  s := none
  len := 0
  maxLen := 0
  reallocable := false
  infoSize := 0

/-- Have `AG_ImportUnicode` make the characters of a buffer, or `NULL`. -/
def importBuffer (requests : Requests) (buf : EditableBuffer) (encoding : Encoding)
    (bytes : List UInt8) : Except Stop (Bool × EditableBuffer) := do
  match ← importUnicode encoding requests.working bytes with
  | none => return (false, buf)
  | some imported =>
    return (true,
      { buf with
        s := some (resize requests.fresh (imported.outSize / 4) imported.ucs)
        len := imported.outLen
        maxLen := imported.outSize })

/--
`GetBuffer`: whether it returns a buffer, and the buffer, which is that of the
field in exclusive mode
-/
def getBuffer (requests : Requests) (field : Field) : Except Stop (Bool × EditableBuffer) :=
  if field.ed.excl = false ∧ requests.handle.grants editableBufferSize = false then
    return (false, newBuffer)
  else
    let buf := if field.ed.excl then field.sBuf else newBuffer
    match field.binding with
    | .text te =>
      let buf := { buf with reallocable := true, infoSize := 0 }
      match buf.s, te.buf with
      | some _, _ => return (true, buf)
      | none, some bytes => importBuffer requests buf .utf8 bytes
      | none, none =>
        if requests.working.grants 4 then return (true, { buf with s := some [0], len := 0 })
        else return (false, { buf with len := 0 })
    | .string data =>
      let buf := { buf with reallocable := false, infoSize := data.length }
      match buf.s with
      | some _ => return (true, buf)
      | none => importBuffer requests buf (encodingOf field.ed.encoding) data

/-- Why `CommitBuffer` does not store a buffer -/
inductive CommitError where
  | badCharacter
  | outOfMemory
  | notExported
  deriving Repr, DecidableEq

/-- `AG_ExportUnicode` of a buffer to `dst`, by `CommitBuffer` -/
def exportBuffer (ed : Editable) (s : List UInt32) (dst : List UInt8) (dstSize : Nat) :
    Except Stop (Option CommitError × List UInt8) := do
  let (result, dst) ← exportUnicode (encodingOf ed.encoding) dst s dstSize
  return (if result = -1 then some .notExported else none, dst)

/-- `CommitBuffer`: why it fails, if it does, and the bound variable then -/
def commitBuffer (requests : Requests) (ed : Editable) (buf : EditableBuffer) :
    Binding → Except Stop (Option CommitError × Binding)
  | .text te => do
      let s ← pointee buf.s
      match ← lengthUTF8FromUCS4 s with
      | none => return (some .badCharacter, .text te)
      | some len =>
        let lenEnc := len + 1
        if te.maxLen < lenEnc ∧ requests.entry.grants lenEnc = false then
          return (some .outOfMemory, .text te)
        else
          let te :=
            if te.maxLen < lenEnc then te.realloc requests.entry.fresh lenEnc else te
          match te.buf with
          | none => .error .undefined
          | some dst =>
            let (error, dst) ← exportBuffer ed s dst (te.maxLen + 1)
            return (error, .text { te with buf := some dst })
  | .string data => do
      let s ← pointee buf.s
      let (error, data) ← exportBuffer ed s data data.length
      return (error, .string data)

/-! ## Inserting a character -/

/-- `struct ag_key_mapping` -/
structure KeyMapping where
  key : Nat
  modmask : UInt32
  unicode : UInt32

/-- `struct ag_key_composition` -/
structure KeyComposition where
  comp : UInt32
  key : UInt32
  res : UInt32

/-- `agKeymapLATIN1` up to its last entry, `agCompositionMap`, `agTextComposition` -/
structure KeyTables where
  latin1 : List KeyMapping
  compositions : List KeyComposition
  textComposition : Bool

/-- The arguments of `ProcessKey` -/
structure Stroke where
  ks : Nat
  kmod : UInt32
  unicode : UInt32
  deriving DecidableEq

/-- `AG_KEYMOD_ALT` -/
def keymodAlt : UInt32 := 0x300

/-- `AG_KEYMOD_SHIFT` -/
def keymodShift : UInt32 := 0x3

/-- The character of a key, where a LATIN-1 combination does not replace it -/
def latin1Char (stroke : Stroke) : List KeyMapping → UInt32
  | [] => stroke.unicode
  | km :: rest =>
    if stroke.ks = km.key ∧ (stroke.kmod &&& keymodAlt ≠ 0 ∧ stroke.kmod &&& keymodShift ≠ 0 ∧
            km.modmask = keymodAlt ||| keymodShift ∨
          stroke.kmod &&& keymodAlt ≠ 0 ∧ km.modmask = keymodAlt) then
      km.unicode
    else latin1Char stroke rest

/-- `AG_KeyInputCompose`: the characters to insert, and `compose` then -/
def keyInputCompose (compositions : List KeyComposition)
    (compose key : UInt32) : List UInt32 × UInt32 :=
  if compose ≠ 0 then
    match compositions.find? fun entry =>
        entry.comp = compose ∧ entry.key = key with
    | some entry => ([entry.res], 0)
    -- `compose` is reset before it is stored
    | none => ([0, key], 0)
  else if compositions.any fun entry => entry.comp = key then ([], key)
  else ([key], compose)

/-- What `Insert` inserts, nothing where it returns 0 before; and `compose` then -/
def insertedChars (tables : KeyTables) (ed : Editable) (stroke : Stroke) : List UInt32 × UInt32 :=
  if stroke.ks = 0 then ([], ed.compose)
  else
    let uch :=
      if ed.noLatin1 then stroke.unicode else latin1Char stroke tables.latin1
    if uch = 0 then ([], ed.compose)
    else
      let uch := if uch = 13 then 10 else uch
      if equalsNoCase ed.encoding (ascii "US-ASCII") ∧ 0x80 ≤ uch then ([], ed.compose)
      else if tables.textComposition then keyInputCompose tables.compositions ed.compose uch
      else ([uch], ed.compose)

/-- Append characters, or put them at the cursor, as `Insert` does. -/
def placeCells (ed : Editable) (buf : EditableBuffer)
    (s new : List UInt32) : Except Stop (List UInt32) :=
  if ed.pos = buf.len then inBounds (copyCells? s buf.len new)
  else do
    let s ← inBounds (moveCells? s (ed.pos + new.length) ed.pos (buf.len - ed.pos).toNat)
    inBounds (copyCells? s ed.pos new)

/-- Insert characters into a buffer that has room. -/
def insertCells (ed : Editable) (buf : EditableBuffer)
    (new : List UInt32) : Except Stop (Editable × EditableBuffer) := do
  let s ← pointee buf.s
  let s ← placeCells ed buf s new
  let s ← inBounds (copyCells? s (buf.len + new.length : Nat) [0])
  return ({ ed with pos := ed.pos + new.length },
    { buf with s := some s, len := buf.len + new.length })

/-- `Insert` -/
def insertKey (requests : Requests) (tables : KeyTables) (ed : Editable) (buf : EditableBuffer)
    (stroke : Stroke) : Except Stop (Verdict × Editable × EditableBuffer) :=
  let (ins, compose) := insertedChars tables ed stroke
  let ed := { ed with compose := compose }
  if ins = [] then return (.ignored, ed, buf)
  else do
    let (ed, buf) ← deleteSelected ed buf
    match ← growBuffer requests.growth requests.fresh ed buf (ins ++ [0]) ins.length with
    | .error error => return (.failed error, ed, buf)
    | .ok buf =>
      let (ed, buf) ← insertCells ed buf ins
      return (.done, ed, buf)

/-! ## The other functions of keys that edit -/

/-- `AG_KEY_BACKSPACE` -/
def keyBackspace : Nat := 0x08

/-- The loop of `Delete`: move `count` characters down, or up to a NUL. -/
def shiftDown : Nat → List UInt32 → Except Stop (List UInt32)
  | 0, cells => .ok cells
  | count + 1, _ :: next :: rest =>
    if next = 0 then .ok (next :: next :: rest)
    else do
      let shifted ← shiftDown count (next :: rest)
      return next :: shifted
  | _ + 1, _ => .error .undefined

/-- Delete the character at the cursor, or the one before it, as `Delete` does. -/
def deleteChar (ed : Editable) (buf : EditableBuffer)
    (s : List UInt32) : Except Stop (Verdict × Editable × EditableBuffer) :=
  if 0 ≤ ed.pos ∧ ed.pos ≤ s.length then do
    let shifted ← shiftDown (buf.len + 1 - ed.pos).toNat (s.drop ed.pos.toNat)
    return (.done, ed,
      { buf with s := some (s.take ed.pos.toNat ++ shifted), len := buf.len - 1 })
  else .error .undefined

/-- `Delete` -/
def deleteKey (ed : Editable) (buf : EditableBuffer)
    (ks : Nat) : Except Stop (Verdict × Editable × EditableBuffer) :=
  if buf.len = 0 then return (.ignored, ed, buf)
  else if ed.sel ≠ 0 then do
    let (_, ed, buf) ← editableDelete ed buf
    return (.done, ed, buf)
  else if ks = keyBackspace ∧ ed.pos = 0 then return (.ignored, ed, buf)
  else do
    let s ← pointee buf.s
    if ed.pos = buf.len then
      let s ← inBounds (copyCells? s (buf.len - 1 : Nat) [0])
      return (.done, { ed with pos := ed.pos - 1 }, { buf with s := some s, len := buf.len - 1 })
    else deleteChar (if ks = keyBackspace then { ed with pos := ed.pos - 1 } else ed) buf s

/-- The selection that `Kill` cuts: that of the field, or the rest of the line. -/
def killedSelection (ed : Editable) (buf : EditableBuffer) : Except Stop Editable :=
  if ed.sel ≠ 0 then return (ed.validateSelection buf).normSelection
  else do
    let s ← pointee buf.s
    let behind ← readCells s ed.pos (buf.len - ed.pos).toNat
    return { ed with sel := (behind.takeWhile (· ≠ 10)).length }

/-- `Kill` -/
def killKey (chunk : Allocation) (ed : Editable) (buf : EditableBuffer)
    (killring : EditableClipboard) : Except Stop Edited := do
  let killed ← killedSelection ed buf
  if ed.sel = 0 ∧ killed.sel = 0 then return ⟨.ignored, ed, buf, killring⟩
  else
    let s ← pointee buf.s
    let killring ← copyChunk chunk killring s killed.pos killed.sel.toNat
    let (_, ed, buf) ← editableDelete killed buf
    return ⟨.done, ed, buf, killring⟩

/-- `AG_EditableSelectAll` -/
def editableSelectAll (ed : Editable) (buf : EditableBuffer) : Editable :=
  { ed with pos := 0, sel := toInt buf.len }

/-! ## The key map -/

/-- The functions of `agKeymap` -/
inductive KeyFunction where
  | wordBack
  | wordForw
  | selectAll
  | copy
  | cut
  | paste
  | kill
  | yank
  | cursorHome
  | cursorEnd
  | cursorLeft
  | cursorRight
  | cursorUp
  | cursorDown
  | pageUp
  | pageDown
  | delete
  | insert
  deriving Repr, DecidableEq

/-- `struct ag_keycode`; the key is none for `AG_KEY_LAST` -/
structure KeyCode where
  key : Option Nat
  modFlags : String
  func : KeyFunction
  flags : String

/-- `agKeymap` -/
def agKeymap : List KeyCode := [⟨some 0x0114, "C", .wordBack, ""⟩,
  ⟨some 0x0113, "C", .wordForw, ""⟩,
  ⟨some 0x0061, "C", .selectAll, ""⟩,
  ⟨some 0x0063, "C", .copy, ""⟩,
  ⟨some 0x0078, "C", .cut, "w"⟩,
  ⟨some 0x0076, "C", .paste, "w"⟩,
  ⟨some 0x006b, "C", .kill, "we"⟩,
  ⟨some 0x0079, "C", .yank, "we"⟩,
  ⟨some 0x0116, "", .cursorHome, ""⟩,
  ⟨some 0x0117, "", .cursorEnd, ""⟩,
  ⟨some 0x0114, "", .cursorLeft, ""⟩,
  ⟨some 0x0113, "", .cursorRight, ""⟩,
  ⟨some 0x0111, "", .cursorUp, ""⟩,
  ⟨some 0x0112, "", .cursorDown, ""⟩,
  ⟨some 0x0118, "", .pageUp, ""⟩,
  ⟨some 0x0119, "", .pageDown, ""⟩,
  ⟨some 0x0008, "", .delete, "w"⟩,
  ⟨some 0x007f, "", .delete, "w"⟩,
  ⟨none, "", .insert, "w"⟩]

/-- `AG_CompareKeyMods` -/
def compareKeyMods (modState : UInt32) (flags : String) : Bool :=
  flags.toList.any fun c =>
    c = 'C' && modState &&& 0xc0 ≠ 0 ||
    c = 'A' && modState &&& 0x300 ≠ 0 ||
    c = 'S' && modState &&& 0x3 ≠ 0 ||
    c = 'M' && modState &&& 0xc00 ≠ 0

/-- The first entry of the key map that a keystroke matches -/
def keyCode (stroke : Stroke) : Option KeyCode :=
  agKeymap.find? fun kc =>
    kc.key.all fun key =>
      key = stroke.ks && (kc.modFlags.isEmpty || compareKeyMods stroke.kmod kc.modFlags)

/-! ## Processing -/

/-- What a function of a key returns, and what it leaves -/
structure Ran where
  verdict : Verdict
  ed : Editable
  buf : EditableBuffer
  clipbrd : EditableClipboard
  killring : EditableClipboard

/-- What the functions that move the cursor do to a field -/
abbrev Seek := KeyFunction → Stroke → Editable → EditableBuffer → Editable

/-- Call the function of a key. -/
def runKey (requests : Requests) (tables : KeyTables) (seek : Seek) (field : Field) (ed : Editable)
    (buf : EditableBuffer) (stroke : Stroke) : KeyFunction → Except Stop Ran
  | .copy => do
      let copied ← editableCopy requests.chunk ed buf field.clipbrd
      return ⟨.ignored, copied.ed, copied.buf, copied.cb, field.killring⟩
  | .cut => do
      let cut ← editableCut requests.chunk ed buf field.clipbrd
      return ⟨cut.verdict, cut.ed, cut.buf, cut.cb, field.killring⟩
  | .paste => do
      let pasted ← editablePaste requests.growth requests.fresh ed buf field.clipbrd
      return ⟨pasted.verdict, pasted.ed, pasted.buf, pasted.cb, field.killring⟩
  | .kill => do
      let killed ← killKey requests.chunk ed buf field.killring
      return ⟨killed.verdict, killed.ed, killed.buf, field.clipbrd, killed.cb⟩
  | .yank => do
      let pasted ← editablePaste requests.growth requests.fresh ed buf field.killring
      return ⟨pasted.verdict, pasted.ed, pasted.buf, field.clipbrd, pasted.cb⟩
  | .delete => do
      let (verdict, ed, buf) ← deleteKey ed buf stroke.ks
      return ⟨verdict, ed, buf, field.clipbrd, field.killring⟩
  | .insert => do
      let (verdict, ed, buf) ← insertKey requests tables ed buf stroke
      return ⟨verdict, ed, buf, field.clipbrd, field.killring⟩
  | .selectAll => return ⟨.ignored, editableSelectAll ed buf, buf, field.clipbrd, field.killring⟩
  | motion => return ⟨.ignored, seek motion stroke ed buf, buf, field.clipbrd, field.killring⟩

/-- How a request to edit a field ends -/
inductive Outcome where
  /-- `ProcessKey` returns 0 before it gets a buffer. -/
  | notTaken
  /-- `GetBuffer` returns `NULL`. -/
  | noBuffer
  /-- A function returned, and `CommitBuffer` failed where it was called. -/
  | ran (verdict : Verdict) (notStored : Option CommitError)
  deriving Repr, DecidableEq

/-- Commit a buffer where a function returned 1. -/
def commitDone (requests : Requests) (field : Field)
    (ran : Ran) : Except Stop (Option CommitError × Binding) :=
  if ran.verdict = .done then commitBuffer requests ran.ed ran.buf field.binding
  else return (none, field.binding)

/-- Commit a buffer, if there is something to, and release it. -/
def finish (requests : Requests) (field : Field) (ran : Ran) : Except Stop (Outcome × Field) := do
  let (notStored, binding) ← commitDone requests field ran
  return (.ran ran.verdict notStored,
    { ed := ran.ed
      sBuf := if field.ed.excl then ran.buf else field.sBuf
      binding := binding
      clipbrd := ran.clipbrd
      killring := ran.killring })

/-- The field where `GetBuffer` returned no buffer -/
def withoutBuffer (field : Field) (buf : EditableBuffer) : Outcome × Field :=
  (.noBuffer, { field with sBuf := if field.ed.excl then buf else field.sBuf })

/-- What `ProcessKey` returns 0 for at once -/
def notTaken (ed : Editable) (stroke : Stroke) : Bool :=
  -- `AG_KEY_ESCAPE`, `AG_KEY_RETURN`, `AG_KEY_KP_ENTER`
  stroke.ks = 0x1b ||
  (stroke.ks = 0x0d || stroke.ks = 0x010f) && !ed.multiline ||
  stroke.kmod = 0 && (32 ≤ stroke.ks && stroke.ks ≤ 126) &&
    (ed.intOnly && !charIsIntOnly (UInt32.ofNat stroke.ks) ||
      ed.fltOnly && !charIsFltOnly (UInt32.ofNat stroke.ks))

/-- The cursor, brought into the text of a buffer -/
def clampCursor (pos : Int) (len : Nat) : Int :=
  if pos < 0 then 0
  else if (len : Int) < pos then toInt len
  else pos

/-- `ProcessKey` -/
def processKey (requests : Requests) (tables : KeyTables) (seek : Seek) (field : Field)
    (stroke : Stroke) : Except Stop (Outcome × Field) :=
  if notTaken field.ed stroke then return (.notTaken, field)
  else do
    let (got, buf) ← getBuffer requests field
    if got = false then return withoutBuffer field buf
    else
      let ed := { field.ed with pos := clampCursor field.ed.pos buf.len }
      match keyCode stroke with
      | none => .error .undefined
      | some kc =>
        if 'w' ∈ kc.flags.toList ∧ ed.readOnly ∨ 'e' ∈ kc.flags.toList ∧ ed.noEmacs then
          finish requests field ⟨.ignored, ed, buf, field.clipbrd, field.killring⟩
        else do
          let ran ← runKey requests tables seek field ed buf stroke kc.func
          finish requests field ran

/-- `MenuPaste` -/
def menuPaste (requests : Requests) (field : Field) : Except Stop (Outcome × Field) := do
  let (got, buf) ← getBuffer requests field
  if got = false then return withoutBuffer field buf
  else
    let pasted ← editablePaste requests.growth requests.fresh field.ed buf field.clipbrd
    finish requests field ⟨pasted.verdict, pasted.ed, pasted.buf, pasted.cb, field.killring⟩

end Agar.Gui
