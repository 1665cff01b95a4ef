import Agar.Core.Serialization

namespace Agar.Core

open Agar.Lib

/-!
# Internationalised text

An `AG_Text` has an entry for every language, with the buffer of its string,
the size and the length that are kept beside it, and an active language.  The
functions that set an entry give it a buffer that is just large enough.
Reading a string behind the end of its buffer has no defined result.
-/

/-- `AG_LANG_LAST` -/
abbrev langLast : Nat := 140

/-- `enum ag_language`, by its values below `AG_LANG_LAST` -/
abbrev Language := Fin langLast

/-- `AG_LANG_NONE` -/
def langNone : Language := 0

/-- `AG_TEXT_SAVED_FLAGS` -/
def textSavedFlags : UInt32 := 0

/-- `AG_TextEnt` -/
structure TextEnt where
  buf : Option (List UInt8)
  maxLen : Nat
  len : Nat
  deriving DecidableEq

/-- `AG_Text`, without its lock -/
structure AgText where
  ent : Language → TextEnt
  lang : Language
  maxLen : Nat
  flags : UInt32

/-- The string in a buffer, which `strlen` and `strdup` read to its end. -/
def stringIn (buf : List UInt8) : Except Stop (List UInt8) :=
  if 0 ∈ buf then .ok (cString buf) else .error .undefined

namespace TextEnt

/-- An entry without a buffer -/
def empty : TextEnt where
  buf := none
  maxLen := 0
  len := 0

/-- The entry that has a string, in a buffer of its size. -/
def ofString (s : List UInt8) : TextEnt where
  buf := some (s ++ [0])
  maxLen := s.length + 1
  len := s.length

/-- What the functions that set an entry make it: a string, or `NULL` -/
def set (s : Option (List UInt8)) : TextEnt := s.elim empty ofString

/-- The text of an entry, if it has one. -/
def text (te : TextEnt) : Option (List UInt8) := te.buf.map cString

/-- `AG_TextRealloc`, which is granted; `fresh` is what new memory holds -/
def realloc (te : TextEnt) (fresh : Nat → UInt8) (maxLenNew : Nat) : TextEnt :=
  if maxLenNew ≥ te.maxLen then
    { te with
      buf := some (resize fresh maxLenNew (te.buf.getD []))
      maxLen := maxLenNew
    }
  else te

/-- `memcpy` to the buffer -/
def copy (te : TextEnt) (start : Nat) (bytes : List UInt8) : Except Stop TextEnt :=
  match te.buf with
  | some buf =>
    if start + bytes.length ≤ buf.length then .ok { te with buf := some (splice buf start bytes) }
    else .error .undefined
  | none => .error .undefined

end TextEnt

namespace AgText

/-- `AG_TextInit` -/
def init (maxLen : Nat) : AgText where
  ent _ := .empty
  lang := langNone
  maxLen := if maxLen ≠ 0 then maxLen else 2 ^ 31 - 2
  flags := 0

/-- Change the entry of a language. -/
def setEnt (txt : AgText) (lang : Language) (te : TextEnt) : AgText :=
  { txt with ent := Function.update txt.ent lang te }

@[simp] theorem setEnt_self (txt : AgText) (lang : Language) (te : TextEnt) :
    (txt.setEnt lang te).ent lang = te :=
  Function.update_self ..

theorem setEnt_other (txt : AgText) {lang other : Language} (different : other ≠ lang)
    (te : TextEnt) : (txt.setEnt lang te).ent other = txt.ent other :=
  Function.update_of_ne different ..

/-- The text of a language, if it has one. -/
def text (txt : AgText) (lang : Language) : Option (List UInt8) := (txt.ent lang).text

theorem text_setEnt_other (txt : AgText) {lang other : Language} (different : other ≠ lang)
    (te : TextEnt) : (txt.setEnt lang te).text other = txt.text other :=
  congrArg TextEnt.text (txt.setEnt_other different te)

/-- `AG_TextClear` -/
def clear (txt : AgText) : AgText := { txt with ent := fun _ => .empty }

/--
`AG_TextSet` of a formatted string, or of `NULL`, with the status; where
formatting succeeds the function returns without setting the text
-/
def set (txt : AgText) (s : Option (List UInt8)) : AgText × Int :=
  match s with
  | some _ => (txt, -1)
  | none => (txt.setEnt txt.lang (.set none), 0)

/-- `AG_TextSetEnt` of a formatted string -/
def setEntF (txt : AgText) (lang : Language) (s : List UInt8) : AgText × Int :=
  (txt.setEnt lang (.set (some s)), 0)

/-- `AG_TextSetEntS` -/
def setEntS (txt : AgText) (lang : Language) (s : Option (List UInt8)) : AgText × Int :=
  (txt.setEnt lang (.set s), 0)

/-- `AG_TextSetS` -/
def setS (txt : AgText) (s : Option (List UInt8)) : AgText × Int := txt.setEntS txt.lang s

/-- `AG_TextSetLang` -/
def setLang (txt : AgText) (lang : Language) : AgText := { txt with lang := lang }

/-- `AG_TextCatS` -/
def catS (txt : AgText) (fresh : Nat → UInt8) (s : List UInt8) : Except Stop (AgText × Int) := do
  let te := (txt.ent txt.lang).realloc fresh ((txt.ent txt.lang).len + s.length + 1)
  let te ← te.copy te.len (s ++ [0])
  return (txt.setEnt txt.lang { te with len := te.len + s.length }, 0)

/-- `AS_StringCatBytes` -/
def catBytes (txt : AgText) (fresh : Nat → UInt8)
    (s : List UInt8) : Except Stop (AgText × Int) := do
  let te := (txt.ent txt.lang).realloc fresh ((txt.ent txt.lang).len + s.length + 1)
  -- no terminator is copied
  let te ← te.copy te.len s
  return (txt.setEnt txt.lang { te with len := te.len + s.length }, 0)

/-- The loop of `AG_TextDup` over the languages -/
def dupEntries (src : AgText) : List Language → AgText → Except Stop AgText
  | [], dst => .ok dst
  | lang :: rest, dst =>
    match (src.ent lang).buf with
    | some buf => do
        let s ← stringIn buf
        src.dupEntries rest (dst.setEnt lang (.ofString s))
    | none => src.dupEntries rest dst

/-- The new text of `AG_TextDup`, with the settings of the old one -/
def dupSettings (src : AgText) : AgText :=
  { init src.maxLen with
    lang := src.lang
    flags := (init src.maxLen).flags &&& ~~~ textSavedFlags ||| src.flags &&& textSavedFlags
  }

/-- `AG_TextDup` -/
def dup (src : AgText) : Except Stop AgText :=
  src.dupEntries (List.finRange langLast) src.dupSettings

/-! ## Archives -/

/-- The number of languages that `AG_TextSave` counts -/
def count (txt : AgText) : Nat :=
  (List.finRange langLast).countP fun lang => (txt.ent lang).buf.isSome

/-- The second loop of `AG_TextSave` -/
def saveEntries (txt : AgText) : List Language → DataSource → Except Stop DataSource
  | [], ds => .ok ds
  | lang :: rest, ds =>
    match (txt.ent lang).buf with
    | some buf => do
        let ds ← ds.writeUint32 (UInt32.ofNat lang)
        let s ← stringIn buf
        let ds ← ds.writeString s
        txt.saveEntries rest ds
    | none => txt.saveEntries rest ds

/-- `AG_TextSave` -/
def save (txt : AgText) (ds : DataSource) : Except Stop DataSource := do
  let ds ← ds.writeUint8 (UInt8.ofNat txt.count)
  let ds ← txt.saveEntries (List.finRange langLast) ds
  ds.writeUint32 (txt.flags &&& textSavedFlags)

/-- The loop of `AG_TextLoad`, with the allocator's answer -/
def loadEntries (allocation : Allocation) :
    Nat → AgText → DataSource → Except Stop (Int × AgText × DataSource)
  | 0, txt, ds => .ok (0, txt, ds)
  | count + 1, txt, ds => do
      let (code, ds) ← ds.readUint32
      if known : code.toNat < langLast then do
        let (buf, ds) ← ds.readStringLen allocation txt.maxLen
        let s ← stringIn buf
        loadEntries allocation count (txt.setEnt ⟨code.toNat, known⟩
            { buf := some buf, maxLen := s.length + 1, len := s.length }) ds
      else return (-1, txt, ds)

/-- `AG_TextLoad`, with the allocator's answer -/
def load (txt : AgText) (allocation : Allocation)
    (ds : DataSource) : Except Stop (Int × AgText × DataSource) := do
  let (count, ds) ← ds.readUint8
  if count.toNat ≥ langLast then return (-1, txt, ds)
  else do
    let (status, txt, ds) ← loadEntries allocation count.toNat txt.clear ds
    if status = 0 then do
      let (flags, ds) ← ds.readUint32
      return (0, { txt with
        flags := txt.flags &&& ~~~ textSavedFlags ||| flags &&& textSavedFlags
      }, ds)
    else return (-1, txt, ds)

end AgText

end Agar.Core
