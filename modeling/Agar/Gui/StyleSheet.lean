import Agar.Core.Variable
import Agar.Lib.ScannedMemory

namespace Agar.Gui.StyleSheet

open Agar.Lib
open Agar.Core

/-!
# Style sheets

A style sheet is read line by line: a line with an opening brace begins a block,
one with a closing brace ends it, and others hold a key and a value.  The lines
and the tokens on them are taken apart in the buffer that the file was read into.
-/

/-! ## The data model -/

/-- `AG_STYLE_VALUE_MAX` -/
abbrev styleValueMax : Nat := 128

local instance : NeZero styleValueMax := ⟨Nat.succ_ne_zero 127⟩

/-- The size of `match` in `struct ag_style_block` -/
abbrev styleMatchMax : Nat := 64

local instance : NeZero styleMatchMax := ⟨Nat.succ_ne_zero 63⟩

/-- `struct ag_style_entry` -/
structure StyleEntry where
  key : CString variableNameMax
  value : CString styleValueMax
  deriving DecidableEq

/-- `struct ag_style_block` -/
structure StyleBlock where
  pattern : CString styleMatchMax
  ents : List StyleEntry
  deriving DecidableEq

/-- How many addresses there are -/
def addresses : Nat := 2 ^ 64

/-- A file, or the data of a built-in sheet, that fits in memory -/
structure StyleFile where
  bytes : List UInt8
  fits : bytes.length + 1 < addresses

/-- What the `css` of a widget points to -/
inductive Attached where
  | null
  | sheet (css : List StyleBlock)
  | freed
  deriving DecidableEq

/--
What `AG_LoadStyleSheet` returns, what the `css` of its target points to then,
and the global default
-/
structure Loaded where
  returned : Option (List StyleBlock)
  css : Option Attached
  agDefaultCSS : List StyleBlock
  deriving DecidableEq

/-! ## Strings in the buffer -/

/-- `isspace` -/
def isSpace (c : UInt8) : Bool := c = 32 || (9 ≤ c && c ≤ 13)

/-- An access outside the buffer is undefined. -/
def checked {α : Type} : Option α → Except Stop α
  | none => .error .undefined
  | some found => .ok found

/-- `*c` -/
def byteAt (buf : List UInt8) (c : Nat) : Except Stop UInt8 := checked buf[c]?

/-- `while (isspace(*c)) { c++; }` -/
def skipSpaces (buf : List UInt8) (c : Nat) : Except Stop Nat :=
  checked (scan (fun byte => !isSpace byte) buf c)

/-- `strlen` -/
def strlen (buf : List UInt8) (c : Nat) : Except Stop Nat := do
  let stop ← checked (scan (· = 0) buf c)
  return stop - c

/-- What `Strlcpy` copies from a position -/
def stringAt (buf : List UInt8) (c : Nat) : Except Stop (List UInt8) := do
  let len ← strlen buf c
  return (buf.drop c).take len

/-- `strchr` -/
def strchr (buf : List UInt8) (c : Nat) (ch : UInt8) : Except Stop (Option Nat) := do
  let t ← checked (scan (fun byte => byte = ch || byte = 0) buf c)
  return if buf[t]? = some ch then some t else none

/--
`AG_Strsep`: the buffer, and what `*stringp` points to then.  The token is where
it pointed before.
-/
def strsep (delim : List UInt8) (buf : List UInt8)
    (s : Nat) : Except Stop (List UInt8 × Option Nat) := do
  let t ← checked (scan (fun byte => byte = 0 || byte ∈ delim) buf s)
  if buf[t]? = some 0 then return (buf, none) else return (buf.set t 0, some (t + 1))

/--
The loop that overwrites whitespace at the end of a string.  It starts at
`strlen(cKey)-1`, which for an empty string is the largest `size_t`.
-/
def trimEnd (buf : List UInt8) (c : Nat) : Except Stop (List UInt8) := do
  let length ← strlen buf c
  let len := (length + (addresses - 1)) % addresses
  checked (clearBack isSpace 0 buf ((c + len) % addresses + 1))

/-! ## Lines -/

/-- How the turn of the loop of `AG_LoadStyleSheet` at a line ends. -/
inductive Turn where
  | next (buf : List UInt8) (css : List StyleBlock) (cssBlk : Option StyleBlock)
  | failParse

/-- The turn of the loop at a line with an opening brace at `t` -/
def openBlock (buf : List UInt8) (c t : Nat)
    (css : List StyleBlock) : Option StyleBlock → Except Stop Turn
  | some _ => return .failParse
  | none => do
      let t ← checked (scanBack isSpace buf t)
      let buf := buf.set t 0
      let text ← stringAt buf c
      return .next buf css (some ⟨.strlcpy text, []⟩)

/-- The turn of the loop at a line with a closing brace -/
def closeBlock (buf : List UInt8) (css : List StyleBlock) : Option StyleBlock → Turn
  | none => .failParse
  | some cssBlk => .next buf (css ++ [cssBlk]) none

/-- The turn of the loop at a line with a key and a value, from their tokens on -/
def setEntry (buf : List UInt8) (cKey cVal : Nat) (css : List StyleBlock)
    (cssBlk : Option StyleBlock) : Except Stop Turn := do
  let cKey ← skipSpaces buf cKey
  let cVal ← skipSpaces buf cVal
  let buf ← trimEnd buf cKey
  let buf ← trimEnd buf cVal
  let key ← stringAt buf cKey
  let value ← stringAt buf cVal
  if key = [] ∨ value = [] then return .next buf css cssBlk
  else
    match cssBlk with
    | none => .error .undefined
    | some blk =>
      let cssEnt := ⟨.strlcpy key, .strlcpy value⟩
      return .next buf css (some { blk with ents := blk.ents ++ [cssEnt] })

/-- The turn of the loop at a line without braces -/
def readTokens (buf : List UInt8) (c : Nat) (css : List StyleBlock)
    (cssBlk : Option StyleBlock) : Except Stop Turn := do
  match ← strsep [58, 61] buf c with
  | (buf, none) => return .next buf css cssBlk
  | (buf, some cVal) => do
      let (buf, _) ← strsep [58, 61] buf cVal
      setEntry buf c cVal css cssBlk

/-- The turn of the loop of `AG_LoadStyleSheet` at a line -/
def readLine (buf : List UInt8) (line : Nat) (css : List StyleBlock)
    (cssBlk : Option StyleBlock) : Except Stop Turn := do
  let c ← skipSpaces buf line
  let first ← byteAt buf c
  if first = 0 ∨ first = 35 then return .next buf css cssBlk
  else
    match ← strchr buf c 123 with
    | some t => openBlock buf c t css cssBlk
    | none =>
      match ← strchr buf c 125 with
      | some _ => return closeBlock buf css cssBlk
      | none => readTokens buf c css cssBlk

/-- The loop of `AG_LoadStyleSheet` over the lines -/
def readLines : Nat → List UInt8 → Nat → List StyleBlock → Option StyleBlock →
      Except Stop (Option (List StyleBlock))
  | 0, _, _, _, _ => .error .outOfFuel
  | turns + 1, buf, line, css, cssBlk => do
      let (buf, s) ← strsep [10] buf line
      match ← readLine buf line css cssBlk with
      | .failParse => return none
      | .next buf css cssBlk =>
        match s with
        | none => return some css
        | some s => readLines turns buf s css cssBlk

/-! ## Loading -/

/-- The built-in sheets, and the files that can be opened, by their paths -/
structure Sources where
  agBuiltinStyles : List (List UInt8 × StyleFile)
  openFile : List UInt8 → Option StyleFile

/-- The data source for a path, where there is one -/
def Sources.dataSource (sources : Sources) (path : List UInt8) : Option StyleFile :=
  match path with
  | 95 :: name => (sources.agBuiltinStyles.find? fun builtin => builtin.1 = name).map Prod.snd
  | path => sources.openFile path

/-- The blocks that are read from a file, or nothing where the parser fails -/
def parse (file : StyleFile) : Except Stop (Option (List StyleBlock)) :=
  readLines (file.bytes.length + 1) (file.bytes ++ [0]) 0 [] none

/-- `AG_LoadStyleSheet` for a target with the given `css`, or for the default -/
def loadStyleSheet (sources : Sources) (agDefaultCSS : List StyleBlock) (tgt : Option Attached)
    (path : List UInt8) : Except Stop Loaded := do
  -- A sheet that has been freed cannot be destroyed.
  if tgt = some .freed then .error .undefined
  let parsed ←
    match sources.dataSource path with
    | none => pure none
    | some file => parse file
  match tgt, parsed with
  | some _, some css => return ⟨some css, some (.sheet css), agDefaultCSS⟩
  | some _, none =>
    -- The sheet is freed, but `tgt->css` still points to it.
    return ⟨none, some .freed, agDefaultCSS⟩
  | none, some css => return ⟨some css, none, css⟩
  | none, none => return ⟨none, none, []⟩

end Agar.Gui.StyleSheet
