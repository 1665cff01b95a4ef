import Agar.Core.DataSource
import Agar.Lib.Buffer
import Agar.Lib.CString

namespace Agar.Web

open Agar.Lib
open Agar.Core

/-!
# The header block of a response

The status line and the headers of an HTTP response are in one buffer, one
line behind the other, with a list of the offsets at which the lines of the
headers start.  The debug messages of `WEB_EditHeader` are left out.

An access outside the buffer has no defined result, and `AG_FatalError` ends
the program.
-/

/-- `WEB_HTTP_HEADER_MAX` -/
abbrev httpHeaderMax : Nat := 1024

/-- `WEB_HTTP_PER_HEADER_MAX` -/
abbrev httpPerHeaderMax : Nat := 256

/-- `WEB_HTTP_MAXHEADERS` -/
abbrev httpMaxHeaders : Nat := 32

instance : NeZero httpPerHeaderMax := ⟨by decide⟩

/-- The size of `httpCode` in `WEB_SetCode` -/
abbrev httpCodeSize : Nat := 64

instance : NeZero httpCodeSize := ⟨by decide⟩

/-- `'\n'` -/
abbrev lineFeed : UInt8 := 10

/-- `'\r'` -/
abbrev carriageReturn : UInt8 := 13

/-- `"\r\n"` -/
abbrev crlf : List UInt8 := [carriageReturn, lineFeed]

/-- `':'` -/
abbrev colon : UInt8 := 58

/-- `' '` -/
abbrev blank : UInt8 := 32

/-- `": "` -/
abbrev separator : List UInt8 := [colon, blank]

/-- The errors that the functions of headers end the program with. -/
inductive HeaderError where
  | setCodeTooBig
  | tooManyHeaders
  | headerTooBig
  | badHeader
  | tooBig
  deriving Repr, DecidableEq

namespace HeaderError

/-- The errors that a total beyond its limit leads to. -/
def isLimit : HeaderError → Bool
  | badHeader => false
  | _ => true

end HeaderError

/-- Why a function of headers gives no result. -/
inductive HeaderStop where
  /-- Memory was accessed outside its bounds. -/
  | undefined
  /-- `AG_FatalError` was called. -/
  | fatal (error : HeaderError)
  deriving Repr, DecidableEq

/-- `headLine`, as far as `headLineCount` -/
structure HeaderLines where
  offsets : List Nat
  few : offsets.length < httpMaxHeaders
  deriving DecidableEq

namespace HeaderLines

/-- No line is listed. -/
def empty : HeaderLines where
  offsets := []
  few := by decide

/-- One line is listed. -/
def single (offset : Nat) : HeaderLines where
  offsets := [offset]
  few := by
    rw [List.length_singleton]
    decide

/-- List one more line, if `headLine` has room for yet another. -/
def push? (lines : HeaderLines) (offset : Nat) : Option HeaderLines :=
  if full : lines.offsets.length + 1 ≥ httpMaxHeaders then none
  else
    some {
      offsets := lines.offsets ++ [offset]
      few := by
        rw [List.length_append]
        exact Nat.lt_of_not_le full
    }

end HeaderLines

/-- The header block of `WEB_Query` -/
structure HeaderBlock where
  head : Buffer httpHeaderMax
  headLine : HeaderLines
  headLen : Nat
  deriving DecidableEq

/-- `strchrnul`: the offset of the first such byte of a string, or its end -/
def strchrnul (c : UInt8) : List UInt8 → Except HeaderStop Nat
  | [] => .error .undefined
  | byte :: rest =>
    if byte = c ∨ byte = 0 then .ok 0
    else do
      let offset ← strchrnul c rest
      return offset + 1

/-- `strchr` -/
def strchr (c : UInt8) (s : List UInt8) : Except HeaderStop (Option Nat) := do
  let offset ← strchrnul c s
  return if s[offset]? = some c then some offset else none

/--
The test of `WEB_SetHeaderS`: the string starts with the key, by
`strncasecmp`, and a colon and a blank follow
-/
def hasKey (key cLine : List UInt8) : Bool :=
  (cLine.take key.length).map toLower = key.map toLower ∧ cLine[key.length]? = some colon ∧
      cLine[key.length + 1]? = some blank

namespace HeaderBlock

/-- `memcpy` to the head -/
def memcpy (q : HeaderBlock) (start : Nat) (bytes : List UInt8) : Except HeaderStop HeaderBlock :=
  match q.head.copy? start bytes with
  | some head => .ok { q with head := head }
  | none => .error .undefined

/-- `memmove` inside the head -/
def memmove (q : HeaderBlock) (dst src count : Nat) : Except HeaderStop HeaderBlock :=
  match q.head.move? dst src count with
  | some head => .ok { q with head := head }
  | none => .error .undefined

/-- `memmove` inside the head, on a condition -/
def memmoveIf (q : HeaderBlock) (moves : Prop) [Decidable moves]
    (dst src count : Nat) : Except HeaderStop HeaderBlock :=
  if moves then q.memmove dst src count else .ok q

/-- `WEB_ClearHeaders` -/
def clearHeaders (q : HeaderBlock) (status : List UInt8) : Except HeaderStop HeaderBlock := do
  let len := status.length
  let q ← q.memcpy 0 (status ++ [0])
  return { q with
    headLen := len
    headLine := .single len
  }

/-- The loop of `WEB_UpdateHeaderLines`, from an offset on -/
def updateHeaderLinesFrom : List UInt8 → Nat → HeaderLines → Except HeaderStop HeaderLines
  | [], _, _ => .error .undefined
  | c :: rest, offset, lines =>
    if c = 0 then .ok lines
    else if c = lineFeed then
      match rest with
      | [] => .error .undefined
      | next :: _ =>
        if next ≠ 0 then
          match lines.push? (offset + 1) with
          | none => .ok lines
          | some lines => updateHeaderLinesFrom rest (offset + 1) lines
        else updateHeaderLinesFrom rest (offset + 1) lines
    else updateHeaderLinesFrom rest (offset + 1) lines

/-- `WEB_UpdateHeaderLines` -/
def updateHeaderLines (q : HeaderBlock) : Except HeaderStop HeaderBlock := do
  let lines ← updateHeaderLinesFrom q.head.bytes 0 .empty
  return { q with headLine := lines }

/-- `WEB_UpdateHeaderLines`, on a condition -/
def updateHeaderLinesIf (q : HeaderBlock) (updates : Prop)
    [Decidable updates] : Except HeaderStop HeaderBlock :=
  if updates then q.updateHeaderLines else .ok q

/-- The status line that `WEB_SetCode` makes -/
def httpCode (code : List UInt8) : CString httpCodeSize :=
  ((CString.strlcpy (ascii "HTTP/1.0 ")).strlcat code).strlcat crlf

/-- `WEB_SetCode` -/
def setCode (q : HeaderBlock) (code : List UInt8) : Except HeaderStop HeaderBlock := do
  let cEnd ← strchrnul lineFeed q.head.bytes
  let newLen := (httpCode code).bytes.length
  let oldLen := cEnd + 1
  if sizeT ((q.headLen : Int) - oldLen + newLen) ≥ httpHeaderMax - 2 then
    .error (.fatal .setCodeTooBig)
  else
    let rest := sizeT ((q.headLen : Int) - oldLen)
    let q ← q.memmoveIf (newLen ≠ oldLen ∧ rest > 0) newLen oldLen rest
    let q ← q.memcpy 0 (httpCode code).bytes
    q.updateHeaderLinesIf (newLen ≠ oldLen)

/-- The line that `WEB_AppendHeaderS` makes -/
def headerLine (key value : List UInt8) : CString httpPerHeaderMax :=
  (((CString.strlcpy key).strlcat separator).strlcat value).strlcat crlf

/-- `WEB_AppendHeaderS` -/
def appendHeaderS (q : HeaderBlock) (key value : List UInt8) : Except HeaderStop HeaderBlock :=
  match q.headLine.push? q.headLen with
  | none => .error (.fatal .tooManyHeaders)
  | some lines => do
      let newLine := (headerLine key value).bytes
      let newLen := newLine.length
      if q.headLen + newLen + 1 ≥ httpHeaderMax - 2 then .error (.fatal .headerTooBig)
      else
        let next ← q.memcpy q.headLen (newLine ++ [0])
        return { next with
          headLine := lines
          headLen := q.headLen + newLen
        }

/--
Where `cSep` of `WEB_EditHeader` points at first, and where `cEnd` does, if
the line is one of a header
-/
def headerEnds (q : HeaderBlock) (cLine : Nat) : Except HeaderStop (Nat × Nat) := do
  match ← strchr colon (q.head.bytes.drop cLine) with
  | none => .error (.fatal .badHeader)
  | some toColon =>
    let cSep := cLine + toColon
    if q.head.bytes[cSep + 1]? = some blank then
      match ← strchr carriageReturn (q.head.bytes.drop (cSep + 1)) with
      | none => .error (.fatal .badHeader)
      | some toEnd => return (cSep, cSep + 1 + toEnd)
    else .error (.fatal .badHeader)

/-- `WEB_EditHeader` -/
def editHeader (q : HeaderBlock) (cLine : Nat)
    (value : List UInt8) : Except HeaderStop HeaderBlock := do
  let (cSep, cEnd) ← q.headerEnds cLine
  let cSep := cSep + 1
  let oldLen := cEnd - cSep + 1
  let newLen := value.length
  if sizeT ((q.headLen : Int) - oldLen + newLen) ≥ httpHeaderMax then .error (.fatal .tooBig)
  else
    let old := cSep + 1 + oldLen - 2
    let q ← q.memmoveIf (newLen ≠ oldLen ∧ sizeT ((q.headLen : Int) - oldLen) > 0)
      (cSep + 1 + newLen) old (sizeT ((q.headLen : Int) - old + 1))
    let q ← q.memcpy (cSep + 1) value
    let q ← q.memcpy (cSep + newLen + 1) [carriageReturn]
    let q ← q.memcpy (cSep + newLen + 2) [lineFeed]
    q.updateHeaderLinesIf (newLen ≠ oldLen)

/-- `WEB_SetHeaderS` -/
def setHeaderS (q : HeaderBlock) (key value : List UInt8) : Except HeaderStop HeaderBlock :=
  match q.headLine.offsets.find? fun offset =>
    hasKey key (cString (q.head.bytes.drop offset)) with
  | some cLine => q.editHeader cLine value
  | none => q.appendHeaderS key value

end HeaderBlock

end Agar.Web
