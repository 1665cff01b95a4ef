import Agar.Lib.Lines
import Agar.Lib.Runs
import Agar.Lib.UpdateFirst
import Agar.Web.Headers

namespace Agar.Web

open Agar.Lib

/-!
# The header block as a list of headers

What the header block of a response is for: a status line and a list of
headers, of which one is set by its key, whatever the case of its letters, and
the others stay as they are.
-/

/-- A text that has no end of a line, and no end of a string. -/
@[ext] structure LineText where
  bytes : List UInt8
  noNul : 0 ∉ bytes
  noLineFeed : lineFeed ∉ bytes
  noReturn : carriageReturn ∉ bytes

namespace LineText

instance : DecidableEq LineText := fun _ _ => decidable_of_iff _ LineText.ext_iff.symm

/-- One text behind another. -/
def append (first second : LineText) : LineText where
  bytes := first.bytes ++ second.bytes
  noNul := by
    rw [List.mem_append]
    exact not_or_intro first.noNul second.noNul
  noLineFeed := by
    rw [List.mem_append]
    exact not_or_intro first.noLineFeed second.noLineFeed
  noReturn := by
    rw [List.mem_append]
    exact not_or_intro first.noReturn second.noReturn

/-- A text of ASCII characters. -/
def ofAscii (text : String)
    (plain : ∀ byte ∈ [0, lineFeed, carriageReturn], byte ∉ ascii text) : LineText where
  bytes := ascii text
  noNul := plain 0 (by decide)
  noLineFeed := plain lineFeed (by decide)
  noReturn := plain carriageReturn (by decide)

/-- What a status line starts with. -/
def httpVersion : LineText := .ofAscii "HTTP/1.0 " (by decide +kernel)

/-- What is between a key and a value. -/
def separator : LineText where
  bytes := Web.separator
  noNul := by decide
  noLineFeed := by decide
  noReturn := by decide

/-- The line with the text. -/
def line (text : LineText) : List UInt8 := text.bytes ++ crlf

end LineText

/-- A header of a response. -/
structure Header where
  key : LineText
  value : LineText
  deriving DecidableEq

namespace Header

/-- The text in the line of a header. -/
def text (header : Header) : List UInt8 := header.key.bytes ++ separator ++ header.value.bytes

/-- The line of a header. -/
def line (header : Header) : List UInt8 := header.text ++ crlf

/-- Keys are the same whatever the case of their letters. -/
def IsKey (key : LineText) (header : Header) : Prop :=
  header.key.bytes.map toLower = key.bytes.map toLower

instance (key : LineText) (header : Header) : Decidable (header.IsKey key) :=
  inferInstanceAs (Decidable (_ = _))

end Header

/-- A status line and a list of headers. -/
structure HeaderList where
  status : LineText
  headers : List Header
  deriving DecidableEq

/-- The functions that change the headers of a response. -/
inductive HeaderCall where
  /-- `WEB_ClearHeaders` with a status line of some text -/
  | clearHeaders (status : LineText)
  /-- `WEB_SetCode` -/
  | setCode (code : LineText)
  /-- `WEB_AppendHeaderS` -/
  | appendHeaderS (key value : LineText)
  /-- `WEB_SetHeaderS` -/
  | setHeaderS (key value : LineText)
  deriving DecidableEq

namespace HeaderList

/-- The lines of the headers, one behind the other. -/
def headerText (headers : List Header) : List UInt8 := (headers.map Header.line).flatten

/-- The status line and the lines of the headers. -/
def text (h : HeaderList) : List UInt8 := h.status.line ++ headerText h.headers

/-- Where the lines of the headers start. -/
def starts (h : HeaderList) : List Nat := offsets h.status.line.length (h.headers.map Header.line)

/-- What a call is to do. -/
def call (h : HeaderList) : HeaderCall → HeaderList
  | .clearHeaders status => { status := status, headers := [] }
  | .setCode code => { h with status := LineText.httpVersion.append code }
  | .appendHeaderS key value => { h with headers := h.headers ++ [{ key := key, value := value }] }
  | .setHeaderS key value =>
    if h.headers.any fun header => header.IsKey key then
      { h with
        headers := updateFirst (fun header => header.IsKey key)
          (fun header => { header with value := value }) h.headers
      }
    else { h with headers := h.headers ++ [{ key := key, value := value }] }

/--
The condition on a call.

The status line keeps its length when the code is set; of a status line longer
than the buffer in which it is made the bytes beyond are those that the header
lines, moved up, and the bytes behind them happen to have.

The line of a header that is appended has room in the buffer in which it is
made.  A header is set where the first line that starts with the key, a colon
and a blank is its own, its key has no colon, and the value keeps its length;
or else nothing changes, as that line has the value behind its first colon,
and the header has it already.
-/
def Meets (h : HeaderList) : HeaderCall → Prop
  | .clearHeaders status => status.line.length < httpHeaderMax
  | .setCode code =>
    let old := h.status.line
    let new := (LineText.httpVersion.append code).line
    let rest := headerText h.headers
    new.length = old.length ∧ rest ++ (old.drop (httpCodeSize - 1) ++ rest).drop rest.length =
        new.drop (httpCodeSize - 1) ++ rest
  | .appendHeaderS key value =>
    (Header.line { key := key, value := value }).length < httpPerHeaderMax
  | .setHeaderS key value =>
    match h.headers.find? fun header => hasKey key.bytes header.text with
    | none => (Header.line { key := key, value := value }).length < httpPerHeaderMax
    | some first =>
      (first.IsKey key ∧ colon ∉ first.key.bytes ∧ value.bytes.length = first.value.bytes.length) ∨
      (¬ first.IsKey key ∧ (∃ before, colon ∉ before ∧
            first.text = before ++ separator ++ value.bytes) ∧
        ∃ header, (h.headers.find? fun header => header.IsKey key) = some header ∧
            header.value = value)

end HeaderList

/-- Make a call. -/
def HeaderBlock.call (q : HeaderBlock) : HeaderCall → Except HeaderStop HeaderBlock
  | .clearHeaders status => q.clearHeaders status.line
  | .setCode code => q.setCode code.bytes
  | .appendHeaderS key value => q.appendHeaderS key.bytes value.bytes
  | .setHeaderS key value => q.setHeaderS key.bytes value.bytes

/--
The head is the status line and the lines of the headers, with a NUL behind,
and `headLine` lists where the lines of the headers start.  The first of them
may be listed twice: `WEB_ClearHeaders` lists where a header will start, and
`WEB_AppendHeaderS` lists it again.
-/
structure HeaderBlock.Represents (q : HeaderBlock) (h : HeaderList) : Prop where
  bytes : q.head.bytes.take q.headLen = h.text
  terminator : q.head.bytes[q.headLen]? = some 0
  lines : q.headLine.offsets = h.starts ∨ q.headLine.offsets = h.status.line.length :: h.starts

/-! ## Lines -/

namespace LineText

variable {text : LineText}

theorem isLine (text : LineText) : IsLine lineFeed text.line := by
  refine ⟨text.bytes ++ [carriageReturn], ?_, ?_⟩
  · rw [List.mem_append]
    exact not_or_intro text.noLineFeed (by decide)
  · rw [List.append_assoc]
    rfl

theorem line_noNul (text : LineText) : 0 ∉ text.line := by
  rw [line, List.mem_append]
  exact not_or_intro text.noNul (by decide)

theorem length_line (text : LineText) : text.line.length = text.bytes.length + 2 := by
  rw [line, List.length_append]
  rfl

end LineText

namespace Header

variable {header : Header}

/-- The text in the line of a header, which ends no line. -/
def lineText (header : Header) : LineText := (header.key.append .separator).append header.value

theorem length_text (header : Header) : header.text.length =
      header.key.bytes.length + 2 + header.value.bytes.length := by
  rw [text, List.length_append, List.length_append]
  rfl

theorem length_line (header : Header) : header.line.length = header.text.length + 2 := by
  rw [line, List.length_append]
  rfl

end Header

end Agar.Web
