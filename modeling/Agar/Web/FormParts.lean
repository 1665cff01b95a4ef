import Agar.Web.FormData

namespace Agar.Web

open Agar.Lib
open Agar.Core

/-!
# The parts of a form

The encoding of a form as `multipart/form-data`, and when `WEB_ReadFormData`
gives the parts of the form back.  It skips white space that a value without a
type begins with, takes the delimiter to begin without a line end, knows no
quoted characters in a name, splits a name at a semicolon, and needs a line
end behind the last delimiter.  A body that is cut off behind a delimiter, or
behind a `Content-Type` header line, is read beyond its end.
-/

/-- A text on one line -/
def OnLine (text : List UInt8) : Prop := 0 ∉ text ∧ 13 ∉ text ∧ 10 ∉ text

instance (text : List UInt8) : Decidable (OnLine text) := inferInstanceAs (Decidable (_ ∧ _ ∧ _))

/-- The boundary that a client may choose for a form -/
structure FormBoundary where
  bytes : List UInt8
  nonempty : bytes ≠ []
  short : bytes.length ≤ 70
  onLine : OnLine bytes

namespace FormBoundary

/-- What stands in front of each part, and behind the last one -/
def delimiter (boundary : FormBoundary) : List UInt8 := ascii "--" ++ boundary.bytes

/-- A query of which the content is a form with the boundary -/
def query (boundary : FormBoundary) (q : WebQuery) (contentLength : Nat) : WebQuery :=
  { q with
    contentType := .strlcpy (ascii "multipart/form-data; boundary=" ++ boundary.bytes)
    contentLength := contentLength }

end FormBoundary

/-- A part of a form, of which the value does not hold the delimiter -/
structure FormPart (boundary : FormBoundary) where
  name : List UInt8
  type : Option (List UInt8)
  value : List UInt8
  nameOnLine : OnLine name
  typeOnLine : ∀ text ∈ type, OnLine text
  apart : ¬ crlf ++ boundary.delimiter <:+: crlf ++ value

/-- A text in quotes, with a backslash in front of a quote or a backslash -/
def quoted (text : List UInt8) : List UInt8 :=
  text.flatMap fun c => if c = 34 ∨ c = 92 then [92, c] else [c]

namespace FormPart

variable {boundary : FormBoundary}

/-- The header lines of a part, and the empty one behind them -/
def headers (part : FormPart boundary) : List UInt8 :=
  ascii "Content-Disposition: form-data; name=\"" ++ quoted part.name ++ ascii "\"" ++ crlf ++
    (match part.type with
      | none => []
      | some type => ascii "Content-Type: " ++ type ++ crlf) ++
    crlf

/-- A part, from its delimiter to the line end behind it -/
def encoded (part : FormPart boundary) : List UInt8 :=
  boundary.delimiter ++ crlf ++ part.headers ++ part.value ++ crlf

end FormPart

/--
The encoding of a form.  What follows the last delimiter is a line end with
any text behind it, or nothing.
-/
def encodeForm {boundary : FormBoundary} (parts : List (FormPart boundary))
    (epilogue : Option (List UInt8)) : List UInt8 :=
  parts.flatMap FormPart.encoded ++ boundary.delimiter ++ ascii "--" ++
    (match epilogue with
      | none => []
      | some text => crlf ++ text)

/-- What an argument holds, up to the length of its value -/
structure FormField where
  type : UInt8
  key : List UInt8
  value : List UInt8
  len : Nat
  contentType : List UInt8
  deriving DecidableEq

/-- What can be read of an argument -/
def WebArgument.field (arg : WebArgument) : FormField where
  type := arg.type
  key := arg.key.bytes
  value := arg.value.take arg.len
  len := arg.len
  contentType := arg.contentType.bytes

/-- What is to be read of a part: the length counts the terminator. -/
def FormPart.field {boundary : FormBoundary} (part : FormPart boundary) : FormField where
  type := postArgument
  key := part.name
  value := part.value ++ [0]
  len := part.value.length + 1
  contentType := part.type.getD []

/-- The parts of a form are appended to the arguments of a query, in order. -/
def Decodes {boundary : FormBoundary} (fresh : UInt8) (q : WebQuery)
    (parts : List (FormPart boundary)) (epilogue : Option (List UInt8))
    (later : List UInt8) : Prop :=
  let body := encodeForm parts epilogue
  let q := boundary.query q body.length
  ∃ args : List WebArgument, readFormData fresh q (body ++ later) =
      .ok (0, { q with args := q.args ++ args }) ∧
    args.map WebArgument.field = parts.map FormPart.field

/-- A form is read to its end, or to an error, inside of the memory. -/
def ReadsInside (fresh : UInt8) (q : WebQuery) (received : List UInt8) : Prop :=
  ∃ result, readFormData fresh q received = .ok result

/-- A part that is given back -/
structure FormPart.Readable {boundary : FormBoundary} (part : FormPart boundary) : Prop where
  name : 34 ∉ part.name ∧ 59 ∉ part.name
  nameCopied : (quoted part.name).take (argKeyMax - 1) = part.name
  typeFits : ∀ type ∈ part.type, type.length < 32
  value : ¬ boundary.delimiter <:+: part.value
  valueStart : part.type = none → ∀ c ∈ part.value.head?, isSpace c = false
  valueFits : part.value.length + 3 ≤ argLengthMax

/-- Where the value of a part starts, by what is behind its first line -/
inductive ValueFrom (cNext : List UInt8) : List UInt8 → Prop
  | untyped
      (absent : formType cNext = .absent) :
      ValueFrom cNext (cNext.dropWhile isSpace)
  | typed
      {contentType start : List UInt8}
      {first second : UInt8}
      (present : formType cNext = .present contentType (first :: second :: start)) :
      ValueFrom cNext start

/--
From a delimiter on, a delimiter that comes next or a `Content-Type` header
line is followed by less than two bytes.
-/
inductive CutShort (delimiter : List UInt8) : List UInt8 → Prop
  | delimiter
      {c : List UInt8}
      (cut : c.length < delimiter.length + 2) :
      CutShort delimiter c
  | header
      {c line cNext key contentType behind : List UInt8}
      (first : splitAtByte 10 (c.drop (delimiter.length + 2)) = some (line, cNext))
      (named : formName line = some key)
      (present : formType cNext = .present contentType behind)
      (cut : behind.length < 2) :
      CutShort delimiter c
  | later
      {c line cNext key start part cEnd : List UInt8}
      (first : splitAtByte 10 (c.drop (delimiter.length + 2)) = some (line, cNext))
      (named : formName line = some key)
      (value : ValueFrom cNext start)
      (next : splitAtInfix delimiter start = some (part, cEnd))
      (fits : part.length + 1 ≤ argLengthMax)
      (behind : CutShort delimiter cEnd) :
      CutShort delimiter c

/-- A body that is cut short behind its first delimiter -/
def CutBody (delimiter body : List UInt8) : Prop :=
  ∃ skipped c, splitAtInfix delimiter body = some (skipped, c) ∧ 0 ∉ skipped ∧ CutShort delimiter c

end Agar.Web
