import Agar.Lib.Search
import Agar.Web.Query

namespace Agar.Web

open Agar.Lib
open Agar.Core

/-!
# Multipart forms

How the worker reads the parts of a form that is not URL-encoded.  The body is
read into memory whole, followed by a terminator, and scanned from its start.

A pointer into this memory is the bytes from there to the end of the body: it
points to the terminator where there are none.  Every allocation is granted.
-/

/-- The size of `boundary` -/
def formBoundarySize : Nat := 73

/-- The delimiter that the type of the content names: `none` for a bad one -/
def formDelimiter (contentType : List UInt8) : Option (List UInt8) :=
  match splitAtInfix (ascii "boundary=") contentType with
  | none => none
  | some (_, found) =>
    let boundary := found.drop 9
    if boundary = [] ∨ 2 + boundary.length ≥ formBoundarySize then none
    else
      some (ascii "--" ++ boundary)

/-- `p + count`, of which the memory is then read -/
def advance (count : Nat) (p : List UInt8) : Except Stop (List UInt8) :=
  if count ≤ p.length then .ok (p.drop count) else .error .undefined

/-- The name in one token of a `Content-Disposition` header line -/
def formNameToken (token : List UInt8) : Option (List UInt8) :=
  let t := token.dropWhile isSpace
  if (ascii "name=\"").isPrefixOf t then (splitAtByte 34 (t.drop 6)).map Prod.fst else none

/-- The name in a `Content-Disposition` header line -/
def formName (line : List UInt8) : Option (List UInt8) :=
  if startsNoCase line (ascii "Content-Disposition:") then
    (strsep (ascii ";") line).findSome? formNameToken
  else none

/-- The header line that may follow the first one of a part -/
inductive FormType where
  /-- There is no `Content-Type` header line. -/
  | absent
  /-- It does not end. -/
  | incomplete
  /-- The type, and what is behind the line -/
  | present (contentType behind : List UInt8)
  deriving DecidableEq

/-- The type in a `Content-Type` header line, if there is one -/
def formType (cNext : List UInt8) : FormType :=
  if startsNoCase cNext (ascii "Content-Type:") ∧ cNext.head? = some 67 then
    match splitAtByte 13 (cNext.drop 13) with
    | none => .absent
    | some (text, rest) =>
      match splitAtByte 10 cNext with
      | none => .incomplete
      | some (line, _) =>
        -- the carriage return is overwritten, wherever it is
        let cNext := cNext.take 13 ++ text ++ 0 :: rest
        .present (if (text.headD 0 |> isSpace) then text.tail else text)
          (cNext.drop (line.length + 1))
  else .absent

/--
The memory of a value, and its length with the terminator: a line end behind
the value is taken off, and the last byte of the memory is then not set.
-/
def formValueMemory (fresh : UInt8) (part : List UInt8) : List UInt8 × Nat :=
  if part.length ≥ 2 ∧ part.drop (part.length - 2) = [13, 10] then
    (part.take (part.length - 2) ++ [0, 10, fresh], part.length - 2 + 1)
  else (part ++ [0], part.length + 1)

/-- How one turn of the loop ends -/
inductive FormTurn where
  /-- `break` -/
  | ends
  /-- `goto fail` -/
  | fails
  /-- An argument is appended, and the next part is at `cEnd`. -/
  | part (arg : WebArgument) (cEnd : List UInt8)

/-- The value of a part, up to the next delimiter -/
def formPart (fresh : UInt8) (boundary key contentType cStart : List UInt8) : FormTurn :=
  match splitAtInfix boundary cStart with
  | none => .fails
  | some (part, cEnd) =>
    if part.length + 1 > argLengthMax then .fails
    else
      let (value, len) := formValueMemory fresh part
      .part
        { type := postArgument
          key := .strlcpy key
          value := value
          len := len
          contentType := .strlcpy contentType }
        cEnd

/-- One turn of the loop, at a delimiter -/
def formTurn (fresh : UInt8) (boundary c : List UInt8) : Except Stop FormTurn := do
  let c ← advance (boundary.length + 2) c
  match splitAtByte 10 c with
  | none => return .fails
  | some (line, cNext) =>
    match formName line with
    | none => return .ends
    | some key =>
      match formType cNext with
      | .absent => return formPart fresh boundary key [] (cNext.dropWhile isSpace)
      | .incomplete => return .fails
      | .present contentType behind => do
          -- the empty line that ends the headers is passed over
          let cStart ← advance 2 behind
          return formPart fresh boundary key contentType cStart

/-- The loop of `WEB_ReadFormData`: what it returns, and the query -/
def formLoop (fresh : UInt8) (boundary : List UInt8) :
    Nat → List UInt8 → Nat → WebQuery → Except Stop (Int × WebQuery)
  | _, [], _, q => .ok (0, q)
  | 0, _ :: _, _, _ => .error .outOfFuel
  | fuel + 1, first :: rest, partIndex, q =>
    if first = 0 then .ok (0, q)
    else if first ≠ 45 ∨ (partIndex = 0 ∧ ¬ boundary.isPrefixOf (first :: rest)) then
      formLoop fresh boundary fuel rest partIndex q
    else do
      match ← formTurn fresh boundary (first :: rest) with
      | .ends => return (0, q)
      | .fails => return (-1, q)
      | .part arg cEnd =>
        formLoop fresh boundary fuel cEnd (partIndex + 1)
          { q with args := q.args ++ [arg] }

/--
`WEB_ReadFormData`, of which the socket gives some bytes and no more: what it
returns, and the query
-/
def readFormData (fresh : UInt8) (q : WebQuery)
    (received : List UInt8) : Except Stop (Int × WebQuery) :=
  match formDelimiter q.contentType.bytes with
  | none => .ok (-1, q)
  | some boundary =>
    if received.length < q.contentLength then .ok (-1, q)
    else
      let body := received.take q.contentLength
      formLoop fresh boundary body.length body 0 q

end Agar.Web
