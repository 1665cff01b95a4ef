import Agar.Web.Variables

namespace Agar.Web

open Agar.Lib
open Agar.Core

/-!
# The data of a response

What a worker puts out is gathered in a buffer of the query, which grows as it
is needed.  Every allocation is granted.
-/

/-- `WEB_DATA_BUFSIZE` -/
def dataBufSize : Nat := 65536

/-- The data of a `WEB_Query`: a buffer of `dataSize` bytes, filled to `dataLen` -/
structure ResponseData where
  data : List UInt8
  dataLen : Nat
  fits : dataLen ≤ data.length

namespace ResponseData

/-- What was put out -/
def text (q : ResponseData) : Text := q.data.take q.dataLen

/-- The buffer that `WEB_Write` copies `len` bytes to -/
def grown (fresh : Nat → UInt8) (q : ResponseData) (len : Nat) : List UInt8 :=
  if q.data.length < q.dataLen + len then resize fresh (q.data.length + (len + dataBufSize)) q.data
  else q.data

theorem grown_fits (fresh : Nat → UInt8) (q : ResponseData) (len : Nat) :
    q.dataLen + len ≤ (q.grown fresh len).length := by
  have fits := q.fits
  unfold grown
  split
  · rw [length_resize]
    omega
  · omega

/-- `WEB_Write` -/
def write (fresh : Nat → UInt8) (q : ResponseData) (bytes : List UInt8) : ResponseData where
  data := splice (q.grown fresh bytes.length) q.dataLen bytes
  dataLen := q.dataLen + bytes.length
  fits := by
    have fits := q.grown_fits fresh bytes.length
    rwa [length_splice fits]

/-- `WEB_PutC` -/
def putC (fresh : Nat → UInt8) (q : ResponseData) (c : UInt8) : ResponseData := q.write fresh [c]

/-- `WEB_PutS` -/
def putS (fresh : Nat → UInt8) (q : ResponseData) (s : Text) : ResponseData := q.write fresh s

/-- The loops that put out some characters as other strings -/
def putChars (escape : UInt8 → Option Text) (fresh : Nat → UInt8)
    (q : ResponseData) : Text → ResponseData
  | [] => q
  | c :: rest =>
    match escape c with
    | some s => putChars escape fresh (q.putS fresh s) rest
    | none => putChars escape fresh (q.putC fresh c) rest

/-- The strings of `WEB_PutJSON_S` -/
def escapeJSON (c : UInt8) : Option Text :=
  if c = 92 then some (ascii "\\\\")
  else if c = 34 then some (ascii "\\\"")
  else if c = 13 then some (ascii "\\r")
  else if c = 10 then some (ascii "\\n")
  else if c = 9 then some (ascii "\\t")
  else none

/-- The strings of `WEB_PutJSON_NoHTML_S` -/
def escapeJSONNoHTML (c : UInt8) : Option Text :=
  if c = 92 then some (ascii "\\\\")
  else if c = 34 then some (ascii "\\\"")
  else if c = 10 then some (ascii "\\n")
  else if c = 9 then some (ascii "\\t")
  else if c = 60 then some (ascii "&lt;")
  else if c = 62 then some (ascii "&gt;")
  else none

/-- What the functions that put out a member share -/
def putMember (escape : UInt8 → Option Text) (fresh : Nat → UInt8) (q : ResponseData)
    (key val : Text) : ResponseData :=
  let q := q.putC fresh 34
  let q := q.putS fresh key
  let q := q.putS fresh (ascii "\": \"")
  let q := q.putChars escape fresh val
  q.putS fresh (ascii "\",")

/-- `WEB_PutJSON_S` -/
def putJSONS (fresh : Nat → UInt8) (q : ResponseData) (key val : Text) : ResponseData :=
  q.putMember escapeJSON fresh key val

/-- `WEB_PutJSON_NoHTML_S` -/
def putJSONNoHTMLS (fresh : Nat → UInt8) (q : ResponseData) (key val : Text) : ResponseData :=
  q.putMember escapeJSONNoHTML fresh key val

/-! ## What is put out -/

variable {fresh : Nat → UInt8} {q : ResponseData}

@[simp] theorem text_write (bytes : List UInt8) : (q.write fresh bytes).text = q.text ++ bytes := by
  have fits := q.grown_fits fresh bytes.length
  have before : (q.grown fresh bytes.length).take q.dataLen = q.text := by
    unfold grown text
    split
    · rw [resize, List.take_append_of_le_length, List.take_take]
      · congr 1
        have fits := q.fits
        omega
      · have fits := q.fits
        rw [List.length_take]
        omega
    · rfl
  change (splice (q.grown fresh bytes.length) q.dataLen bytes).take (q.dataLen + bytes.length) = _
  rw [splice, before]
  have size : (q.text ++ bytes).length = q.dataLen + bytes.length := by
    rw [List.length_append, text, List.length_take_of_le q.fits]
  rw [← size, List.take_left]

@[simp] theorem text_putC (c : UInt8) : (q.putC fresh c).text = q.text ++ [c] := text_write [c]

@[simp] theorem text_putS (s : Text) : (q.putS fresh s).text = q.text ++ s := text_write s

@[simp] theorem text_putChars (escape : UInt8 → Option Text) (s : Text) :
    (q.putChars escape fresh s).text = q.text ++ WebVariable.escaped escape s := by
  induction s generalizing q with
  | nil => simp [putChars, WebVariable.escaped]
  | cons c rest ih =>
    cases replaced : escape c <;>
      simp [putChars, replaced, ih, WebVariable.escaped]

@[simp] theorem text_putMember (escape : UInt8 → Option Text) (key val : Text) :
    (q.putMember escape fresh key val).text = q.text ++ ([34] ++ key ++ [34, 58, 32, 34] ++
            WebVariable.escaped escape val ++ [34]) ++
          [44] := by
  have between : ascii "\": \"" = [34, 58, 32, 34] := rfl
  have last : ascii "\"," = [34, 44] := rfl
  simp [putMember, between, last]

end ResponseData

end Agar.Web
