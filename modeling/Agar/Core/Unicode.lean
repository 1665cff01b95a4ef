import Agar.Core.DataSource
import Agar.Lib.CString

namespace Agar.Core

open Agar.Lib

/-!
# Unicode strings

Import and export of UCS-4 strings, which end in a NUL, as UTF-8 and as
US-ASCII, built without `iconv`.  A code point is a number, and the bit
operations are those of numbers: none of them leaves 32 bits.
-/

/-! ## Lengths -/

/-- `AG_CharLengthUTF8`: `none` where it returns -1 -/
def charLengthUTF8 (ch : UInt8) : Option Nat :=
  if ch >>> 7 = 0 then some 1
  else if (ch &&& 0xe0) >>> 5 = 0x6 then some 2
  else if (ch &&& 0xf0) >>> 4 = 0xe then some 3
  else if (ch &&& 0xf8) >>> 3 = 0x1e then some 4
  else if (ch &&& 0xfc) >>> 2 = 0x3e then some 5
  else if (ch &&& 0xfe) >>> 1 = 0x7e then some 6
  else none

/-- The loop of `AG_LengthUTF8`, from where `c` points to. -/
def lengthLoop : Nat → List UInt8 → Nat → Except Stop (Option Nat)
  | 0, _, _ => .error .outOfFuel
  | _ + 1, [], _ => .error .undefined
  | fuel + 1, ch :: rest, rv =>
    match charLengthUTF8 ch with
    | none => .ok none
    | some cLen =>
      let char := (ch :: rest).take cLen
      if 0 ∈ char then
        -- a character that the terminator cuts off does not count
        .ok (some rv)
      else if char.length < cLen then .error .undefined
      else lengthLoop fuel ((ch :: rest).drop cLen) (rv + 1)

/-- `AG_LengthUTF8`: `none` where it returns -1 -/
def lengthUTF8 (s : List UInt8) : Except Stop (Option Nat) :=
  match s with
  | [] => .error .undefined
  | 0 :: _ => .ok (some 0)
  | _ => lengthLoop s.length s 0

/-! ## Export -/

/-- The length of the sequence of a code point, and what marks its first byte. -/
def sequenceOf (uch : Nat) : Option (Nat × Nat) :=
  if uch < 0x80 then some (1, 0)
  else if uch < 0x800 then some (2, 0xc0)
  else if uch < 0x10000 then some (3, 0xe0)
  else if uch < 0x200000 then some (4, 0xf0)
  else if uch < 0x4000000 then some (5, 0xf8)
  else if uch ≤ 0x7fffffff then some (6, 0xfc)
  else none

/-- The bytes of a sequence, stored from the last to the first. -/
def storeChar (ch1 : Nat) : Nat → Nat → List UInt8 → List UInt8
  | 0, uch, stored => UInt8.ofNat (uch ||| ch1) :: stored
  | i + 1, uch, stored =>
    storeChar ch1 i (uch >>> 6) (UInt8.ofNat (uch &&& 0x3f ||| 0x80) :: stored)

/--
The loop of `AG_ExportUnicode` to UTF-8: `dst` is the buffer, and `len` how
much of it is written.
-/
def exportUTF8 : List UInt32 → List UInt8 → Nat → Nat → Except Stop (Int × List UInt8)
  | [], _, _, _ => .error .undefined
  | uch :: ucs, dst, dstSize, len =>
    if uch = 0 ∨ len ≥ dstSize then do
      let dst ← memWrite dst len [0]
      return (0, dst)
    else
      match sequenceOf uch.toNat with
      | none => .ok (-1, dst)
      | some (chlen, ch1) =>
        if len + chlen + 1 > dstSize then .ok (-1, dst)
        else do
          let dst ← memWrite dst len (storeChar ch1 (chlen - 1) uch.toNat [])
          exportUTF8 ucs dst dstSize (len + chlen)

/-- The loop of `AG_ExportUnicode` to US-ASCII. -/
def exportASCII : List UInt32 → List UInt8 → Nat → Nat → Except Stop (Int × List UInt8)
  | [], _, _, _ => .error .undefined
  | uch :: ucs, dst, dstSize, len =>
    if uch = 0 ∨ len ≥ dstSize then do
      let dst ← memWrite dst len [0]
      return (0, dst)
    else if uch ≥ 0x80 then .ok (-1, dst)
    else do
      let dst ← memWrite dst len [uch.toUInt8]
      exportASCII ucs dst dstSize (len + 1)

/-- What the argument `encoding` selects. -/
inductive Encoding where
  | utf8
  | usAscii
  | unknown
  deriving Repr, DecidableEq

/--
`AG_ExportUnicode` into a buffer of `dstSize` bytes at `dst`: what it returns,
and the buffer then
-/
def exportUnicode (encoding : Encoding) (dst : List UInt8) (ucs : List UInt32)
    (dstSize : Nat) : Except Stop (Int × List UInt8) :=
  match encoding with
  | .utf8 => exportUTF8 ucs dst dstSize 0
  | .usAscii => exportASCII ucs dst dstSize 0
  | .unknown => .ok (-1, dst)

/-! ## Import -/

/-- The payload bits of the first byte of a sequence of some length. -/
def leadMask : Nat → Nat
  | 1 => 0xff
  | 2 => 0x1f
  | 3 => 0x0f
  | 4 => 0x07
  | 5 => 0x03
  | _ => 0x01

/-- The bytes behind the first one, put together. -/
def decodeTail : List UInt8 → Nat
  | [] => 0
  | byte :: rest => (byte.toNat &&& 0x3f) <<< (6 * rest.length) ||| decodeTail rest

/-- The code point of a sequence. -/
def decodeChar : List UInt8 → Nat
  | [] => 0
  | lead :: tail =>
    (lead.toNat &&& leadMask (tail.length + 1)) <<< (6 * tail.length) ||| decodeTail tail

/-- Store the next element of `ucs`, which has room for `size` of them. -/
def storeUcs (ucs : List UInt32) (size : Nat) (value : Nat) : Except Stop (List UInt32) :=
  if ucs.length < size then .ok (ucs ++ [UInt32.ofNat value]) else .error .undefined

/--
The loop of `AG_ImportUnicode` from UTF-8, with `left` bytes up to the end of
the string: `none` where it returns `NULL`
-/
def importLoop : Nat → List UInt8 → Nat → List UInt32 → Nat → Except Stop (Option (List UInt32))
  | 0, _, _, _, _ => .error .outOfFuel
  | fuel + 1, s, left, ucs, size =>
    if left = 0 then return some ucs
    else
      match s with
      | [] => .error .undefined
      | ch :: _ =>
        match charLengthUTF8 ch with
        | none => return none
        | some n =>
          if (s.take n).length < n then .error .undefined
          else do
            let ucs ← storeUcs ucs size (decodeChar (s.take n))
            importLoop fuel (s.drop n) (left - n) ucs size

/-- What `AG_ImportUnicode` returns, and stores through its last arguments. -/
structure Imported where
  ucs : List UInt32
  outLen : Nat
  outSize : Nat
  deriving Repr, DecidableEq

/-- Terminate an imported string. -/
def terminateUcs (ucs : List UInt32) (size : Nat) : Except Stop (Option Imported) := do
  let terminated ← storeUcs ucs size 0
  return some
    { ucs := terminated
      outLen := ucs.length
      outSize := 4 * size }

/--
`AG_ImportUnicode` of the string at `s`, with the allocator's answer: `none`
where it returns `NULL`
-/
def importUnicode (encoding : Encoding) (allocation : Allocation)
    (s : List UInt8) : Except Stop (Option Imported) :=
  let sLen := (cString s).length
  match encoding with
  | .utf8 => do
      match ← lengthUTF8 s with
      | none => return none
      | some utf8len =>
        if allocation.grants (4 * (utf8len + 1)) then do
          match ← importLoop (sLen + 1) s sLen [] (utf8len + 1) with
          | none => return none
          | some ucs => terminateUcs ucs (utf8len + 1)
        else return none
  | .usAscii =>
    if allocation.grants (4 * (sLen + 1)) then
      terminateUcs ((cString s).map fun ch => ch.toNat.toUInt32) (sLen + 1)
    else return none
  | .unknown => return none

end Agar.Core
