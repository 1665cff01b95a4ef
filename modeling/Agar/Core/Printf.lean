import Agar.Core.DataSource
import Agar.Lib.Outcome

namespace Agar.Core

open Agar.Lib

/-!
# Formatted output

`AG_DoPrintf` formats into a buffer of a fixed size, and `AG_Printf` and
`AG_PrintfN` enlarge the buffer until the length that it reports is within the
buffer.  A conversion is written by one of a few functions, which differ in
whether they store a terminator, and in the length that they report when the
buffer is too small.

A format is the characters in front of its terminator.  The C library's
`snprintf` is given by the text that it makes of a specifier and an argument.
-/

/-- One value of a `va_list` -/
inductive FmtArg where
  /-- An `int`, or an `unsigned int` -/
  | int (bits : UInt32)
  /-- A `long`, a `long long`, or one that is unsigned -/
  | long (bits : UInt64)
  | double (bits : UInt64)
  | longDouble (bytes : Vector UInt8 10)
  /-- A `char *` -/
  | string (s : List UInt8)
  /-- A `void *` -/
  | pointer (p : Nat)
  deriving DecidableEq

/-- What one character of a format, or one conversion, puts out, and how. -/
inductive FmtPiece where
  /-- A character of the format that is not part of a conversion -/
  | literal (c : UInt8)
  /-- A character that is stored by `%c` or `%%` -/
  | char (c : UInt8)
  /-- What `Strlcpy` copies -/
  | copied (s : List UInt8)
  /-- What `Snprintf` formats -/
  | native (s : List UInt8)
  /-- What `StrlcpyInt` formats -/
  | int (value : Int32)
  /-- What `StrlcpyUint` formats -/
  | uint (value : UInt32)
  /-- What an extension stores without a terminator -/
  | raw (s : List UInt8)
  deriving DecidableEq

/--
`AG_FmtStringExt`: a specifier, and what its function puts out for the pointer
that it is given
-/
structure FmtStringExt where
  fmt : List UInt8
  fn : Nat → FmtPiece

/-- The C library's `snprintf`, and `agFmtExtensions` -/
structure FmtEngine where
  snprintf : List UInt8 → FmtArg → List UInt8
  extensions : List FmtStringExt

/-! ## Decimal numbers -/

/-- The digits of a number, the last one first -/
def lastDigitsFirst (value : Nat) : List UInt8 :=
  let digit := UInt8.ofNat (48 + value % 10)
  if value < 10 then [digit] else digit :: lastDigitsFirst (value / 10)

namespace FmtPiece

/-- The number of an `int`, its sign included, the last character first -/
def reversedInt (value : Int32) : List UInt8 :=
  lastDigitsFirst value.toInt.natAbs ++ (if value < 0 then [45] else [])

/-- What a piece puts out when there is room for it. -/
def text : FmtPiece → List UInt8
  | .literal c => [c]
  | .char c => [c]
  | .copied s => s
  | .native s => s
  | .int value => (reversedInt value).reverse
  | .uint value => (lastDigitsFirst value.toNat).reverse
  | .raw s => s

/-- `INT_MAX`, beyond which `snprintf` fails -/
def intMax : Nat := 2 ^ 31 - 1

end FmtPiece

/-! ## Reading a format -/

namespace FmtEngine

/-- `CAT_SPEC`: the specifier behind its `%`, one character longer -/
def catSpec (spec : List UInt8) (c : UInt8) : Except Stop (List UInt8) :=
  if spec.length + 3 ≥ 32 then .error .fatal else .ok (spec ++ [c])

/-- `va_arg(ap, int)` or `va_arg(ap, Uint)` -/
def argInt : List FmtArg → Except Stop (UInt32 × List FmtArg)
  | .int bits :: ap => .ok (bits, ap)
  | _ => .error .undefined

/-- `va_arg(ap, char *)` -/
def argString : List FmtArg → Except Stop (List UInt8 × List FmtArg)
  | .string s :: ap => .ok (s, ap)
  | _ => .error .undefined

/-- `va_arg(ap, void *)` -/
def argPointer : List FmtArg → Except Stop (Nat × List FmtArg)
  | .pointer p :: ap => .ok (p, ap)
  | _ => .error .undefined

/-- The C types that a specifier of `Snprintf` takes an argument of -/
inductive NativeType where
  | int
  | long
  | double
  | longDouble
  | string
  deriving Repr, DecidableEq

/-- An argument is of a type. -/
def NativeType.holds : NativeType → FmtArg → Bool
  | .int, .int _ => true
  | .long, .long _ => true
  | .double, .double _ => true
  | .longDouble, .longDouble _ => true
  | .string, .string _ => true
  | _, _ => false

/-- `Snprintf(pDst, (pEnd-pDst), spec, va_arg(ap, …))` -/
def nativePiece (engine : FmtEngine) (type : NativeType) (spec : List UInt8) :
    List FmtArg → Except Stop (FmtPiece × List FmtArg)
  | arg :: ap =>
    if type.holds arg then .ok (.native (engine.snprintf spec arg), ap) else .error .undefined
  | [] => .error .undefined

/-- The conversions behind `%ll`: the piece, with what is left to read -/
def longLong (engine : FmtEngine) (spec : List UInt8) (f : List UInt8) (ap : List FmtArg) :
    Except Stop (FmtPiece × List UInt8 × List FmtArg) :=
  match f with
  | [] =>
    -- the terminator is passed over
    .error .undefined
  | c :: f =>
    if c ∈ "fg".toUTF8.toList then do
      let spec ← catSpec spec c
      let (piece, ap) ← engine.nativePiece .longDouble spec ap
      return (piece, f, ap)
    else if c ∈ "diouxX".toUTF8.toList then do
      let spec ← catSpec spec c
      let (piece, ap) ← engine.nativePiece .long spec ap
      return (piece, f, ap)
    else .ok (.raw [], f, ap)

/-- The conversions behind `%l`: the piece, with what is left to read -/
def long (engine : FmtEngine) (spec : List UInt8) (f : List UInt8) (ap : List FmtArg) :
    Except Stop (FmtPiece × List UInt8 × List FmtArg) :=
  match f with
  | [] => .error .undefined
  | c :: f =>
    if c ∈ "diouxX".toUTF8.toList then do
      let spec ← catSpec spec c
      let (piece, ap) ← engine.nativePiece .long spec ap
      return (piece, f, ap)
    else if c ∈ "fg".toUTF8.toList then do
      let spec ← catSpec spec c
      let (piece, ap) ← engine.nativePiece .double spec ap
      return (piece, f, ap)
    else if c ∈ "l".toUTF8.toList then do
      let spec ← catSpec spec c
      engine.longLong spec f ap
    else .ok (.raw [], f, ap)

/-- `%[`: the first extension whose specifier comes next -/
def extended (engine : FmtEngine) (f : List UInt8) (ap : List FmtArg) :
    Except Stop (FmtPiece × List UInt8 × List FmtArg) :=
  match engine.extensions.find? fun ext => ext.fmt.isPrefixOf f with
  | none => .ok (.raw [], f, ap)
  | some ext => do
      let (p, ap) ← argPointer ap
      -- the closing bracket is passed over with the specifier
      if f.length ≤ ext.fmt.length then .error .undefined
      else return (ext.fn p, f.drop (ext.fmt.length + 1), ap)

/-- A conversion, behind its `%` and some of its flags -/
def conversion (engine : FmtEngine) (spec : List UInt8) : List UInt8 → List FmtArg →
    Except Stop (FmtPiece × List UInt8 × List FmtArg)
  | [], _ => .error .undefined
  | c :: f, ap =>
    if c ∈ "#0- +'.123456789".toUTF8.toList then do
      let spec ← catSpec spec c
      engine.conversion spec f ap
    else if c ∈ "[".toUTF8.toList then engine.extended f ap
    else if c ∈ "di".toUTF8.toList then do
      let spec ← catSpec spec c
      if spec.length = 1 then
        let (bits, ap) ← argInt ap
        return (.int bits.toInt32, f, ap)
      else
        let (piece, ap) ← engine.nativePiece .int spec ap
        return (piece, f, ap)
    else if c ∈ "u".toUTF8.toList then do
      let spec ← catSpec spec c
      if spec.length = 1 then
        let (bits, ap) ← argInt ap
        return (.uint bits, f, ap)
      else
        let (piece, ap) ← engine.nativePiece .int spec ap
        return (piece, f, ap)
    else if c ∈ "oxX".toUTF8.toList then do
      let spec ← catSpec spec c
      let (piece, ap) ← engine.nativePiece .int spec ap
      return (piece, f, ap)
    else if c ∈ "c".toUTF8.toList then do
      let spec ← catSpec spec c
      if spec.length = 1 then
        let (bits, ap) ← argInt ap
        return (.char bits.toUInt8, f, ap)
      else
        let (piece, ap) ← engine.nativePiece .int spec ap
        return (piece, f, ap)
    else if c ∈ "fg".toUTF8.toList then do
      let spec ← catSpec spec c
      let (piece, ap) ← engine.nativePiece .double spec ap
      return (piece, f, ap)
    else if c ∈ "s".toUTF8.toList then do
      let spec ← catSpec spec c
      if spec.length = 1 then
        let (s, ap) ← argString ap
        return (.copied s, f, ap)
      else
        let (piece, ap) ← engine.nativePiece .string spec ap
        return (piece, f, ap)
    else if c ∈ "l".toUTF8.toList then do
      let spec ← catSpec spec c
      engine.long spec f ap
    else if c ∈ "%".toUTF8.toList then .ok (.char c, f, ap)
    else .ok (.raw [], f, ap)

/-- The next piece of a format, with what is left to read -/
def nextPiece (engine : FmtEngine) (c : UInt8) (f : List UInt8) (ap : List FmtArg) :
    Except Stop (FmtPiece × List UInt8 × List FmtArg) :=
  if c ∉ "%".toUTF8.toList ∨ f = [] then .ok (.literal c, f, ap) else engine.conversion [] f ap

/-- The pieces of a format -/
def pieces (engine : FmtEngine) : Nat → List UInt8 → List FmtArg → Except Stop (List FmtPiece)
  | _, [], _ => .ok []
  | 0, _ :: _, _ => .error .outOfFuel
  | fuel + 1, c :: f, ap => do
      let (piece, f, ap) ← engine.nextPiece c f ap
      let rest ← engine.pieces fuel f ap
      return piece :: rest

end FmtEngine

/-! ## Writing into the buffer -/

/-- The buffer `dst`, and the index of `pDst` in it -/
structure FmtBuffer where
  dst : List UInt8
  pDst : Nat
  deriving Repr, DecidableEq

namespace FmtBuffer

/-- Store bytes at an index. -/
def put (buffer : FmtBuffer) (index : Nat) (bytes : List UInt8) : Except Stop FmtBuffer := do
  let dst ← memWrite buffer.dst index bytes
  return { buffer with dst := dst }

/-- `*pEnd = '\0'`, and the loop is left -/
def truncate (buffer : FmtBuffer) (pEnd : Nat) : Except Stop (Bool × FmtBuffer) := do
  let buffer ← buffer.put pEnd [0]
  return (true, buffer)

/-- `if ((pDst += rv) > pEnd) { *pEnd = '\0'; goto out; }` -/
def advance (buffer : FmtBuffer) (pEnd rv : Nat) : Except Stop (Bool × FmtBuffer) :=
  let buffer := { buffer with pDst := buffer.pDst + rv }
  if buffer.pDst > pEnd then buffer.truncate pEnd else .ok (false, buffer)

/-- `AG_Strlcpy` and `snprintf`, into the rest of the buffer -/
def copyTerminated (buffer : FmtBuffer) (pEnd : Nat) (s : List UInt8) : Except Stop FmtBuffer :=
  let size := pEnd - buffer.pDst
  if size = 0 then .ok buffer else buffer.put buffer.pDst (s.take (size - 1) ++ [0])

/--
`AG_StrlcpyInt` and `AG_StrlcpyUint` of a number, the last character first:
the value that is returned and the buffer
-/
def putReversed (buffer : FmtBuffer) (pEnd : Nat)
    (s : List UInt8) : Except Stop (Nat × FmtBuffer) :=
  let size := pEnd - buffer.pDst
  if size < 1 then .ok (1, buffer)
  else if s.length + 1 > size then do
    let buffer ← buffer.put buffer.pDst ((s.take (size - 1)).reverse ++ [0])
    return (size + 1, buffer)
  else do
    let buffer ← buffer.put buffer.pDst (s.reverse ++ [0])
    return (s.length, buffer)

/-- Put out one piece: whether the loop is left, and the buffer. -/
def emit (buffer : FmtBuffer) (pEnd : Nat) : FmtPiece → Except Stop (Bool × FmtBuffer)
  | .literal c => do
      let buffer ← buffer.put buffer.pDst [c]
      let buffer := { buffer with pDst := buffer.pDst + 1 }
      if buffer.pDst ≥ pEnd then buffer.truncate pEnd else return (false, buffer)
  | .char c =>
    if buffer.pDst + 1 > pEnd then buffer.truncate pEnd
    else do
      let buffer ← buffer.put buffer.pDst [c]
      buffer.advance pEnd 1
  | .copied s => do
      let buffer ← buffer.copyTerminated pEnd s
      buffer.advance pEnd s.length
  | .native s =>
    if s.length > FmtPiece.intMax then
      -- `snprintf` returns -1, which is added to `pDst`
      .error .undefined
    else do
      let buffer ← buffer.copyTerminated pEnd s
      buffer.advance pEnd s.length
  | .int value =>
    if value = Int32.minValue then
      -- `-val` overflows
      .error .undefined
    else do
      let (rv, buffer) ← buffer.putReversed pEnd (FmtPiece.reversedInt value)
      buffer.advance pEnd rv
  | .uint value => do
      let (rv, buffer) ← buffer.putReversed pEnd (lastDigitsFirst value.toNat)
      buffer.advance pEnd rv
  | .raw s => do
      let size := pEnd - buffer.pDst
      let buffer ← buffer.put buffer.pDst (s.take size)
      buffer.advance pEnd s.length

/-- What `AG_DoPrintf` does behind `out:` -/
def out (buffer : FmtBuffer) (pEnd : Nat) : Except Stop FmtBuffer :=
  buffer.put (if buffer.pDst < pEnd then buffer.pDst else pEnd) [0]

end FmtBuffer

/-! ## The functions -/

namespace FmtEngine

/-- The loop of `AG_DoPrintf`, and what follows it -/
def formatLoop (engine : FmtEngine) (pEnd : Nat) :
    Nat → List UInt8 → List FmtArg → FmtBuffer → Except Stop FmtBuffer
  | _, [], _, buffer => buffer.out pEnd
  | 0, _ :: _, _, _ => .error .outOfFuel
  | fuel + 1, c :: f, ap, buffer => do
      let (piece, f, ap) ← engine.nextPiece c f ap
      let (truncated, buffer) ← buffer.emit pEnd piece
      if truncated then buffer.out pEnd else engine.formatLoop pEnd fuel f ap buffer

/-- `AG_DoPrintf`: the length that it returns, and the buffer -/
def doPrintf (engine : FmtEngine) (dst fmt : List UInt8)
    (ap : List FmtArg) : Except Stop (Nat × List UInt8) :=
  if dst.length < 1 then .ok (1, dst)
  else do
    let buffer ← FmtBuffer.put ⟨dst, 0⟩ 0 [0]
    let buffer ← engine.formatLoop (dst.length - 1) fmt.length fmt ap buffer
    return (buffer.pDst, buffer.dst)

/-- `AG_FMTSTRING_BUFFER_GROW` -/
def bufferGrow : Nat := 128

/-- The loop at `restart:`, in a buffer of some size -/
def restart (engine : FmtEngine) (allocation : Allocation) (fmt : List UInt8)
    (ap : List FmtArg) : Nat → List UInt8 → Except Stop (List UInt8)
  | 0, _ => .error .outOfFuel
  | fuel + 1, dst => do
      let dst ← memWrite dst 0 [0]
      let (rv, dst) ← engine.doPrintf dst fmt ap
      if rv ≥ dst.length then
        match tryRealloc allocation dst (rv + bufferGrow) with
        | none => .error .fatal
        | some dstNew => engine.restart allocation fmt ap fuel dstNew
      else return dst

end FmtEngine

end Agar.Core
