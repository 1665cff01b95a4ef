import Agar.Core.PrintfCapacity
import Agar.Lib.CString

namespace Agar.Core

open Agar.Lib

/-!
# Format strings whose arguments are read later

`AG_PrintfP` stores a format and one pointer for each of its conversions, and
`AG_ProcessFmtString` makes a text of the values that are behind the pointers
at that time.  Each of the two reads the format on its own.

The polled memory is given by the value of each type that is at an address.
-/

/-- A string in memory: the bytes in front of its terminator -/
abbrev PolledString := { bytes : List UInt8 // 0 ∉ bytes }

/-- The values that are at an address, by their types -/
structure PolledMemory where
  char : Nat → UInt8
  int : Nat → UInt32
  /-- A `long`, or a `long long` -/
  long : Nat → UInt64
  /-- A `float`, as the `double` that it is passed as -/
  float : Nat → UInt64
  double : Nat → UInt64
  longDouble : Nat → Vector UInt8 10
  uint8 : Nat → UInt8
  uint16 : Nat → UInt16
  string : Nat → PolledString
  /-- The name of an object -/
  name : Nat → PolledString
  /-- The name of the class of an object -/
  className : Nat → PolledString

/-- `AG_FmtString`, without the mutexes of its pointers -/
structure FmtString where
  s : List UInt8
  p : List Nat
  deriving Repr, DecidableEq

/-- `AG_STRING_POINTERS_MAX` -/
def pointersMax : Nat := 32

/-! ## Storing the pointers -/

/-- The loop of `AG_PrintfP`, over the pointers of its `va_list` -/
def printfPLoop : List UInt8 → List Nat → List Nat → Except Stop (List Nat)
  | [], _, p => .ok p
  | c :: f, ap, p =>
    if c ∉ ascii "%" then printfPLoop f ap p
    else
      match f with
      | [] => .ok p
      | d :: rest =>
        if d ∈ ascii "% " then printfPLoop rest ap p
        else if d ∈ ascii "m" then
          match ap with
          | [] => .error .undefined
          | _ :: ap => printfPLoop (d :: rest) ap p
        else if d ∈ ascii ">" then printfPLoop (d :: rest) ap p
        else if p.length + 1 ≥ pointersMax then .error .fatal
        else
          match ap with
          | [] => .error .undefined
          | pointer :: ap => printfPLoop (d :: rest) ap (p ++ [pointer])

/-- `AG_PrintfP` -/
def printfP (fmt : List UInt8) (ap : List Nat) : Except Stop FmtString := do
  let p ← printfPLoop fmt ap []
  return { s := fmt, p := p }

/-! ## Reading the format again -/

/-- What one character of the format, or one conversion, puts out, and how -/
inductive PolledPiece where
  /-- As `AG_DoPrintf` does it -/
  | piece (piece : FmtPiece)
  /-- What `%c` and `%%` store, whatever room there is -/
  | stored (c : UInt8)
  deriving DecidableEq

/-- A conversion that puts out nothing, and that is none -/
def PolledPiece.nothing : PolledPiece := .piece (.raw [])

/-- The name behind a pointer that may be `NULL` -/
def nameOr (name : Nat → PolledString) (pointer : Nat) : List UInt8 :=
  if pointer ≠ 0 then (name pointer).val else ascii "(null)"

/-- What `AG_InitStringSubsystem` registers -/
def builtinExtensions (snprintf : List UInt8 → FmtArg → List UInt8)
    (memory : PolledMemory) : List FmtStringExt :=
  [{ fmt := ascii "u8"
     fn := fun p => .uint (memory.uint8 p).toUInt32 },
   { fmt := ascii "s8"
     fn := fun p => .int (memory.uint8 p).toInt8.toInt32 },
   { fmt := ascii "u16"
     fn := fun p => .uint (memory.uint16 p).toUInt32 },
   { fmt := ascii "s16"
     fn := fun p => .int (memory.uint16 p).toInt16.toInt32 },
   { fmt := ascii "u32"
     fn := fun p => .uint (memory.int p) },
   { fmt := ascii "s32"
     fn := fun p => .int (memory.int p).toInt32 },
   { fmt := ascii "u64"
     fn := fun p => .native (snprintf (ascii "llu") (.long (memory.long p))) },
   { fmt := ascii "s64"
     fn := fun p => .native (snprintf (ascii "lld") (.long (memory.long p))) },
   { fmt := ascii "objName"
     fn := fun p => .copied (nameOr memory.name p) },
   { fmt := ascii "objType"
     fn := fun p => .copied (nameOr memory.className p) }]

/-- The C library's `snprintf`, what is polled, and the registered extensions -/
structure PolledEngine where
  snprintf : List UInt8 → FmtArg → List UInt8
  memory : PolledMemory
  /-- What was registered behind the built-in extensions -/
  registered : List FmtStringExt

namespace PolledEngine

/-- `agFmtExtensions` -/
def extensions (engine : PolledEngine) : List FmtStringExt :=
  builtinExtensions engine.snprintf engine.memory ++ engine.registered

/-- `fs->p[fs->curArg]`, which is not initialised behind the stored ones -/
def argAt (p : List Nat) (curArg : Nat) : Except Stop Nat :=
  match p[curArg]? with
  | none => .error .undefined
  | some pointer => .ok pointer

/-- `Snprintf(pDst, (pEnd-pDst), spec, FSARG(fs, …))` -/
def formatted (engine : PolledEngine) (p : List Nat) (spec : String) (value : Nat → FmtArg)
    (f : List UInt8) (curArg : Nat) : Except Stop (PolledPiece × List UInt8 × Nat) := do
  let pointer ← argAt p curArg
  return (.piece (.native (engine.snprintf (ascii spec) (value pointer))), f, curArg + 1)

/-- `ProcessFmtString64` -/
def processFmtString64 (engine : PolledEngine) (p : List Nat) (f : List UInt8)
    (curArg : Nat) : Except Stop (PolledPiece × List UInt8 × Nat) :=
  let memory := engine.memory
  let longDouble (pointer : Nat) := FmtArg.longDouble (memory.longDouble pointer)
  let long (pointer : Nat) := FmtArg.long (memory.long pointer)
  match f with
  | [] =>
    -- the terminator is passed over
    .error .undefined
  | c :: f =>
    if c ∈ ascii "f" then engine.formatted p ".2Lf" longDouble f curArg
    else if c ∈ ascii "g" then engine.formatted p ".2Lg" longDouble f curArg
    else if c ∈ ascii "di" then engine.formatted p "lld" long f curArg
    else if c ∈ ascii "o" then engine.formatted p "llo" long f curArg
    else if c ∈ ascii "u" then engine.formatted p "llu" long f curArg
    else if c ∈ ascii "x" then engine.formatted p "llx" long f curArg
    else if c ∈ ascii "X" then engine.formatted p "llX" long f curArg
    else .ok (.nothing, f, curArg)

/-- The conversions behind `%l`, with what is left to read -/
def polledLong (engine : PolledEngine) (p : List Nat) (f : List UInt8)
    (curArg : Nat) : Except Stop (PolledPiece × List UInt8 × Nat) :=
  let double (pointer : Nat) := FmtArg.double (engine.memory.double pointer)
  match f with
  | [] => .ok (.nothing, [], curArg)
  | c :: rest =>
    if c ∈ ascii "f" then engine.formatted p ".2f" double rest curArg
    else if c ∈ ascii "g" then engine.formatted p "g" double rest curArg
    else if c ∈ ascii "l" then engine.processFmtString64 p rest curArg
    else
      -- only the `%l` is passed over
      .ok (.nothing, c :: rest, curArg)

/-- `%[`: the first extension whose specifier comes next -/
def polledExtension (engine : PolledEngine) (p : List Nat) (f : List UInt8)
    (curArg : Nat) : Except Stop (PolledPiece × List UInt8 × Nat) :=
  match engine.extensions.find? fun ext => ext.fmt.isPrefixOf f with
  | none => .ok (.nothing, f, curArg)
  | some ext => do
      let pointer ← argAt p curArg
      -- the closing bracket is passed over with the specifier
      if f.length ≤ ext.fmt.length then .error .undefined
      else return (.piece (ext.fn pointer), f.drop (ext.fmt.length + 1), curArg + 1)

/-- A conversion, behind its `%`, with what is left to read -/
def polledConversion (engine : PolledEngine) (p : List Nat) (c : UInt8) (f : List UInt8)
    (curArg : Nat) : Except Stop (PolledPiece × List UInt8 × Nat) :=
  let memory := engine.memory
  let float (pointer : Nat) := FmtArg.double (memory.float pointer)
  let uint (pointer : Nat) := FmtArg.int (memory.int pointer)
  if c ∈ ascii "[" then engine.polledExtension p f curArg
  else if c ∈ ascii "l" then engine.polledLong p f curArg
  else if c ∈ ascii "di" then do
    let pointer ← argAt p curArg
    return (.piece (.int (memory.int pointer).toInt32), f, curArg + 1)
  else if c ∈ ascii "u" then do
    let pointer ← argAt p curArg
    return (.piece (.uint (memory.int pointer)), f, curArg + 1)
  else if c ∈ ascii "f" then engine.formatted p ".2f" float f curArg
  else if c ∈ ascii "g" then engine.formatted p "g" float f curArg
  else if c ∈ ascii "s" then do
    let pointer ← argAt p curArg
    return (.piece (.copied (memory.string pointer)), f, curArg + 1)
  else if c ∈ ascii "o" then engine.formatted p "o" uint f curArg
  else if c ∈ ascii "x" then engine.formatted p "x" uint f curArg
  else if c ∈ ascii "X" then engine.formatted p "X" uint f curArg
  else if c ∈ ascii "c" then do
    let pointer ← argAt p curArg
    return (.stored (memory.char pointer), f, curArg + 1)
  else if c ∈ ascii "%" then .ok (.stored c, f, curArg)
  else .ok (.nothing, f, curArg)

/-- The next piece of a format, with what is left to read -/
def nextPolled (engine : PolledEngine) (p : List Nat) (c : UInt8) (f : List UInt8)
    (curArg : Nat) : Except Stop (PolledPiece × List UInt8 × Nat) :=
  match f with
  | [] => .ok (.piece (.literal c), [], curArg)
  | d :: rest =>
    if c ∉ ascii "%" then .ok (.piece (.literal c), d :: rest, curArg)
    else engine.polledConversion p d rest curArg

end PolledEngine

/-- Put out one piece: whether the loop is left, and the buffer. -/
def FmtBuffer.emitPolled (buffer : FmtBuffer)
    (pEnd : Nat) : PolledPiece → Except Stop (Bool × FmtBuffer)
  | .piece piece => buffer.emit pEnd piece
  | .stored c => do
      let buffer ← buffer.put buffer.pDst [c]
      buffer.advance pEnd 1

namespace PolledEngine

/-- The loop of `AG_ProcessFmtString`, and what follows it -/
def processLoop (engine : PolledEngine) (p : List Nat) (pEnd : Nat) :
    Nat → List UInt8 → Nat → FmtBuffer → Except Stop FmtBuffer
  | _, [], _, buffer => buffer.out pEnd
  | 0, _ :: _, _, _ => .error .outOfFuel
  | fuel + 1, c :: f, curArg, buffer => do
      let (piece, f, curArg) ← engine.nextPolled p c f curArg
      let (truncated, buffer) ← buffer.emitPolled pEnd piece
      if truncated then buffer.out pEnd else engine.processLoop p pEnd fuel f curArg buffer

/-- `AG_ProcessFmtString`: the length that it returns, and the buffer -/
def processFmtString (engine : PolledEngine) (fs : FmtString)
    (dst : List UInt8) : Except Stop (Nat × List UInt8) :=
  if dst.length < 1 then .ok (0, dst)
  else do
    let buffer ← FmtBuffer.put ⟨dst, 0⟩ 0 [0]
    let buffer ← engine.processLoop fs.p (dst.length - 1) fs.s.length fs.s 0 buffer
    return (buffer.pDst, buffer.dst)

end PolledEngine

end Agar.Core
