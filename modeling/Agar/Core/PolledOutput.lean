import Agar.Core.PolledFormat
import Agar.Core.PrintfFrame

namespace Agar.Core

open Agar.Lib

/-!
# Polled arguments in step

When `AG_ProcessFmtString` makes of the listed conversions what is behind the
pointers that `AG_PrintfP` stored.  The conversions `%ld`, `%li`, `%lu`, `%lo`
and `%lx` are listed, and a pointer is stored for each, but none is read: their
letter is put out, and every later conversion reads the pointer of an earlier
one.  A string or a number that reaches the end of the buffer lacks its last
character, and a text that does not fit is not measured any further.
-/

/-! ## The listed conversions -/

/-- The specifiers that the manual lists -/
inductive ListedConversion where
  | d | i | ld | li | lld | lli
  | o | u | x | X | lu | lo | lx | llu | llo | llx
  | c | s | f | g | lf | lg | llf | llg
  | u8 | s8 | u16 | s16 | u32 | s32 | u64 | s64 | objName | objType
  deriving Repr, DecidableEq

namespace ListedConversion

/-- The specifier, behind its `%` -/
def specifier : ListedConversion → String
  | .d => "d"
  | .i => "i"
  | .ld => "ld"
  | .li => "li"
  | .lld => "lld"
  | .lli => "lli"
  | .o => "o"
  | .u => "u"
  | .x => "x"
  | .X => "X"
  | .lu => "lu"
  | .lo => "lo"
  | .lx => "lx"
  | .llu => "llu"
  | .llo => "llo"
  | .llx => "llx"
  | .c => "c"
  | .s => "s"
  | .f => "f"
  | .g => "g"
  | .lf => "lf"
  | .lg => "lg"
  | .llf => "llf"
  | .llg => "llg"
  | .u8 => "[u8]"
  | .s8 => "[s8]"
  | .u16 => "[u16]"
  | .s16 => "[s16]"
  | .u32 => "[u32]"
  | .s32 => "[s32]"
  | .u64 => "[u64]"
  | .s64 => "[s64]"
  | .objName => "[objName]"
  | .objType => "[objType]"

end ListedConversion

/-- A part of a format, with the pointer of its argument -/
inductive PolledPart where
  /-- A character that starts no conversion and ends no string -/
  | literal (c : UInt8) (plain : c ≠ 0 ∧ c ≠ 37)
  /-- `%%` -/
  | percent
  | conversion (listed : ListedConversion) (pointer : Nat)

namespace PolledPart

/-- The characters of a part -/
def spelled : PolledPart → List UInt8
  | .literal c _ => [c]
  | .percent => ascii "%%"
  | .conversion listed _ => 37 :: ascii listed.specifier

/-- The pointer that a part takes -/
def pointer? : PolledPart → Option Nat
  | .conversion _ pointer => some pointer
  | _ => none

end PolledPart

/-- The format string of some parts -/
def formatOf (parts : List PolledPart) : List UInt8 := parts.flatMap PolledPart.spelled

/-- The arguments of `AG_PrintfP`, one for each conversion -/
def pointersOf (parts : List PolledPart) : List Nat := parts.filterMap PolledPart.pointer?

/-! ## The text of a format -/

/-- The character of a digit -/
def digitCharacter (digit : Nat) : UInt8 :=
  if digit < 10 then UInt8.ofNat (48 + digit) else UInt8.ofNat (87 + digit)

/-- A number to some base -/
def numeral (base value : Nat) : List UInt8 :=
  if value = 0 then [48] else (base.digits value).reverse.map digitCharacter

/-- A number with its sign -/
def signedNumeral (value : Int64) : List UInt8 :=
  if value < 0 then 45 :: numeral 10 value.toInt.natAbs else numeral 10 value.toInt.natAbs

/-- What a part of the format is to put out -/
inductive Shown where
  /-- What `AG_ProcessFmtString` puts out for it -/
  | read (piece : PolledPiece)
  /-- The text of a conversion that it does not know, and the letter of it -/
  | unread (letter : UInt8) (text : List UInt8)

/-- The output of one piece -/
def PolledPiece.text : PolledPiece → List UInt8
  | .piece printed => printed.text
  | .stored c => [c]

namespace Shown

def text : Shown → List UInt8
  | .read piece => piece.text
  | .unread _ text => text

/-- The conversion is known, and its value has an absolute value. -/
def Read : Shown → Prop
  | .read (.piece piece) => piece.Defined
  | .read (.stored _) => True
  | .unread _ _ => False

/-- A number of the code, or one that it does not read -/
def IsNumber : Shown → Prop
  | .read (.piece piece) => piece.IsNumber
  | .read (.stored _) => False
  | .unread _ _ => True

end Shown

/-- The whole text -/
def shownText (shown : List Shown) : List UInt8 := shown.flatMap Shown.text

/--
A part may take the last place of the buffer: a `%c` or `%%`, or a character
of the format that nothing is put out behind.
-/
def Shown.EndsBuffer (rest : List Shown) : Shown → Prop
  | .read (.piece (.literal _)) => shownText rest = []
  | .read (.stored _) => True
  | _ => False

/--
The parts from an index on are put out and measured as they should be, in a
buffer that ends at `pEnd`.
-/
def RightFrom (pEnd : Nat) : Nat → List Shown → Prop
  | _, [] => True
  | start, first :: rest =>
    if start + first.text.length < pEnd then
      first.Read ∧ RightFrom pEnd (start + first.text.length) rest
    else if start < pEnd then first.EndsBuffer rest ∧ RightFrom pEnd pEnd rest
    else if first.text = [] then RightFrom pEnd start rest
    else shownText rest = [] ∧ (first.IsNumber → first.text.length = 1)

namespace PolledEngine

/-- What the value behind the pointer of a conversion is to put out -/
def shownValue (engine : PolledEngine) (pointer : Nat) : ListedConversion → Shown :=
  let memory := engine.memory
  let native (spec : String) (value : FmtArg) :=
    Shown.read (.piece (.native (engine.snprintf (ascii spec) value)))
  fun
  | .d | .i | .s32 => .read (.piece (.int (memory.int pointer).toInt32))
  | .u | .u32 => .read (.piece (.uint (memory.int pointer)))
  | .ld => .unread 100 (signedNumeral (memory.long pointer).toInt64)
  | .li => .unread 105 (signedNumeral (memory.long pointer).toInt64)
  | .lu => .unread 117 (numeral 10 (memory.long pointer).toNat)
  | .lo => .unread 111 (numeral 8 (memory.long pointer).toNat)
  | .lx => .unread 120 (numeral 16 (memory.long pointer).toNat)
  | .lld | .lli | .s64 => native "lld" (.long (memory.long pointer))
  | .llu | .u64 => native "llu" (.long (memory.long pointer))
  | .llo => native "llo" (.long (memory.long pointer))
  | .llx => native "llx" (.long (memory.long pointer))
  | .o => native "o" (.int (memory.int pointer))
  | .x => native "x" (.int (memory.int pointer))
  | .X => native "X" (.int (memory.int pointer))
  | .f => native ".2f" (.double (memory.float pointer))
  | .g => native "g" (.double (memory.float pointer))
  | .lf => native ".2f" (.double (memory.double pointer))
  | .lg => native "g" (.double (memory.double pointer))
  | .llf => native ".2Lf" (.longDouble (memory.longDouble pointer))
  | .llg => native ".2Lg" (.longDouble (memory.longDouble pointer))
  | .c => .read (.stored (memory.char pointer))
  | .s => .read (.piece (.copied (memory.string pointer)))
  | .u8 => .read (.piece (.uint (memory.uint8 pointer).toUInt32))
  | .s8 => .read (.piece (.int (memory.uint8 pointer).toInt8.toInt32))
  | .u16 => .read (.piece (.uint (memory.uint16 pointer).toUInt32))
  | .s16 => .read (.piece (.int (memory.uint16 pointer).toInt16.toInt32))
  | .objName => .read (.piece (.copied (nameOr memory.name pointer)))
  | .objType => .read (.piece (.copied (nameOr memory.className pointer)))

/-- What a part of the format is to put out -/
def shown (engine : PolledEngine) : PolledPart → Shown
  | .literal c _ => .read (.piece (.literal c))
  | .percent => .read (.stored 37)
  | .conversion listed pointer => engine.shownValue pointer listed

/-- The text that the format is to make of the polled values -/
def polledText (engine : PolledEngine) (parts : List PolledPart) : List UInt8 :=
  shownText (parts.map engine.shown)

/--
The pointers of a format are stored, and the values behind them are put out:
the buffer holds what there is room for of the text, terminated, and the
length of the whole text is returned.
-/
def InStep (engine : PolledEngine) (parts : List PolledPart) (dst : List UInt8) : Prop :=
  ∃ fs after, printfP (formatOf parts) (pointersOf parts) = .ok fs ∧
    engine.processFmtString fs dst = .ok ((engine.polledText parts).length, after) ∧
    after.length = dst.length ∧
    (engine.polledText parts).take (dst.length - 1) ++ [0] <+: after

/-- The specifiers that numbers are formatted with, and their types -/
def numberSpecifiers : List (String × FmtEngine.NativeType) :=
  [("lld", .long), ("llu", .long), ("llo", .long), ("llx", .long),
   ("o", .int), ("x", .int), ("X", .int), (".2f", .double), ("g", .double),
   (".2Lf", .longDouble), (".2Lg", .longDouble)]

/-- `snprintf` makes a string of a number, of a length that is an `int`. -/
def PrintsNumbers (engine : PolledEngine) : Prop :=
  ∀ spec type, (spec, type) ∈ numberSpecifiers → ∀ value, type.holds value = true →
      0 ∉ engine.snprintf (ascii spec) value ∧
        (engine.snprintf (ascii spec) value).length ≤ FmtPiece.intMax

end PolledEngine

/-! ## Reading the format -/

namespace PolledEngine

variable {engine : PolledEngine} {p : List Nat} {curArg pointer : Nat}

theorem argAt_eq (found : p[curArg]? = some pointer) : argAt p curArg = .ok pointer := by
  rw [argAt, found]

theorem formatted_eq (found : p[curArg]? = some pointer) (spec : String) (value : Nat → FmtArg)
    (f : List UInt8) :
    engine.formatted p spec value f curArg =
      .ok (.piece (.native (engine.snprintf (ascii spec) (value pointer))), f, curArg + 1) := by
  rw [formatted, argAt_eq found]
  rfl

theorem nextPolled_read (found : p[curArg]? = some pointer) {listed : ListedConversion}
    {piece : PolledPiece} (read : engine.shownValue pointer listed = .read piece)
    (rest : List UInt8) :
    engine.nextPolled p 37 (ascii listed.specifier ++ rest) curArg =
      .ok (piece, rest, curArg + 1) := by
  cases listed
  all_goals cases read
  all_goals
    simp [ascii, nextPolled, polledConversion, ListedConversion.specifier,
      polledLong, processFmtString64, formatted_eq found, argAt_eq found,
      polledExtension, extensions, builtinExtensions]
  -- in brackets, the closing one is there to be passed over
  all_goals
    rw [ok_bind, if_neg (by omega)]
    rfl

theorem nextPolled_unread {listed : ListedConversion} {letter : UInt8} {text : List UInt8}
    (unread : engine.shownValue pointer listed = .unread letter text) (rest : List UInt8) :
    engine.nextPolled p 37 (ascii listed.specifier ++ rest) curArg =
      .ok (.nothing, letter :: rest, curArg) := by
  cases listed
  all_goals cases unread
  all_goals
    simp [ascii, nextPolled, polledConversion, ListedConversion.specifier, polledLong]

theorem nextPolled_literal {c : UInt8} (plain : c ≠ 37) (f : List UInt8) :
    engine.nextPolled p c f curArg = .ok (.piece (.literal c), f, curArg) := by
  cases f with
  | nil => rfl
  | cons d rest => rw [nextPolled, if_pos (by simpa [ascii] using plain)]

theorem nextPolled_percent (rest : List UInt8) : engine.nextPolled p 37 (37 :: rest) curArg =
      .ok (.stored 37, rest, curArg) := by
  simp [ascii, nextPolled, polledConversion]

end PolledEngine

/-! ## Storing the pointers -/

theorem printfPLoop_literal {c : UInt8} (plain : c ≠ 37) (f : List UInt8) (ap p : List Nat) :
    printfPLoop (c :: f) ap p = printfPLoop f ap p := by
  rw [printfPLoop.eq_def]
  dsimp only
  rw [if_pos (by simpa [ascii] using plain)]

theorem printfPLoop_literals {text : List UInt8} (plain : 37 ∉ text) (f : List UInt8)
    (ap p : List Nat) : printfPLoop (text ++ f) ap p = printfPLoop f ap p := by
  induction text with
  | nil => rfl
  | cons c text ih =>
    rw [List.mem_cons, not_or] at plain
    rw [List.cons_append, printfPLoop_literal (Ne.symm plain.1), ih plain.2]

theorem printfPLoop_conversion (listed : ListedConversion) (pointer : Nat) (f : List UInt8)
    (ap p : List Nat) :
    printfPLoop (37 :: (ascii listed.specifier ++ f)) (pointer :: ap) p =
      if p.length + 1 ≥ pointersMax then .error .fatal
      else
        printfPLoop f ap (p ++ [pointer]) := by
  obtain ⟨c, specifier, spelled, notPercent, other⟩ : ∃ c specifier,
        ascii listed.specifier = c :: specifier ∧ 37 ∉ c :: specifier ∧
          c ∉ ascii "% " ∧ c ∉ ascii "m" ∧ c ∉ ascii ">" := by
    cases listed
    all_goals
      refine ⟨_, _, rfl, ?_⟩
      decide
  obtain ⟨notSkipped, notMutex, notEnd⟩ := other
  rw [spelled, List.cons_append, printfPLoop, if_neg (by decide)]
  rw [if_neg notSkipped, if_neg notMutex, if_neg notEnd]
  split
  · rfl
  · exact printfPLoop_literals notPercent f ap (p ++ [pointer])

theorem printfPLoop_parts (parts : List PolledPart) (p : List Nat) :
    printfPLoop (formatOf parts) (pointersOf parts) p = if (pointersOf parts).length = 0 ∨
          p.length + (pointersOf parts).length < pointersMax then
        .ok (p ++ pointersOf parts)
      else
        .error .fatal := by
  induction parts generalizing p with
  | nil => simp [formatOf, pointersOf, printfPLoop]
  | cons part rest ih =>
    cases part with
    | literal c plain => exact (printfPLoop_literal plain.2 _ _ p).trans (ih p)
    | percent =>
      have skipped : printfPLoop (37 :: 37 :: formatOf rest) (pointersOf rest) p =
            printfPLoop (formatOf rest) (pointersOf rest) p := by
        rw [printfPLoop.eq_def]
        dsimp only
        rw [if_neg (by decide), if_pos (by decide)]
      exact skipped.trans (ih p)
    | conversion listed pointer =>
      have taken := printfPLoop_conversion listed pointer (formatOf rest) (pointersOf rest) p
      have spelled : printfPLoop (formatOf (.conversion listed pointer :: rest))
              (pointersOf (.conversion listed pointer :: rest)) p =
            printfPLoop (37 :: (ascii listed.specifier ++ formatOf rest))
              (pointer :: pointersOf rest) p :=
        rfl
      have count : (pointersOf (.conversion listed pointer :: rest)).length =
            (pointersOf rest).length + 1 :=
        rfl
      rw [spelled, taken, ih, count, List.length_append, List.length_singleton, List.append_assoc]
      split
      case isTrue full => rw [if_neg (by omega)]
      case isFalse room =>
        apply if_congr _ rfl rfl
        omega

/-! ## What the parts are to put out -/

theorem zero_notMem_lastDigitsFirst (value : Nat) : 0 ∉ lastDigitsFirst value := by
  have nonzero (value : Nat) : (0 : UInt8) ≠ UInt8.ofNat (48 + value % 10) := by
    intro same
    have bits := congrArg UInt8.toNat same
    rw [UInt8.toNat_ofNat'] at bits
    have small : (48 + value % 10) % 2 ^ 8 = 48 + value % 10 := by omega
    have zero : UInt8.toNat 0 = 0 := rfl
    omega
  induction value using lastDigitsFirst.induct with
  | case1 value small =>
    rw [lastDigitsFirst, if_pos small, List.mem_singleton]
    exact nonzero value
  | case2 value large ih =>
    rw [lastDigitsFirst, if_neg large, List.mem_cons, not_or]
    exact ⟨nonzero value, ih⟩

theorem zero_notMem_int (value : Int32) : 0 ∉ (FmtPiece.int value).text := by
  rw [FmtPiece.text, List.mem_reverse, FmtPiece.reversedInt, List.mem_append, not_or]
  refine ⟨zero_notMem_lastDigitsFirst _, ?_⟩
  split <;> decide

theorem zero_notMem_uint (value : UInt32) : 0 ∉ (FmtPiece.uint value).text := by
  rw [FmtPiece.text, List.mem_reverse]
  exact zero_notMem_lastDigitsFirst _

theorem mem_numeral {base value : Nat} (positional : 1 < base) {c : UInt8}
    (member : c ∈ numeral base value) : ∃ digit < base, digitCharacter digit = c := by
  rw [numeral] at member
  split at member
  · rw [List.mem_singleton] at member
    exact ⟨0, by omega, member.symm⟩
  · obtain ⟨digit, listed, rfl⟩ := List.mem_map.mp member
    exact ⟨digit, Nat.digits_lt_base positional (List.mem_reverse.mp listed), rfl⟩

theorem numeral_ne_nil {base : Nat} (value : Nat) : numeral base value ≠ [] := by
  rw [numeral]
  split
  · exact List.cons_ne_nil _ _
  case isFalse nonzero =>
    rw [Ne, List.map_eq_nil_iff, List.reverse_eq_nil_iff]
    exact Nat.digits_ne_nil_iff_ne_zero.mpr nonzero

theorem signedNumeral_ne_nil (value : Int64) : signedNumeral value ≠ [] := by
  rw [signedNumeral]
  split
  · exact List.cons_ne_nil _ _
  · exact numeral_ne_nil _

theorem notMem_signedNumeral {letter : UInt8} (sign : letter ≠ 45)
    (notDigit : ∀ digit < 10, digitCharacter digit ≠ letter) (value : Int64) :
    letter ∉ signedNumeral value := by
  have absent : letter ∉ numeral 10 value.toInt.natAbs := fun member => by
    obtain ⟨digit, small, same⟩ := mem_numeral (by decide) member
    exact notDigit digit small same
  rw [signedNumeral]
  split
  · rw [List.mem_cons, not_or]
    exact ⟨sign, absent⟩
  · exact absent

/-- What a part is to put out is of a form that the code writes. -/
def Shown.Proper : Shown → Prop
  | .read (.piece piece) =>
    (∃ c, piece = .literal c) ∨ piece.StoresTerminator ∧ 0 ∉ piece.text ∧
        (¬ piece.Defined → piece = .int Int32.minValue)
  | .read (.stored _) => True
  | .unread letter text => letter ≠ 37 ∧ text ≠ [] ∧ letter ∉ text

namespace Shown

theorem proper_int (value : Int32) : Proper (.read (.piece (.int value))) :=
  .inr ⟨.inr (.inl ⟨value, rfl⟩), zero_notMem_int value,
    fun undefined => congrArg FmtPiece.int (not_not.mp undefined)⟩

theorem proper_uint (value : UInt32) : Proper (.read (.piece (.uint value))) :=
  .inr ⟨.inr (.inr ⟨value, rfl⟩), zero_notMem_uint value, fun undefined => absurd trivial undefined⟩

theorem proper_copied {s : List UInt8} (noNul : 0 ∉ s) : Proper (.read (.piece (.copied s))) :=
  .inr ⟨.inl ⟨s, .inl rfl⟩, noNul, fun undefined => absurd trivial undefined⟩

theorem proper_signed {letter : UInt8} (sign : letter ≠ 45 ∧ letter ≠ 37)
    (notDigit : ∀ digit < 10, digitCharacter digit ≠ letter) (value : Int64) :
    Proper (.unread letter (signedNumeral value)) :=
  ⟨sign.2, signedNumeral_ne_nil value, notMem_signedNumeral sign.1 notDigit value⟩

theorem proper_numeral {letter : UInt8} {base : Nat} (positional : 1 < base)
    (notPercent : letter ≠ 37) (notDigit : ∀ digit < base, digitCharacter digit ≠ letter)
    (value : Nat) : Proper (.unread letter (numeral base value)) :=
  ⟨notPercent, numeral_ne_nil value, fun member => by
    obtain ⟨digit, small, same⟩ := mem_numeral positional member
    exact notDigit digit small same⟩

end Shown

theorem zero_notMem_nameOr (name : Nat → PolledString) (pointer : Nat) :
    0 ∉ nameOr name pointer := by
  rw [nameOr]
  split
  · exact (name pointer).property
  · decide

namespace PolledEngine

variable {engine : PolledEngine}

theorem proper_native (library : engine.PrintsNumbers) {spec : String} {type : FmtEngine.NativeType}
    (listed : (spec, type) ∈ numberSpecifiers) {value : FmtArg} (holds : type.holds value = true) :
    Shown.Proper (.read (.piece (.native (engine.snprintf (ascii spec) value)))) := by
  obtain ⟨noNul, length⟩ := library spec type listed value holds
  exact .inr ⟨.inl ⟨_, .inr rfl⟩, noNul, fun undefined => absurd length undefined⟩

theorem shown_proper (library : engine.PrintsNumbers) (part : PolledPart) :
    (engine.shown part).Proper := by
  cases part with
  | literal c plain => exact .inl ⟨c, rfl⟩
  | percent => trivial
  | conversion listed pointer =>
    cases listed with
    | d | i | s8 | s16 | s32 => exact Shown.proper_int _
    | u | u8 | u16 | u32 => exact Shown.proper_uint _
    | ld | li => exact Shown.proper_signed (by decide) (by decide) _
    | lu | lo | lx => exact Shown.proper_numeral (by decide) (by decide) (by decide) _
    | s => exact Shown.proper_copied (engine.memory.string pointer).property
    | objName | objType => exact Shown.proper_copied (zero_notMem_nameOr _ pointer)
    | c => trivial
    | lld | lli | llu | llo | llx | u64 | s64 =>
      exact @proper_native engine library _ .long (by decide) _ rfl
    | o | x | X => exact @proper_native engine library _ .int (by decide) _ rfl
    | f | g | lf | lg => exact @proper_native engine library _ .double (by decide) _ rfl
    | llf | llg => exact @proper_native engine library _ .longDouble (by decide) _ rfl

end PolledEngine

end Agar.Core
