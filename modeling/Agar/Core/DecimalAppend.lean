import Agar.Core.GeneratedName
import Agar.Lib.CInteger

namespace Agar.Core.Decimal

open Agar.Lib

/-!
# Numerals in a buffer

`AG_StrlcpyInt`, `AG_StrlcpyUint`, `AG_StrlcatInt` and `AG_StrlcatUint` with
what they return.  The digits are stored from the last one on and reversed in
the end, so that a numeral that is too long loses its first characters, and the
buffer is counted instead of the numeral.
-/

/-! ## The functions -/

/-- How the stores of the functions are left -/
inductive Leave where
  /-- An `int` was increased beyond its type. -/
  | undefined
  /-- `goto trunc`, behind what was stored -/
  | trunc (stored : List UInt8)
  deriving Repr, DecidableEq

/-- `if (i+1 > size) goto trunc; s[i++] = c;`, behind `s[iStart]` -/
def store (size iStart : Nat) (stored : List UInt8) (c : UInt8) : Except Leave (List UInt8) :=
  let i := iStart + stored.length
  if ¬ i + 1 < 2 ^ 31 then .error .undefined
  else if i + 1 > size then .error (.trunc stored)
  else .ok (stored ++ [c])

/-- The loop over the digits -/
def storeDigits (size iStart val : Nat) (stored : List UInt8) : Except Leave (List UInt8) := do
  let stored ← store size iStart stored (48 + val % 10).toUInt8
  if val / 10 > 0 then storeDigits size iStart (val / 10) stored else return stored
termination_by val

/-- `if (sign) { ... s[i++] = '-'; }` -/
def storeSign (size iStart : Nat) (sign : Bool) (stored : List UInt8) : Except Leave (List UInt8) :=
  if sign then store size iStart stored 45 else return stored

/-- The stores of the functions, without the terminator that is stored last -/
def stores (size iStart val : Nat) (sign : Bool) : Except Leave (List UInt8) := do
  let stored ← storeDigits size iStart val []
  let stored ← storeSign size iStart sign stored
  -- `s[i] = '\0'`
  let _ ← store size iStart stored 0
  return stored

/-- What the functions do behind their declarations, and what they return -/
def format (s : List UInt8) (iStart val : Nat) (sign : Bool)
    (size : Nat) : Except Stop (List UInt8 × Nat) :=
  match stores size iStart val sign with
  | .ok stored => .ok (s.take iStart ++ stored.reverse, iStart + stored.length)
  | .error (.trunc stored) =>
    -- `s[size-1] = '\0'`
    .ok (s.take iStart ++ (stored.take (size - 1 - iStart)).reverse, iStart + stored.length + 1)
  | .error .undefined => .error .undefined

/-- `val = (val < 0) ? -val : val` -/
def magnitude (val : CInt .int) : Except Stop Nat :=
  match if val.val < 0 then CType.int.compute (-val.val) else some val with
  | none => .error .undefined
  | some magnitude => .ok magnitude.val.toNat

/-- `int i = strlen(s)`, where `s[i]` is to be in the buffer -/
def startOf (s : List UInt8) : Except Stop Nat :=
  if CType.int.wrap s.length < 0 then .error .undefined else .ok (CType.int.wrap s.length).toNat

/-- `AG_StrlcpyInt`, to a buffer that has some string -/
def strlcpyInt (s : List UInt8) (val : CInt .int) (size : Nat) : Except Stop (List UInt8 × Nat) :=
  if size < 1 then return (s, 1)
  else do
    format [] 0 (← magnitude val) (val.val < 0) size

/-- `AG_StrlcpyUint`, to a buffer that has some string -/
def strlcpyUint (s : List UInt8) (val : CInt ⟨.w32, false⟩)
    (size : Nat) : Except Stop (List UInt8 × Nat) :=
  if size < 1 then return (s, 1) else format [] 0 val.val.toNat false size

/-- `AG_StrlcatInt` -/
def strlcatInt (s : List UInt8) (val : CInt .int)
    (size : Nat) : Except Stop (List UInt8 × Nat) := do
  let iStart ← startOf s
  if size < 1 then return (s, 1) else format s iStart (← magnitude val) (val.val < 0) size

/-- `AG_StrlcatUint` -/
def strlcatUint (s : List UInt8) (val : CInt ⟨.w32, false⟩)
    (size : Nat) : Except Stop (List UInt8 × Nat) := do
  let iStart ← startOf s
  if size < 1 then return (s, 1) else format s iStart val.val.toNat false size

/-- A call of one of the functions, with a buffer of the size that it is given -/
inductive Call where
  | strlcpyInt (s : List UInt8) (val : CInt .int) (size : Nat)
  | strlcpyUint (s : List UInt8) (val : CInt ⟨.w32, false⟩) (size : Nat)
  | strlcatInt (size : Nat) (s : CString size) (val : CInt .int)
  | strlcatUint (size : Nat) (s : CString size) (val : CInt ⟨.w32, false⟩)

namespace Call

/-- What the buffer holds after a call, and what is returned -/
def run : Call → Except Stop (List UInt8 × Nat)
  | strlcpyInt s val size => Decimal.strlcpyInt s val size
  | strlcpyUint s val size => Decimal.strlcpyUint s val size
  | strlcatInt size s val => Decimal.strlcatInt s.bytes val size
  | strlcatUint size s val => Decimal.strlcatUint s.bytes val size

def size : Call → Nat
  | strlcpyInt _ _ size => size
  | strlcpyUint _ _ size => size
  | strlcatInt size _ _ => size
  | strlcatUint size _ _ => size

/-- The number that is written -/
def value : Call → Int
  | strlcpyInt _ val _ => val.val
  | strlcpyUint _ val _ => val.val
  | strlcatInt _ _ val => val.val
  | strlcatUint _ _ val => val.val

/-- The string before the call -/
def old : Call → List UInt8
  | strlcpyInt s _ _ => s
  | strlcpyUint s _ _ => s
  | strlcatInt _ s _ => s.bytes
  | strlcatUint _ s _ => s.bytes

/-- What the numeral is to follow -/
def front : Call → List UInt8
  | strlcpyInt _ _ _ => []
  | strlcpyUint _ _ _ => []
  | strlcatInt _ s _ => s.bytes
  | strlcatUint _ s _ => s.bytes

end Call

/-! ## Numerals -/

/-- The decimal numeral of a number -/
def numeral (value : Int) : List UInt8 :=
  (if value < 0 then [45] else []) ++ (decimalDigits value.natAbs).reverse

/-- The stores of several characters -/
def storeAll (size iStart : Nat) (chars stored : List UInt8) : Except Leave (List UInt8) :=
  chars.foldlM (store size iStart) stored

section Stores

variable {size iStart val : Nat} {stored chars : List UInt8}

theorem storeDigits_eq : storeDigits size iStart val stored =
      storeAll size iStart (decimalDigits val) stored := by
  induction val using Nat.strong_induction_on generalizing stored with
  | _ val ih =>
    rw [storeDigits, decimalDigits_cons, storeAll, List.foldlM_cons]
    congr 1
    funext stored
    by_cases more : val / 10 > 0
    · rw [if_pos more, if_pos more]
      exact ih (val / 10) (by omega)
    · rw [if_neg more, if_neg more]
      rfl

theorem storeAll_eq (room : iStart + stored.length ≤ size)
    (held : iStart + stored.length < 2 ^ 31) :
    storeAll size iStart chars stored = if iStart + stored.length + chars.length ≤ size then
        if iStart + stored.length + chars.length < 2 ^ 31 then .ok (stored ++ chars)
        else .error .undefined
      else if size + 1 < 2 ^ 31 then
        .error (.trunc (stored ++ chars.take (size - iStart - stored.length)))
      else
        .error .undefined := by
  induction chars generalizing stored with
  | nil =>
    rw [List.length_nil, Nat.add_zero, if_pos room, if_pos held, List.append_nil]
    rfl
  | cons c chars ih =>
    rw [storeAll, List.foldlM_cons, store, List.length_cons]
    by_cases next : iStart + stored.length + 1 < 2 ^ 31
    · rw [if_neg (not_not_intro next)]
      by_cases full : iStart + stored.length + 1 > size
      · have filled : iStart + stored.length = size := by omega
        have none : size - iStart - stored.length = 0 := by omega
        rw [if_pos full, if_neg (by omega), if_pos (by omega), none,
          List.take_zero, List.append_nil]
        rfl
      · have longer : iStart + (stored ++ [c]).length = iStart + stored.length + 1 := by
          rw [List.length_append, List.length_singleton, Nat.add_assoc]
        have turn : size - iStart - stored.length = size - iStart - (stored ++ [c]).length + 1 := by
          omega
        have last : iStart + stored.length + 1 + chars.length =
              iStart + stored.length + (chars.length + 1) := by
          omega
        have rest := @ih (stored ++ [c]) (by omega) (by omega)
        rw [if_neg full, ok_bind]
        rw [storeAll] at rest
        rw [rest, longer, last, turn, List.take_succ_cons, List.append_assoc,
          List.append_assoc, List.singleton_append, List.singleton_append]
    · rw [if_pos next]
      by_cases fits : iStart + stored.length + (chars.length + 1) ≤ size
      · rw [if_pos fits, if_neg (by omega)]
        rfl
      · rw [if_neg fits, if_neg (by omega)]
        rfl

/-- The characters that a function stores, the last one first -/
def storedChars (val : Nat) (sign : Bool) : List UInt8 :=
  decimalDigits val ++ if sign then [45] else []

theorem stores_eq (sign : Bool) : stores size iStart val sign = do
      let stored ← storeAll size iStart (storedChars val sign) []
      let _ ← store size iStart stored 0
      return stored := by
  have signed : storeAll size iStart (storedChars val sign) [] =
        storeDigits size iStart val [] >>= storeSign size iStart sign := by
    rw [storeDigits_eq, storedChars, storeAll, storeAll, List.foldlM_append]
    congr 1
    funext stored
    cases sign with
    | false => rfl
    | true =>
      rw [storeSign, if_pos rfl, if_pos rfl, List.foldlM_cons]
      exact bind_pure _
  rw [signed, bind_assoc]
  rfl

end Stores

section Formatted

variable {s : List UInt8} {size iStart val : Nat}

theorem format_eq (sign : Bool) (room : iStart < size) (held : iStart < 2 ^ 31) :
    format s iStart val sign size = let chars := storedChars val sign
      if iStart + chars.length < size then
        if iStart + chars.length + 1 < 2 ^ 31 then
          .ok (s.take iStart ++ chars.reverse, iStart + chars.length)
        else .error .undefined
      else if size + 1 < 2 ^ 31 then
        .ok (s.take iStart ++ (chars.take (size - 1 - iStart)).reverse, size + 1)
      else
        .error .undefined := by
  have whole := @storeAll_eq size iStart [] (storedChars val sign) room.le held
  rw [List.length_nil, Nat.add_zero, Nat.sub_zero, List.nil_append] at whole
  rw [format, stores_eq, whole]
  generalize storedChars val sign = chars
  by_cases fits : iStart + chars.length < size
  · rw [if_pos fits, if_pos fits.le]
    by_cases last : iStart + chars.length + 1 < 2 ^ 31
    · rw [if_pos (by omega), if_pos last, ok_bind, store,
        if_neg (not_not_intro last), if_neg (by omega)]
      rfl
    · rw [if_neg last]
      by_cases here : iStart + chars.length < 2 ^ 31
      · rw [if_pos here, ok_bind, store, if_pos last]
        rfl
      · rw [if_neg here]
        rfl
  · rw [if_neg fits]
    by_cases filled : iStart + chars.length ≤ size
    · have same : iStart + chars.length = size := by omega
      rw [if_pos filled, same]
      by_cases held : size + 1 < 2 ^ 31
      · rw [if_pos (by omega), if_pos held, ok_bind, store, same,
          if_neg (not_not_intro held), if_pos (by omega), ← same]
        rfl
      · rw [if_neg held]
        by_cases here : size < 2 ^ 31
        · rw [if_pos here, ok_bind, store, same, if_pos held]
          rfl
        · rw [if_neg here]
          rfl
    · rw [if_neg filled]
      by_cases held : size + 1 < 2 ^ 31
      · have stored : iStart + (chars.take (size - iStart)).length = size := by
          rw [List.length_take]
          omega
        rw [if_pos held, if_pos held]
        simp only [bind, Except.bind]
        rw [List.nil_append, stored, List.take_take, min_eq_left (by omega)]
      · rw [if_neg held, if_neg held]
        rfl

end Formatted

/-! ## Exact numerals -/

section Exact

variable {old front : List UInt8} {size iStart val : Nat} {value : Int}

end Exact

namespace Call

/-- `AG_StrlcpyInt(s, 123, 3)` -/
def truncated : Call := .strlcpyInt [] ⟨123, by decide⟩ 3

end Call

end Agar.Core.Decimal
