import Mathlib

namespace Agar.Lib

/-!
# Strings in buffers

A `CString size` is the string that a buffer of `size` bytes holds, without
its terminator: it has no NUL byte and leaves room for one.  Copying and
appending truncate to the buffer, as `strlcpy` and `strlcat` do; both are the
identity on what fits.
-/

/-- The string in a buffer of `size` bytes. -/
@[ext] structure CString (size : Nat) where
  bytes : List UInt8
  noNul : 0 ∉ bytes
  fits : bytes.length < size
  deriving DecidableEq

/-- The bytes of a string of ASCII characters. -/
def ascii (text : String) : List UInt8 := text.toList.map fun letter => letter.toNat.toUInt8

/-- `tolower` -/
def toLower (byte : UInt8) : UInt8 :=
  if 65 ≤ byte ∧ byte ≤ 90 then byte + 32 else byte

/-- `strcasecmp(s, t) == 0` -/
def equalsNoCase (s t : List UInt8) : Bool := s.map toLower = t.map toLower

/-- The string that some memory starts with. -/
def cString (bytes : List UInt8) : List UInt8 := bytes.takeWhile (· ≠ 0)

@[simp] theorem cString_nil : cString [] = [] := rfl

theorem cString_cons (byte : UInt8) (rest : List UInt8) : cString (byte :: rest) =
      if byte = 0 then [] else byte :: cString rest := by
  by_cases terminator : byte = 0 <;> simp [cString, terminator]

theorem cString_noNul (bytes : List UInt8) : 0 ∉ cString bytes := by
  induction bytes with
  | nil => simp
  | cons byte rest ih =>
    rw [cString_cons]
    split
    · simp
    case isFalse nonzero => simpa [ih] using Ne.symm nonzero

variable {bytes : List UInt8}

theorem cString_append (noNul : 0 ∉ bytes) (rest : List UInt8) :
    cString (bytes ++ rest) = bytes ++ cString rest := by
  induction bytes with
  | nil => rfl
  | cons byte trailing ih =>
    obtain ⟨nonzero, trailingNoNul⟩ : 0 ≠ byte ∧ 0 ∉ trailing := by simpa using noNul
    rw [List.cons_append, cString_cons, if_neg (Ne.symm nonzero),
      ih trailingNoNul, List.cons_append]

theorem cString_terminated (noNul : 0 ∉ bytes) (rest : List UInt8) :
    cString (bytes ++ 0 :: rest) = bytes := by
  rw [cString_append noNul, cString_cons, if_pos rfl, List.append_nil]

@[simp] theorem cString_of_noNul (noNul : 0 ∉ bytes) : cString bytes = bytes := by
  simpa using cString_append noNul []

theorem length_cString_le {index : Nat} (nul : bytes[index]? = some 0) :
    (cString bytes).length ≤ index := by
  induction bytes generalizing index with
  | nil => cases nul
  | cons byte rest ih =>
    rw [cString_cons]
    split
    case isTrue => exact Nat.zero_le index
    case isFalse nonzero =>
      cases index with
      | zero => exact absurd (Option.some.inj nul) nonzero
      | succ index => exact Nat.succ_le_succ (ih nul)

theorem length_cString_lt (terminated : 0 ∈ bytes) : (cString bytes).length < bytes.length := by
  obtain ⟨index, inside, nul⟩ := List.getElem_of_mem terminated
  have found : bytes[index]? = some 0 := by rw [List.getElem?_eq_getElem inside, nul]
  exact (length_cString_le found).trans_lt inside

/-- What is in front of the last occurrence of a byte, and what is behind it. -/
def splitLast (byte : UInt8) : List UInt8 → Option (List UInt8 × List UInt8)
  | [] => none
  | first :: rest =>
    match splitLast byte rest with
    | some (front, back) => some (first :: front, back)
    | none => if first = byte then some ([], rest) else none

theorem splitLast_eq_none {byte : UInt8} : splitLast byte bytes = none ↔ byte ∉ bytes := by
  induction bytes with
  | nil => simp [splitLast]
  | cons first rest ih =>
    rw [splitLast]
    cases found : splitLast byte rest with
    | none =>
      have absent := ih.mp found
      simp [absent, eq_comm]
    | some parts =>
      have present : byte ∈ rest := by
        by_contra absent
        rw [ih.mpr absent] at found
        cases found
      simp [present]

theorem splitLast_eq_some {byte : UInt8} {front back : List UInt8}
    (found : splitLast byte bytes = some (front, back)) :
    bytes = front ++ byte :: back ∧ byte ∉ back := by
  induction bytes generalizing front back with
  | nil => cases found
  | cons first rest ih =>
    rw [splitLast] at found
    cases later : splitLast byte rest with
    | none =>
      rw [later, Option.ite_none_right_eq_some, Option.some.injEq, Prod.mk.injEq] at found
      obtain ⟨rfl, rfl, rfl⟩ := found
      exact ⟨rfl, splitLast_eq_none.mp later⟩
    | some parts =>
      obtain ⟨laterFront, laterBack⟩ := parts
      rw [later, Option.some.injEq, Prod.mk.injEq] at found
      obtain ⟨rfl, rfl⟩ := found
      obtain ⟨shape, absent⟩ := ih later
      exact ⟨by rw [shape, List.cons_append], absent⟩

theorem splitLast_append {byte : UInt8} (front : List UInt8) {back : List UInt8}
    (absent : byte ∉ back) : splitLast byte (front ++ byte :: back) = some (front, back) := by
  induction front with
  | nil =>
    rw [List.nil_append, splitLast, splitLast_eq_none.mpr absent]
    exact if_pos rfl
  | cons first rest ih => rw [List.cons_append, splitLast, ih]

namespace CString

variable {size : Nat} [NeZero size]

/-- Copy a string into the buffer, truncating it to fit. -/
def strlcpy (src : List UInt8) : CString size where
  bytes := (cString src).take (size - 1)
  noNul member := cString_noNul src (List.mem_of_mem_take member)
  fits := by
    have positive := Nat.pos_of_neZero size
    rw [List.length_take]
    omega

/-- Append a string to the one in the buffer, truncating it to fit. -/
def strlcat (dst : CString size) (src : List UInt8) : CString size := strlcpy (dst.bytes ++ src)

theorem strlcpy_bytes_of_fits {src : List UInt8} (noNul : 0 ∉ src) (fits : src.length < size) :
    (strlcpy src : CString size).bytes = src := by
  simp only [strlcpy]
  rw [cString_of_noNul noNul, List.take_of_length_le (by omega)]

@[simp] theorem strlcpy_bytes (src : CString size) : (strlcpy src.bytes : CString size) = src :=
  CString.ext (strlcpy_bytes_of_fits src.noNul src.fits)

theorem strlcat_strlcpy {src : List UInt8} (noNul : 0 ∉ src) (more : List UInt8) :
    (strlcpy src : CString size).strlcat more = strlcpy (src ++ more) := by
  apply CString.ext
  simp only [strlcat, strlcpy, cString_of_noNul noNul]
  by_cases fits : src.length ≤ size - 1
  · rw [List.take_of_length_le fits]
  · have long : size - 1 ≤ src.length := Nat.le_of_not_le fits
    have kept : 0 ∉ src.take (size - 1) := fun member => noNul (List.mem_of_mem_take member)
    rw [cString_append kept, cString_append noNul, List.take_append_of_le_length,
      List.take_append_of_le_length long, List.take_take, Nat.min_self]
    rw [List.length_take, Nat.min_eq_left long]

end CString

theorem bytes_strlcpy_eq_iff {size : Nat} [NeZero size] {text : List UInt8} (noNul : 0 ∉ text) :
    (CString.strlcpy text : CString size).bytes = text ↔ text.length < size := by
  constructor
  · intro same
    have fits := (CString.strlcpy text : CString size).fits
    rwa [same] at fits
  · exact CString.strlcpy_bytes_of_fits noNul

end Agar.Lib
