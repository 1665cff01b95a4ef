import Mathlib

namespace Agar.Lib

/-!
# Texts in JSON

A JSON text is UTF-8.  A string is a sequence of characters between quotation
marks; a character is written as it is, unless it is a quotation mark, a
reverse solidus or a control character, or it is escaped.  An escape may name
the code units of a character in UTF-16.

An escaper that writes each character of a text on its own is judged by
characters: either a reader takes what it writes for the character that is
meant, or the reader stops there.
-/

/-! ## UTF-8 -/

/-- The UTF-8 encoding of a text -/
def utf8 (text : List Char) : List UInt8 := text.flatMap String.utf8EncodeChar

/-- The text that some bytes are the UTF-8 encoding of -/
def decodeUtf8 (bytes : List UInt8) : Option (List Char) :=
  bytes.toByteArray.utf8Decode?.map Array.toList

@[simp] theorem utf8_nil : utf8 [] = [] := rfl

theorem utf8_cons (c : Char) (text : List Char) :
    utf8 (c :: text) = String.utf8EncodeChar c ++ utf8 text :=
  rfl

@[simp] theorem utf8_append (first second : List Char) :
    utf8 (first ++ second) = utf8 first ++ utf8 second := by
  simp [utf8]

@[simp] theorem decodeUtf8_utf8 (text : List Char) : decodeUtf8 (utf8 text) = some text := by
  have encoded : (utf8 text).toByteArray = text.utf8Encode := rfl
  rw [decodeUtf8, encoded, List.utf8Decode?_utf8Encode]
  simp

theorem utf8EncodeChar_ascii {c : Char} (low : c.toNat < 128) :
    String.utf8EncodeChar c = [c.toNat.toUInt8] := by
  have large : ¬ 127 < c.toNat := by omega
  simp [String.utf8EncodeChar]
  exact fun beyond => absurd beyond large

theorem utf8EncodeChar_high {c : Char} (high : 128 ≤ c.toNat) {b : UInt8}
    (inside : b ∈ String.utf8EncodeChar c) : 128 ≤ b.toNat := by
  have large : ¬ c.toNat ≤ 127 := by omega
  simp only [String.utf8EncodeChar, Char.toNat_val, large, if_false] at inside
  split_ifs at inside <;>
    simp only [List.mem_cons, List.not_mem_nil, or_false] at inside <;>
      rcases inside with rfl | rfl | rfl | rfl <;>
        simp <;> omega

/-! ## Strings -/

/-- The value of a hexadecimal digit -/
def jsonDigit (c : Char) : Option Nat :=
  if '0' ≤ c ∧ c ≤ '9' then some (c.toNat - 48)
  else if 'a' ≤ c ∧ c ≤ 'f' then some (c.toNat - 87)
  else if 'A' ≤ c ∧ c ≤ 'F' then some (c.toNat - 55)
  else none

/-- Four hexadecimal digits, and what is behind them -/
def jsonUnit : List Char → Option (Nat × List Char)
  | a :: b :: c :: d :: rest => do
      let unit := 4096 * (← jsonDigit a) + 256 * (← jsonDigit b) +
        16 * (← jsonDigit c) + (← jsonDigit d)
      return (unit, rest)
  | _ => none

/-- The character that one code unit or a pair of them names -/
def jsonUnits (s : List Char) : Option (Char × List Char) := do
  let (unit, rest) ← jsonUnit s
  if 0xD800 ≤ unit ∧ unit < 0xDC00 then
    match rest with
    | '\\' :: 'u' :: more => do
        let (second, rest) ← jsonUnit more
        if 0xDC00 ≤ second ∧ second < 0xE000 then
          some (Char.ofNat (0x10000 + 1024 * (unit - 0xD800) + (second - 0xDC00)), rest)
        else none
    | _ => none
  else if 0xDC00 ≤ unit ∧ unit < 0xE000 then none
  else some (Char.ofNat unit, rest)

/-- The character that is escaped behind a reverse solidus -/
def jsonEscape : List Char → Option (Char × List Char)
  | '"' :: rest => some ('"', rest)
  | '\\' :: rest => some ('\\', rest)
  | '/' :: rest => some ('/', rest)
  | 'b' :: rest => some ('\x08', rest)
  | 'f' :: rest => some ('\x0c', rest)
  | 'n' :: rest => some ('\n', rest)
  | 'r' :: rest => some ('\r', rest)
  | 't' :: rest => some ('\t', rest)
  | 'u' :: rest => jsonUnits rest
  | _ => none

theorem jsonUnit_length {s rest : List Char} {unit : Nat} (read : jsonUnit s = some (unit, rest)) :
    rest.length < s.length := by
  unfold jsonUnit at read
  split at read
  · simp only [Option.bind_eq_bind, Option.bind_eq_some_iff,
      Option.pure_def, Option.some.injEq, Prod.mk.injEq] at read
    obtain ⟨_, _, _, _, _, _, _, _, _, rfl⟩ := read
    simp
    omega
  · cases read

theorem jsonUnits_length {s rest : List Char} {c : Char} (read : jsonUnits s = some (c, rest)) :
    rest.length < s.length := by
  obtain ⟨⟨unit, behind⟩, first, read⟩ := Option.bind_eq_some_iff.mp read
  have shorter := jsonUnit_length first
  dsimp only at read
  split_ifs at read
  · split at read
    · obtain ⟨⟨second, after⟩, last, read⟩ := Option.bind_eq_some_iff.mp read
      have shorterStill := jsonUnit_length last
      simp only [List.length_cons] at shorter
      dsimp only at read
      split_ifs at read
      obtain rfl := (Prod.mk.inj (Option.some.inj read)).2
      omega
    · cases read
  · obtain rfl := (Prod.mk.inj (Option.some.inj read)).2
    exact shorter

theorem jsonEscape_length {s rest : List Char} {c : Char} (read : jsonEscape s = some (c, rest)) :
    rest.length < s.length := by
  unfold jsonEscape at read
  split at read
  case h_9 => exact Nat.lt_succ_of_lt (jsonUnits_length read)
  all_goals
    cases read
    try exact Nat.lt_succ_self _

/--
The characters of a string from behind its first quotation mark on, and what is
behind its last one
-/
def jsonChars : List Char → Option (List Char × List Char)
  | [] => none
  | c :: rest =>
    if c = '"' then some ([], rest)
    else if c = '\\' then
      match _escape : jsonEscape rest with
      | none => none
      | some (escaped, more) => (jsonChars more).map fun (text, behind) => (escaped :: text, behind)
    else if c < ' ' then none
    else (jsonChars rest).map fun (text, behind) => (c :: text, behind)
  termination_by s => s.length
  decreasing_by
    · have shorter := jsonEscape_length _escape
      exact Nat.lt_succ_of_lt shorter
    · exact Nat.lt_succ_self _

/-! ## Escapers -/

/-- A reader takes what is written for some characters, whatever is behind it. -/
def Reads (written meant : List Char) : Prop :=
  ∀ rest, jsonChars (written ++ rest) =
      (jsonChars rest).map fun (text, behind) => (meant ++ text, behind)

/-- A reader stops at what is written, whatever is behind it. -/
def Stops (written : List Char) : Prop := ∀ rest, jsonChars (written ++ rest) = none

theorem Reads.nil : Reads [] [] := by
  intro rest
  exact Option.map_id'.symm

theorem Reads.append {first second meant also : List Char} (early : Reads first meant)
    (late : Reads second also) : Reads (first ++ second) (meant ++ also) := by
  intro rest
  rw [List.append_assoc, early, late, Option.map_map]
  simp [Function.comp_def]

theorem reads_plain {c : Char} (quote : c ≠ '"') (solidus : c ≠ '\\') (printed : ' ' ≤ c) :
    Reads [c] [c] := by
  intro rest
  rw [List.singleton_append, jsonChars, if_neg quote, if_neg solidus, if_neg (not_lt.mpr printed)]
  rfl

theorem stops_control {c : Char} (control : c < ' ') : Stops [c] := by
  intro rest
  have quote : c ≠ '"' := by
    rintro rfl
    exact absurd control (by decide)
  have solidus : c ≠ '\\' := by
    rintro rfl
    exact absurd control (by decide)
  rw [List.singleton_append, jsonChars, if_neg quote, if_neg solidus, if_pos control]

theorem reads_escape {letter c : Char}
    (escape : ∀ rest, jsonEscape (letter :: rest) = some (c, rest)) : Reads ['\\', letter] [c] := by
  intro rest
  rw [List.cons_append, List.singleton_append, jsonChars, if_neg (by decide), if_pos rfl]
  split
  · rename_i failed
    rw [escape] at failed
    cases failed
  · rename_i found
    rw [escape] at found
    cases found
    rfl

theorem jsonChars_quote (rest : List Char) : jsonChars ('"' :: rest) = some ([], rest) := by
  rw [jsonChars, if_pos rfl]

section Escaper

variable {escape meant : Char → List Char} {plain : Char → Prop}
  {text : List Char}

theorem reads_flatMap (reads : ∀ c, plain c → Reads (escape c) (meant c))
    (ordinary : ∀ c ∈ text, plain c) : Reads (text.flatMap escape) (text.flatMap meant) := by
  induction text with
  | nil => exact .nil
  | cons c text ih =>
    rw [List.flatMap_cons, List.flatMap_cons]
    exact (reads c (ordinary c List.mem_cons_self)).append (ih fun c inText =>
        ordinary c (List.mem_cons_of_mem _ inText))

theorem stops_flatMap (reads : ∀ c, plain c → Reads (escape c) (meant c))
    (stops : ∀ c, ¬ plain c → Stops (escape c)) (other : ∃ c ∈ text, ¬ plain c) :
    Stops (text.flatMap escape) := by
  induction text with
  | nil => simp at other
  | cons c text ih =>
    intro rest
    rw [List.flatMap_cons, List.append_assoc]
    by_cases first : plain c
    · have later : ∃ c ∈ text, ¬ plain c := by simpa [first] using other
      rw [reads c first, ih later, Option.map_none]
    · exact stops c first _

theorem jsonChars_flatMap_iff (reads : ∀ c, plain c → Reads (escape c) (meant c))
    (stops : ∀ c, ¬ plain c → Stops (escape c)) (rest : List Char) :
    jsonChars (text.flatMap escape ++ '"' :: rest) = some (text.flatMap meant, rest) ↔
      ∀ c ∈ text, plain c := by
  constructor
  · intro read
    by_contra other
    push Not at other
    rw [stops_flatMap reads stops other] at read
    cases read
  · intro ordinary
    rw [reads_flatMap reads ordinary, jsonChars_quote]
    simp

end Escaper

/-- A string, and what is behind it -/
def jsonString : List Char → Option (List Char × List Char)
  | '"' :: rest => jsonChars rest
  | _ => none

/-- White space between the tokens -/
def jsonSpace (c : Char) : Bool := c = ' ' ∨ c = '\t' ∨ c = '\n' ∨ c = '\r'

/-- The text of a string that some bytes are -/
def readJsonString (bytes : List UInt8) : Option (List Char) := do
  let (text, rest) ← jsonString (← decodeUtf8 bytes)
  if rest = [] then some text else none

/-- The name and the string of a member that some bytes are -/
def readJsonMember (bytes : List UInt8) : Option (List Char × List Char) := do
  let (name, rest) ← jsonString (← decodeUtf8 bytes)
  match rest.dropWhile jsonSpace with
  | ':' :: rest => do
      let (text, rest) ← jsonString (rest.dropWhile jsonSpace)
      if rest = [] then some (name, text) else none
  | _ => none

theorem readJsonString_eq_some_iff {body text : List Char} :
    readJsonString (utf8 ('"' :: (body ++ ['"']))) = some text ↔
      jsonChars (body ++ ['"']) = some (text, []) := by
  simp only [readJsonString, decodeUtf8_utf8, Option.bind_eq_bind, Option.bind_some, jsonString]
  cases jsonChars (body ++ ['"']) with
  | none => simp
  | some pair => simp [Prod.ext_iff, and_comm]

theorem readJsonMember_eq_some_iff {name body text : List Char}
    (ordinary : ∀ c ∈ name, c ≠ '"' ∧ c ≠ '\\' ∧ ' ' ≤ c) :
    readJsonMember
        (utf8 ('"' :: (name ++ '"' :: ':' :: ' ' :: '"' :: (body ++ ['"'])))) = some (name, text) ↔
      jsonChars (body ++ ['"']) = some (text, []) := by
  have named :=
    @reads_flatMap (fun c => [c]) (fun c => [c]) _ _
      (fun c plain => reads_plain plain.1 plain.2.1 plain.2.2) ordinary
      ('"' :: ':' :: ' ' :: '"' :: (body ++ ['"']))
  simp only [List.flatMap_singleton', jsonChars_quote, Option.map_some, List.append_nil] at named
  have colon : ∀ rest, (':' :: rest).dropWhile jsonSpace = ':' :: rest :=
    fun rest => List.dropWhile_cons_of_neg (by decide)
  have space : (' ' :: '"' :: (body ++ ['"'])).dropWhile jsonSpace = '"' :: (body ++ ['"']) := by
    rw [List.dropWhile_cons_of_pos (by decide), List.dropWhile_cons_of_neg (by decide)]
  simp only [readJsonMember, decodeUtf8_utf8, Option.bind_eq_bind,
    Option.bind_some, jsonString, named, colon, space]
  cases jsonChars (body ++ ['"']) with
  | none => simp
  | some pair => simp [Prod.ext_iff, and_comm]

end Agar.Lib
