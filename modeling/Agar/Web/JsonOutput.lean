import Agar.Lib.Json
import Agar.Web.Response

namespace Agar.Web

open Agar.Lib
open Agar.Core

/-!
# What a JSON parser reads of the output

`WEB_PutJSON_S`, `WEB_PutJSON_NoHTML_S` and `WEB_VAR_CatJS` replace bytes of a
text; as they replace bytes of ASCII only, they replace characters.  A control
character that they do not replace ends the reading of the text.
-/

open WebVariable

/-! ## Escaping characters -/

/-- What becomes of a character when its bytes are escaped -/
def escapedChar (escape : UInt8 → Option Text) (c : Char) : List Char :=
  if c.toNat < 128 then
    match escape c.toNat.toUInt8 with
    | some s => s.map fun b => Char.ofNat b.toNat
    | none => [c]
  else [c]

/-- An escaper that replaces bytes of ASCII by strings of ASCII -/
def ReplacesASCII (escape : UInt8 → Option Text) : Prop :=
  ∀ b s, escape b = some s → b.toNat < 128 ∧ ∀ d ∈ s, d.toNat < 128

section Escape

variable {escape : UInt8 → Option Text}

theorem toNat_ofNat_of_lt {n : Nat} (low : n < 128) : (Char.ofNat n).toNat = n := by
  have valid : n.isValidChar := .inl (by omega)
  simp [Char.ofNat, valid, Char.toNat, Char.ofNatAux]

theorem utf8_ofASCII {s : Text} (low : ∀ b ∈ s, b.toNat < 128) :
    utf8 (s.map fun b => Char.ofNat b.toNat) = s := by
  induction s with
  | nil => rfl
  | cons b rest ih =>
    have here := toNat_ofNat_of_lt (low b List.mem_cons_self)
    rw [List.map_cons, utf8_cons, ih fun b later => low b (List.mem_cons_of_mem _ later),
      utf8EncodeChar_ascii (by rw [here]; exact low b List.mem_cons_self),
      here]
    simp

theorem escaped_utf8 (replaces : ReplacesASCII escape) (text : List Char) :
    escaped escape (utf8 text) = utf8 (text.flatMap (escapedChar escape)) := by
  have one : ∀ c, escaped escape (String.utf8EncodeChar c) = utf8 (escapedChar escape c) := by
    intro c
    by_cases low : c.toNat < 128
    · rw [utf8EncodeChar_ascii low, escapedChar, if_pos low]
      cases replaced : escape c.toNat.toUInt8 with
      | some s => simp [escaped, replaced, utf8_ofASCII (replaces _ _ replaced).2]
      | none => simp [escaped, replaced, utf8_cons, utf8EncodeChar_ascii low]
    · rw [escapedChar, if_neg low, utf8_cons, utf8_nil, List.append_nil]
      have kept : ∀ b ∈ String.utf8EncodeChar c, escape b = none := by
        intro b inside
        have high := utf8EncodeChar_high (Nat.not_lt.mp low) inside
        cases replaced : escape b with
        | none => rfl
        | some s =>
          have bound := (replaces b s replaced).1
          omega
      calc
        escaped escape (String.utf8EncodeChar c) = (String.utf8EncodeChar c).flatMap fun b => [b] :=
          List.flatMap_congr fun b inside => by simp [kept b inside]
        _ = String.utf8EncodeChar c := List.flatMap_singleton' _
  induction text with
  | nil => rfl
  | cons c text ih =>
    rw [List.flatMap_cons, utf8_append, utf8_cons, ← one, ← ih]
    simp [escaped]

theorem escapedChar_other {c : Char} (other : ∀ b s, escape b = some s → c ≠ Char.ofNat b.toNat) :
    escapedChar escape c = [c] := by
  unfold escapedChar
  split
  · rename_i low
    cases replaced : escape c.toNat.toUInt8 with
    | none => rfl
    | some s =>
      have byte : c.toNat.toUInt8.toNat = c.toNat :=
        UInt8.toNat_ofNat_of_lt' (by change c.toNat < 256; omega)
      have same : c = Char.ofNat c.toNat.toUInt8.toNat := by rw [byte, Char.ofNat_toNat]
      exact absurd same (other _ s replaced)
  · rfl

end Escape

/-! ## The three escapers -/

/-- The characters that `WEB_PutJSON_S` writes so that they can be read -/
def PlainJSON (c : Char) : Prop := ' ' ≤ c ∨ c = '\r' ∨ c = '\n' ∨ c = '\t'

/-- The characters that `WEB_PutJSON_NoHTML_S` writes so -/
def PlainNoHTML (c : Char) : Prop := ' ' ≤ c ∨ c = '\n' ∨ c = '\t'

/-- The characters that `WEB_VAR_CatJS` writes so -/
def PlainJS (c : Char) : Prop := ' ' ≤ c

/-- A character with `<` and `>` replaced by their entities -/
def entity (c : Char) : List Char :=
  if c = '<' then ['&', 'l', 't', ';']
  else if c = '>' then ['&', 'g', 't', ';']
  else [c]

theorem escapeJSON_replaces : ReplacesASCII ResponseData.escapeJSON := by
  intro b s replaced
  unfold ResponseData.escapeJSON at replaced
  split_ifs at replaced <;>
    (obtain rfl := Option.some.inj replaced; subst b; simp [ascii])

theorem escapeJSONNoHTML_replaces : ReplacesASCII ResponseData.escapeJSONNoHTML := by
  intro b s replaced
  unfold ResponseData.escapeJSONNoHTML at replaced
  split_ifs at replaced <;>
    (obtain rfl := Option.some.inj replaced; subst b; simp [ascii])

theorem escapeJS_replaces : ReplacesASCII escapeJS := by
  intro b s replaced
  unfold escapeJS at replaced
  split_ifs at replaced <;>
    (obtain rfl := Option.some.inj replaced; subst b; simp)

theorem escapedChar_escapeJSON {c : Char} (other : c ∉ ['\\', '"', '\r', '\n', '\t']) :
    escapedChar ResponseData.escapeJSON c = [c] := by
  refine escapedChar_other fun b s replaced same => other ?_
  unfold ResponseData.escapeJSON at replaced
  split_ifs at replaced <;> (subst b same; decide)

theorem escapedChar_escapeJSONNoHTML {c : Char} (other : c ∉ ['\\', '"', '\n', '\t', '<', '>']) :
    escapedChar ResponseData.escapeJSONNoHTML c = [c] := by
  refine escapedChar_other fun b s replaced same => other ?_
  unfold ResponseData.escapeJSONNoHTML at replaced
  split_ifs at replaced <;> (subst b same; decide)

theorem escapedChar_escapeJS {c : Char} (other : c ∉ ['\\', '"']) :
    escapedChar escapeJS c = [c] := by
  refine escapedChar_other fun b s replaced same => other ?_
  unfold escapeJS at replaced
  split_ifs at replaced <;> (subst b same; decide)

theorem reads_escapeJSON (c : Char) (plain : PlainJSON c) :
    Reads (escapedChar ResponseData.escapeJSON c) [c] := by
  by_cases special : c ∈ ['\\', '"', '\r', '\n', '\t']
  · simp only [List.mem_cons, List.not_mem_nil, or_false] at special
    rcases special with rfl | rfl | rfl | rfl | rfl
    · exact @reads_escape '\\' _ fun _ => rfl
    · exact @reads_escape '"' _ fun _ => rfl
    · exact @reads_escape 'r' _ fun _ => rfl
    · exact @reads_escape 'n' _ fun _ => rfl
    · exact @reads_escape 't' _ fun _ => rfl
  · rw [escapedChar_escapeJSON special]
    simp only [List.mem_cons, List.not_mem_nil, or_false, not_or] at special
    exact reads_plain special.2.1 special.1 (plain.resolve_right (by simp [special]))

theorem stops_escapeJSON (c : Char) (control : ¬ PlainJSON c) :
    Stops (escapedChar ResponseData.escapeJSON c) := by
  simp only [PlainJSON, not_or, Char.not_le] at control
  obtain ⟨low, noReturn, noFeed, noTab⟩ := control
  have other : c ∉ ['\\', '"', '\r', '\n', '\t'] := by
    simp only [List.mem_cons, List.not_mem_nil, or_false, not_or]
    refine ⟨?_, ?_, noReturn, noFeed, noTab⟩ <;>
      (rintro rfl; exact absurd low (by decide))
  rw [escapedChar_escapeJSON other]
  exact stops_control low

theorem reads_escapeJSONNoHTML (c : Char) (plain : PlainNoHTML c) :
    Reads (escapedChar ResponseData.escapeJSONNoHTML c) (entity c) := by
  by_cases special : c ∈ ['\\', '"', '\n', '\t', '<', '>']
  · simp only [List.mem_cons, List.not_mem_nil, or_false] at special
    have ordinary : ∀ text : List Char,
        (∀ c ∈ text, c ≠ '"' ∧ c ≠ '\\' ∧ ' ' ≤ c) → Reads text text := by
      intro text plain
      have reads :=
        @reads_flatMap (fun c => [c]) (fun c => [c]) _ _
          (fun c plain => reads_plain plain.1 plain.2.1 plain.2.2) plain
      rwa [List.flatMap_singleton'] at reads
    rcases special with rfl | rfl | rfl | rfl | rfl | rfl
    · exact @reads_escape '\\' _ fun _ => rfl
    · exact @reads_escape '"' _ fun _ => rfl
    · exact @reads_escape 'n' _ fun _ => rfl
    · exact @reads_escape 't' _ fun _ => rfl
    · exact ordinary ['&', 'l', 't', ';'] (by simp)
    · exact ordinary ['&', 'g', 't', ';'] (by simp)
  · rw [escapedChar_escapeJSONNoHTML special]
    simp only [List.mem_cons, List.not_mem_nil, or_false, not_or] at special
    rw [entity, if_neg special.2.2.2.2.1, if_neg special.2.2.2.2.2]
    exact reads_plain special.2.1 special.1 (plain.resolve_right (by simp [special]))

theorem stops_escapeJSONNoHTML (c : Char) (control : ¬ PlainNoHTML c) :
    Stops (escapedChar ResponseData.escapeJSONNoHTML c) := by
  simp only [PlainNoHTML, not_or, Char.not_le] at control
  obtain ⟨low, noFeed, noTab⟩ := control
  have other : c ∉ ['\\', '"', '\n', '\t', '<', '>'] := by
    simp only [List.mem_cons, List.not_mem_nil, or_false, not_or]
    refine ⟨?_, ?_, noFeed, noTab, ?_, ?_⟩ <;>
      (rintro rfl; exact absurd low (by decide))
  rw [escapedChar_escapeJSONNoHTML other]
  exact stops_control low

theorem reads_escapeJS (c : Char) (plain : PlainJS c) : Reads (escapedChar escapeJS c) [c] := by
  by_cases special : c ∈ ['\\', '"']
  · simp only [List.mem_cons, List.not_mem_nil, or_false] at special
    rcases special with rfl | rfl
    · exact @reads_escape '\\' _ fun _ => rfl
    · exact @reads_escape '"' _ fun _ => rfl
  · rw [escapedChar_escapeJS special]
    simp only [List.mem_cons, List.not_mem_nil, or_false, not_or] at special
    exact reads_plain special.2 special.1 plain

theorem stops_escapeJS (c : Char) (control : ¬ PlainJS c) : Stops (escapedChar escapeJS c) := by
  have low : c < ' ' := Char.not_le.mp control
  have other : c ∉ ['\\', '"'] := by
    simp only [List.mem_cons, List.not_mem_nil, or_false, not_or]
    refine ⟨?_, ?_⟩ <;> (rintro rfl; exact absurd low (by decide))
  rw [escapedChar_escapeJS other]
  exact stops_control low

/-! ## The output -/

/--
What is appended to the data of a response is a member and a comma, and a parser
reads the member back.
-/
def PutsMember (before after : ResponseData) (key text : List Char) : Prop :=
  ∃ member, after.text = before.text ++ member ++ [44] ∧ readJsonMember member = some (key, text)

/--
What is appended to a variable is a string and a comma, and a parser reads the
string back.
-/
def AppendsString (before : Text) (result : Except Stop WebVariable) (text : List Char) : Prop :=
  ∃ after string, result = .ok after ∧ after.Contains (before ++ string ++ [44]) ∧
        readJsonString string = some text

theorem putMember_iff {escape : UInt8 → Option Text} {meant : Char → List Char}
    {plain : Char → Prop} (replaces : ReplacesASCII escape)
    (reads : ∀ c, plain c → Reads (escapedChar escape c) (meant c))
    (stops : ∀ c, ¬ plain c → Stops (escapedChar escape c)) (fresh : Nat → UInt8) (q : ResponseData)
    {key : List Char} (ordinary : ∀ c ∈ key, c ≠ '"' ∧ c ≠ '\\' ∧ ' ' ≤ c) (v : List Char) :
    PutsMember q (q.putMember escape fresh (utf8 key) (utf8 v)) key (v.flatMap meant) ↔
      ∀ c ∈ v, plain c := by
  have bytes : [34] ++ utf8 key ++ [34, 58, 32, 34] ++ escaped escape (utf8 v) ++ [34] =
        utf8 ('"' :: (key ++ '"' :: ':' :: ' ' :: '"' ::
            (v.flatMap (escapedChar escape) ++ ['"']))) := by
    have letters : String.utf8EncodeChar '"' = [34] ∧ String.utf8EncodeChar ':' = [58] ∧
          String.utf8EncodeChar ' ' = [32] :=
      ⟨rfl, rfl, rfl⟩
    simp [utf8_cons, letters, escaped_utf8 replaces]
  rw [← jsonChars_flatMap_iff reads stops [], ← readJsonMember_eq_some_iff ordinary, ← bytes]
  constructor
  · rintro ⟨member, put, read⟩
    rw [ResponseData.text_putMember] at put
    have same := List.append_cancel_left (List.append_cancel_right put)
    rwa [same]
  · intro read
    exact ⟨_, ResponseData.text_putMember _ _ _, read⟩

theorem contains_unique {V : WebVariable} {first second : Text} (holds : V.Contains first)
    (too : V.Contains second) : first = second := by
  have value := holds.starts.cString_value holds.noNul
  rw [too.starts.cString_value too.noNul] at value
  exact (Option.some.inj value).symm

theorem zero_notMem_utf8 {v : List Char} (noNul : '\x00' ∉ v) : 0 ∉ utf8 v := by
  intro inside
  obtain ⟨c, inText, byte⟩ := List.mem_flatMap.mp inside
  by_cases low : c.toNat < 128
  · rw [utf8EncodeChar_ascii low, List.mem_singleton] at byte
    have zero : c.toNat = 0 := by
      have same := congrArg UInt8.toNat byte
      rw [UInt8.toNat_ofNat_of_lt' (by change c.toNat < 256; omega)] at same
      exact same.symm
    have nul : c = '\x00' := by rw [← Char.ofNat_toNat c, zero]
    exact noNul (nul ▸ inText)
  · have high := utf8EncodeChar_high (Nat.not_lt.mp low) byte
    simp at high

theorem catJS_iff (fresh : Nat → UInt8) {V : WebVariable} {text : Text} (contains : V.Contains text)
    {v : List Char} (noNul : 0 ∉ utf8 v) :
    AppendsString text (V.catJS fresh (utf8 v)) v ↔ ∀ c ∈ v, PlainJS c := by
  have bytes : [34] ++ escaped escapeJS (utf8 v) ++ [34] =
        utf8 ('"' :: (v.flatMap (escapedChar escapeJS) ++ ['"'])) := by
    have quote : String.utf8EncodeChar '"' = [34] := rfl
    simp [utf8_cons, quote, escaped_utf8 escapeJS_replaces]
  have back : v.flatMap (fun c => [c]) = v := List.flatMap_singleton' v
  have read := @jsonChars_flatMap_iff _ _ _ v reads_escapeJS stops_escapeJS []
  rw [back] at read
  obtain ⟨W, appended, becomes⟩ := catJS_becomes fresh contains noNul
  have whole : text ++ literal (utf8 v) =
        text ++ ([34] ++ escaped escapeJS (utf8 v) ++ [34]) ++ [44] := by
    simp [literal]
  rw [← read, ← readJsonString_eq_some_iff, ← bytes]
  constructor
  · rintro ⟨after, string, ended, holds, reads⟩
    cases appended.symm.trans ended
    have same := contains_unique holds becomes.contains
    rw [whole] at same
    have same := List.append_cancel_left (List.append_cancel_right same)
    rwa [← same]
  · intro reads
    refine ⟨W, _, appended, ?_, reads⟩
    rw [← whole]
    exact becomes.contains

/--
What the three functions append is read back as the text exactly where each
control character of it is one that they escape.
-/
theorem jsonOutput_iff (fresh : Nat → UInt8) (q : ResponseData) (V : WebVariable) (text : Text)
    (contains : V.Contains text) (key : List Char)
    (ordinary : ∀ c ∈ key, c ≠ '"' ∧ c ≠ '\\' ∧ ' ' ≤ c) (v : List Char) (noNul : '\x00' ∉ v) :
    (PutsMember q (q.putJSONS fresh (utf8 key) (utf8 v)) key v ↔
        ∀ c ∈ v, ' ' ≤ c ∨ c = '\r' ∨ c = '\n' ∨ c = '\t') ∧
      (AppendsString text (V.catJS fresh (utf8 v)) v ↔ ∀ c ∈ v, ' ' ≤ c) ∧
      (PutsMember q (q.putJSONNoHTMLS fresh (utf8 key) (utf8 v)) key (v.flatMap entity) ↔
        ∀ c ∈ v, ' ' ≤ c ∨ c = '\n' ∨ c = '\t') := by
  refine ⟨?_, catJS_iff fresh contains (zero_notMem_utf8 noNul), ?_⟩
  · have back : v.flatMap (fun c => [c]) = v := List.flatMap_singleton' v
    have read :=
      putMember_iff escapeJSON_replaces reads_escapeJSON stops_escapeJSON fresh q ordinary v
    rwa [back] at read
  · exact putMember_iff escapeJSONNoHTML_replaces reads_escapeJSONNoHTML
      stops_escapeJSONNoHTML fresh q ordinary v

def emptyVariable : WebVariable where
  ref := 0
  key := .strlcpy []
  value := some [0]
  len := 0
  bufSize := 1
  global := false

theorem emptyVariable_contains : emptyVariable.Contains [] where
  noNul := by simp
  len := rfl
  starts := ⟨[0], rfl, rfl, ⟨by simp, by simp⟩⟩

theorem jsonOutput_quotation : (PutsMember ⟨[], 0, Nat.le_refl 0⟩
        (ResponseData.putJSONS (fun _ => 0) ⟨[], 0, Nat.le_refl 0⟩
          (utf8 ['k']) (utf8 ['"'])) ['k'] ['"'] ↔
        ∀ c ∈ ['"'], ' ' ≤ c ∨ c = '\r' ∨ c = '\n' ∨ c = '\t') ∧
      (AppendsString [] (emptyVariable.catJS (fun _ => 0) (utf8 ['"'])) ['"'] ↔
        ∀ c ∈ ['"'], ' ' ≤ c) ∧
      (PutsMember ⟨[], 0, Nat.le_refl 0⟩
          (ResponseData.putJSONNoHTMLS (fun _ => 0) ⟨[], 0, Nat.le_refl 0⟩
            (utf8 ['k']) (utf8 ['"'])) ['k'] (['"'].flatMap entity) ↔
        ∀ c ∈ ['"'], ' ' ≤ c ∨ c = '\n' ∨ c = '\t') :=
  jsonOutput_iff (fun _ => 0) ⟨[], 0, Nat.le_refl 0⟩ emptyVariable []
    emptyVariable_contains ['k'] (by simp) ['"'] (by simp)

theorem backspace_not_read : ¬ PutsMember ⟨[], 0, Nat.le_refl 0⟩
        (ResponseData.putJSONS (fun _ => 0) ⟨[], 0, Nat.le_refl 0⟩
          (utf8 ['k']) (utf8 ['\x08'])) ['k'] ['\x08'] := by
  intro reads
  have plain :=
    (@putMember_iff _ _ _ escapeJSON_replaces reads_escapeJSON
      stops_escapeJSON (fun _ => 0) ⟨[], 0, Nat.le_refl 0⟩ ['k'] (by simp)
      ['\x08']).mp reads
  exact absurd (plain _ List.mem_cons_self) (by simp [PlainJSON])

end Agar.Web
