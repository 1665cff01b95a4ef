import Agar.Core.TextEntries
import Agar.Core.UnicodeRoundTrip
import Agar.Gui.EditableClipboard
import Agar.Gui.EditableKeys

namespace Agar.Gui

open Agar.Lib
open Agar.Core

/-!
# Storing an edited text

`CommitBuffer` exports the working buffer to the entry of an `AG_Text`, in the
encoding of the field, and leaves the length of the entry as it is.
-/

/-! ## What is to hold -/

/--
The entry has the working buffer in UTF-8 and is as it is to be, so that
`AG_TextCatS` appends to the edited text.
-/
structure KeepsText (te : TextEnt) (text : List UInt32) : Prop where
  encodable : ∀ uch ∈ text, Encodable uch
  stored : te.text = some (encode text)
  proper : te.Proper
  appends : ∀ (txt : AgText) (fresh : Nat → UInt8) (s : List UInt8), txt.ent txt.lang = te → 0 ∉ s →
        ∃ txt', txt.catS fresh s = .ok (txt', 0) ∧ txt'.text txt.lang = some (encode text ++ s)

/-- All of a text can be exported. -/
def Exports (encoding : Encoding) (text : List UInt32) : Prop :=
  encoding = .utf8 ∨ encoding = .usAscii ∧ ∀ uch ∈ text, uch < 0x80

/-- How many bytes of a text are exported where not all of it can be -/
def exportedLength (text : List UInt32) : Encoding → Nat
  | .usAscii => (text.takeWhile (· < 0x80)).length
  | .utf8 | .unknown => 0

/-- What is not exported is in the memory of the entry already. -/
def HasRest (fresh : Nat → UInt8) (te : TextEnt) (bytes : List UInt8) (count : Nat) : Prop :=
  te.buf.elim (fresh 0 = 0) fun memory => bytes.drop count = (cString memory).drop count

/--
The text has an encoding, which is as long as the text before it; memory is
granted where the entry has too little; and the text is exported, or what is
not of it is there.
-/
structure FitsEntry (requests : Requests) (ed : Editable) (te : TextEnt)
    (text : List UInt32) : Prop where
  encodable : ∀ uch ∈ text, Encodable uch
  length : (encode text).length = te.len
  memory : te.maxLen ≤ (encode text).length →
      requests.entry.grants ((encode text).length + 1) = true
  exported : Exports (encodingOf ed.encoding) text ∨ HasRest requests.entry.fresh te (encode text)
        (exportedLength text (encodingOf ed.encoding))

/-! ## Exporting -/

section

variable {ed : Editable} {buf : EditableBuffer} {s text : List UInt32}

theorem holdsText_upToNul (stored : HoldsText 0 s text) : HoldsText 0 s (upToNul text) := by
  obtain ⟨rest, rfl⟩ := stored.exists_rest
  clear stored
  induction text with
  | nil => exact ⟨rest, rfl⟩
  | cons c text ih =>
    by_cases nul : c = 0
    · rw [nul, upToNul_zero]
      exact ⟨text ++ 0 :: rest, rfl⟩
    · rw [upToNul_cons nul]
      exact List.cons_prefix_cons.mpr ⟨rfl, ih⟩

theorem length_encode_ascii (ascii : ∀ uch ∈ text, uch < 0x80) :
    (encode text).length = text.length := by
  induction text with
  | nil => rfl
  | cons c text ih =>
    obtain ⟨first, others⟩ := List.forall_mem_cons.mp ascii
    rw [encode_cons, encodeChar_ascii first, List.length_append,
      ih others, List.length_singleton, List.length_cons,
      Nat.add_comm]

theorem exportASCII_front (encodable : ∀ uch ∈ text, Encodable uch) (rest : List UInt32)
    {memory : List UInt8} {dstSize : Nat} (inside : (encode text).length < memory.length)
    (fits : (encode text).length < dstSize) :
    ∃ result memory', exportASCII (text ++ 0 :: rest) memory dstSize 0 = .ok (result, memory') ∧
        memory'.length = memory.length ∧
        (encode text ++ [0] <+: memory' ↔ (∀ uch ∈ text, uch < 0x80) ∨
            (encode text).drop (text.takeWhile (· < 0x80)).length ++ [0] <+:
              memory.drop (text.takeWhile (· < 0x80)).length) := by
  generalize frontEq : text.takeWhile (· < 0x80) = front
  generalize backEq : text.dropWhile (· < 0x80) = back
  have whole : text = front ++ back := by rw [← frontEq, ← backEq, List.takeWhile_append_dropWhile]
  have small : ∀ uch ∈ front, uch < 0x80 := by
    intro uch member
    rw [← frontEq] at member
    have below := List.mem_takeWhile_imp member
    exact of_decide_eq_true below
  have ascii : ∀ uch ∈ front, uch ≠ 0 ∧ uch < 0x80 := by
    intro uch member
    refine ⟨?_, small uch member⟩
    rintro rfl
    have positive := encodable 0 (whole ▸ List.mem_append_left back member)
    exact absurd positive (by decide)
  have length := length_encode_ascii small
  have bytes : encode text = encode front ++ encode back := by
    rw [whole, encode, List.flatMap_append]
    rfl
  rw [bytes, List.length_append, length] at inside fits
  have insideFront : front.length < memory.length := by omega
  have behind : ([] : List UInt8).length + front.length < dstSize := by
    rw [List.length_nil]
    omega
  cases back with
  | nil =>
    rw [List.append_nil] at whole
    have stored := exportASCII_stored ascii (.inl rfl) rest [] memory insideFront behind
    rw [if_pos rfl, List.nil_append, List.nil_append, List.length_nil] at stored
    rw [whole]
    refine ⟨0, encode front ++ 0 :: memory.drop (front.length + 1), stored, ?_, ?_⟩
    · rw [List.length_append, List.length_cons, List.length_drop, length]
      omega
    · refine iff_of_true ⟨memory.drop (front.length + 1), ?_⟩ (.inl small)
      rw [List.append_assoc, List.singleton_append]
  | cons c others =>
    have large : 0x80 ≤ c := by
      have first := List.head?_dropWhile_not (· < 0x80) text
      rw [backEq] at first
      simpa using first
    have nonzero : c ≠ 0 := by
      rintro rfl
      exact absurd large (by decide)
    have stored := exportASCII_stored ascii (.inr large) (others ++ 0 :: rest)
      [] memory insideFront behind
    rw [if_neg nonzero, List.nil_append, List.nil_append, List.length_nil] at stored
    have source : text ++ 0 :: rest = front ++ c :: (others ++ 0 :: rest) := by
      rw [whole, List.append_assoc, List.cons_append]
    rw [source]
    refine ⟨-1, encode front ++ memory.drop front.length, stored, ?_, ?_⟩
    · rw [List.length_append, List.length_drop, length]
      omega
    · have refused : ¬ ∀ uch ∈ text, uch < 0x80 := by
        intro all
        have below := all c (whole ▸ List.mem_append_right front List.mem_cons_self)
        exact absurd large (UInt32.not_le.mpr below)
      rw [or_iff_right refused, bytes, ← length, List.drop_left,
        List.append_assoc, List.prefix_append_right_inj]

theorem exportBuffer_stored (encodable : ∀ uch ∈ text, Encodable uch) (stored : HoldsText 0 s text)
    {memory : List UInt8} {dstSize : Nat} (inside : (encode text).length < memory.length)
    (fits : (encode text).length < dstSize) :
    ∃ error memory', exportBuffer ed s memory dstSize = .ok (error, memory') ∧
        memory'.length = memory.length ∧
        (encode text ++ [0] <+: memory' ↔ Exports (encodingOf ed.encoding) text ∨ (encode text).drop
                (exportedLength text (encodingOf ed.encoding)) ++ [0] <+:
              memory.drop (exportedLength text (encodingOf ed.encoding))) := by
  obtain ⟨rest, rfl⟩ := stored.exists_rest
  unfold exportBuffer
  cases encodingOf ed.encoding with
  | utf8 =>
    have behind : ([] : List UInt8).length + (encode text).length < dstSize := by
      rw [List.length_nil, Nat.zero_add]
      exact fits
    have whole := exportUTF8_stored encodable rest [] memory inside behind
    rw [List.nil_append, List.nil_append, List.length_nil] at whole
    refine ⟨none, encode text ++ 0 :: memory.drop ((encode text).length + 1), ?_, ?_, ?_⟩
    · rw [exportUnicode, whole]
      exact rfl
    · rw [List.length_append, List.length_cons, List.length_drop]
      omega
    · refine iff_of_true ⟨memory.drop ((encode text).length + 1), ?_⟩ (.inl (.inl rfl))
      rw [List.append_assoc, List.singleton_append]
  | usAscii =>
    obtain ⟨result, memory', exported, length, behind⟩ :=
      exportASCII_front encodable rest inside fits
    refine ⟨if result = -1 then some .notExported else none, memory', ?_, length, behind.trans ?_⟩
    · rw [exportUnicode, exported]
      exact rfl
    · simp [Exports, exportedLength]
  | unknown =>
    refine ⟨some .notExported, memory, rfl, rfl, ?_⟩
    simp [Exports, exportedLength]

/-! ## Sizes -/

theorem charLength_encodeChar {uch : UInt32} (encodable : Encodable uch) :
    charLengthUTF8FromUCS4 uch = some (encodeChar uch.toNat).length := by
  obtain ⟨positive, inRange⟩ := encodable
  rw [length_encodeChar positive inRange, utf8Width, charLengthUTF8FromUCS4]
  have below : ∀ bound : UInt32, uch < bound ↔ uch.toNat < bound.toNat :=
    fun _ => UInt32.lt_iff_toNat_lt
  have atMost : uch ≤ 0x7fffffff := UInt32.le_iff_toNat_le.mpr inRange
  simp only [below, if_pos atMost, UInt32.reduceToNat, Nat.reducePow]
  split_ifs <;> rfl

theorem charLength_none {uch : UInt32} (nonzero : uch ≠ 0) (outside : ¬ Encodable uch) :
    charLengthUTF8FromUCS4 uch = none := by
  have positive : 1 ≤ uch.toNat :=
    Nat.one_le_iff_ne_zero.mpr fun zero => nonzero (UInt32.toNat.inj zero)
  have large : ¬ uch.toNat ≤ 0x7fffffff := fun inRange => outside ⟨positive, inRange⟩
  unfold charLengthUTF8FromUCS4
  have below : ∀ bound : UInt32, uch < bound ↔ uch.toNat < bound.toNat :=
    fun _ => UInt32.lt_iff_toNat_lt
  have atMost : ¬ uch ≤ 0x7fffffff := fun le => large (UInt32.le_iff_toNat_le.mp le)
  simp only [below, if_neg atMost, UInt32.reduceToNat]
  split_ifs <;> first
    | rfl
    | omega

theorem utf8Size_encode (encodable : ∀ uch ∈ text, Encodable uch) :
    utf8Size text = some (encode text).length := by
  induction text with
  | nil => rfl
  | cons c text ih =>
    obtain ⟨first, others⟩ := List.forall_mem_cons.mp encodable
    rw [utf8Size, charLength_encodeChar first, ih others, encode_cons, List.length_append]
    rfl

theorem encodable_of_utf8Size {size : Nat} (sized : utf8Size (upToNul text) = some size) :
    ∀ uch ∈ upToNul text, Encodable uch := by
  induction text generalizing size with
  | nil => exact fun _ member => absurd member List.not_mem_nil
  | cons c text ih =>
    by_cases nul : c = 0
    · rw [nul, upToNul_zero]
      exact fun _ member => absurd member List.not_mem_nil
    rw [upToNul_cons nul, utf8Size, Option.bind_eq_bind, Option.bind_eq_some_iff] at sized
    obtain ⟨cLen, counted, sized⟩ := sized
    obtain ⟨rest, others, -⟩ := Option.bind_eq_some_iff.mp sized
    rw [upToNul_cons nul]
    refine List.forall_mem_cons.mpr ⟨?_, ih others⟩
    by_contra outside
    rw [charLength_none nul outside] at counted
    cases counted

theorem length_le_length_encode (encodable : ∀ uch ∈ text, Encodable uch) :
    text.length ≤ (encode text).length := by
  induction text with
  | nil => exact Nat.le_refl 0
  | cons c text ih =>
    obtain ⟨⟨positive, inRange⟩, others⟩ := List.forall_mem_cons.mp encodable
    obtain ⟨lead, tail, bytes, -⟩ := (encodeChar_spec positive inRange).starts
    have rest := ih others
    rw [encode_cons, bytes, List.length_append, List.length_cons, List.length_cons]
    omega

theorem exportedLength_le (encodable : ∀ uch ∈ text, Encodable uch) (encoding : Encoding) :
    exportedLength text encoding ≤ (encode text).length := by
  cases encoding with
  | usAscii =>
    exact Nat.le_trans (List.takeWhile_prefix _).length_le (length_le_length_encode encodable)
  | utf8 => exact Nat.zero_le _
  | unknown => exact Nat.zero_le _

/-! ## The entry -/

theorem keepsText_iff {te : TextEnt} {memory : List UInt8} (encodable : ∀ uch ∈ text, Encodable uch)
    (buffer : te.buf = some memory) (inside : te.maxLen ≤ memory.length)
    (room : (encode text).length < te.maxLen) :
    KeepsText te text ↔ (encode text).length = te.len ∧ encode text ++ [0] <+: memory := by
  constructor
  · intro keeps
    have has := keeps.proper.has keeps.stored
    obtain ⟨found, same, holds⟩ := has.memory
    rw [buffer, Option.some_inj] at same
    exact ⟨has.len.symm, same ▸ holds.stored⟩
  · rintro ⟨length, stored⟩
    have has : te.Has (encode text) :=
      { memory := ⟨memory, buffer, encode_noNul encodable, room, inside, stored⟩
        len := length.symm }
    refine ⟨encodable, has.text, .inr ⟨_, has⟩, ?_⟩
    rintro txt fresh s rfl noNul
    obtain ⟨txt', appended, behind⟩ := AgText.catS_has has fresh noNul
    exact ⟨txt', appended, behind.text⟩

theorem rest_prefix_iff {old bytes memory : List UInt8} {count : Nat}
    (stored : HoldsText 0 memory old) (length : bytes.length = old.length)
    (inside : count ≤ bytes.length) :
    bytes.drop count ++ [0] <+: memory.drop count ↔ bytes.drop count = old.drop count := by
  obtain ⟨rest, rfl⟩ := stored.exists_rest
  rw [List.drop_append_of_le_length (length ▸ inside)]
  constructor
  · rintro ⟨behind, same⟩
    rw [List.append_assoc] at same
    exact List.append_inj_left same (by simp [length])
  · intro same
    rw [same]
    exact ⟨rest, by simp⟩

/-- The entry that a text of so many bytes is exported to -/
def grownEntry (fresh : Nat → UInt8) (te : TextEnt) (size : Nat) : TextEnt :=
  if te.maxLen < size + 1 then te.realloc fresh (size + 1) else te

/-- An entry with other bytes in its memory -/
def storing (te : TextEnt) (memory : List UInt8) : TextEnt := { te with buf := some memory }

/-- What an entry that a text is exported to has in its memory before -/
structure Room (fresh : Nat → UInt8) (te : TextEnt) (size : Nat) (memory : List UInt8) : Prop where
  buffer : (grownEntry fresh te size).buf = some memory
  inside : (grownEntry fresh te size).maxLen ≤ memory.length
  room : size < (grownEntry fresh te size).maxLen
  len : (grownEntry fresh te size).len = te.len
  rest : ∀ (bytes : List UInt8) (count : Nat), bytes.length = size → size = te.len → count ≤ size →
        (bytes.drop count ++ [0] <+: memory.drop count ↔ HasRest fresh te bytes count)

theorem grownEntry_has {te : TextEnt} {old : List UInt8} (has : te.Has old) (fresh : Nat → UInt8)
    (size : Nat) :
    ∃ memory, (grownEntry fresh te size).buf = some memory ∧
        HoldsString memory (grownEntry fresh te size).maxLen old ∧
        size < (grownEntry fresh te size).maxLen ∧ (grownEntry fresh te size).len = te.len := by
  obtain ⟨memory, buffer, holds⟩ := has.memory
  unfold grownEntry
  split
  case isTrue small =>
    have more : old.length < size + 1 := Nat.lt_trans holds.fits small
    obtain ⟨grown, buffer', holds', room, len⟩ := has.realloc fresh more
    exact ⟨grown, buffer', holds', Nat.lt_of_succ_le room, len⟩
  case isFalse enough => exact ⟨memory, buffer, holds, by omega, rfl⟩

theorem room_of_proper {te : TextEnt} (proper : te.Proper) (fresh : Nat → UInt8) (size : Nat) :
    ∃ memory, Room fresh te size memory := by
  rcases proper with rfl | ⟨old, has⟩
  · have grown : grownEntry fresh .empty size =
          { buf := some (resize fresh (size + 1) [])
            maxLen := size + 1
            len := 0 } :=
      rfl
    refine ⟨resize fresh (size + 1) [], ?_⟩
    constructor
    case buffer => rw [grown]
    case inside => rw [grown, length_resize]
    case room =>
      rw [grown]
      exact Nat.lt_succ_self size
    case len =>
      rw [grown]
      exact rfl
    case rest =>
      rintro bytes count length rfl le
      obtain rfl : bytes = [] := List.eq_nil_of_length_eq_zero length
      obtain rfl : count = 0 := Nat.le_zero.mp le
      have single : resize fresh (TextEnt.empty.len + 1) [] = [fresh 0] := rfl
      have free : HasRest fresh .empty [] 0 ↔ fresh 0 = 0 := Iff.rfl
      rw [single, free, List.drop_nil, List.nil_append, List.drop_zero,
        List.cons_prefix_cons, eq_comm]
      exact and_iff_left List.nil_prefix
  · obtain ⟨memory, buffer, holds, room, len⟩ :=
      grownEntry_has has fresh size
    refine ⟨memory, buffer, holds.inside, room, len, ?_⟩
    rintro bytes count length rfl le
    obtain ⟨oldMemory, oldBuffer, oldHolds⟩ := has.memory
    rw [rest_prefix_iff holds.stored (length.trans has.len) (Nat.le_trans le length.ge),
      HasRest, oldBuffer, Option.elim_some, cString_of_holdsString oldHolds]

/-! ## Committing -/

theorem upToNul_encodable (encodable : ∀ uch ∈ text, Encodable uch) : upToNul text = text := by
  refine List.takeWhile_eq_self_iff.mpr fun uch member => ?_
  have positive := (encodable uch member).1
  refine decide_eq_true ?_
  rintro rfl
  cases positive

theorem keepsText_exported {te : TextEnt} {requests : Requests} {memory memory' : List UInt8}
    (encodable : ∀ uch ∈ text, Encodable uch)
    (room : Room requests.entry.fresh te (encode text).length memory)
    (granted : te.maxLen ≤ (encode text).length →
        requests.entry.grants ((encode text).length + 1) = true)
    (sameLength : memory'.length = memory.length)
    (exported : encode text ++ [0] <+: memory' ↔ Exports (encodingOf ed.encoding) text ∨
          (encode text).drop (exportedLength text (encodingOf ed.encoding)) ++ [0] <+:
            memory.drop (exportedLength text (encodingOf ed.encoding))) :
    KeepsText (storing (grownEntry requests.entry.fresh te (encode text).length) memory') text ↔
      FitsEntry requests ed te text := by
  have le := exportedLength_le encodable (encodingOf ed.encoding)
  have inside := room.inside
  rw [← sameLength] at inside
  have stored :=
    @keepsText_iff text (storing (grownEntry requests.entry.fresh te (encode text).length)
        memory') memory' encodable rfl inside room.room
  rw [stored, storing, room.len, exported]
  constructor
  · rintro ⟨length, stored⟩
    refine ⟨encodable, length, granted, stored.imp_right fun rest => ?_⟩
    exact (room.rest _ _ rfl length le).mp rest
  · intro fits
    refine ⟨fits.length, fits.exported.imp_right fun rest => ?_⟩
    exact (room.rest _ _ rfl fits.length le).mpr rest

theorem commitBuffer_exports {te : TextEnt} {requests : Requests} {memory : List UInt8} {size : Nat}
    (holds : buf.Holds s text) (sized : utf8Size (upToNul text) = some size)
    (room : Room requests.entry.fresh te size memory)
    (granted : ¬ (te.maxLen < size + 1 ∧ requests.entry.grants (size + 1) = false)) :
    commitBuffer requests ed buf (.text te) = (do
      let (error, dst) ← exportBuffer ed s memory
        ((grownEntry requests.entry.fresh te size).maxLen + 1)
      return (error, .text (storing (grownEntry requests.entry.fresh te size) dst))) := by
  have length := lengthUTF8FromUCS4_stored holds.stored
  have buffer := room.buffer
  unfold grownEntry at buffer ⊢
  rw [commitBuffer, holds.memory]
  simp only [pointee, Option.elim, ok_bind, length, sized, if_neg granted, buffer]
  exact rfl

/--
The entry of an `AG_Text` has the edited text and is as it is to be exactly
where the text fits the entry.
-/
theorem commitBuffer_keeps_iff {te : TextEnt} (requests : Requests) (ed : Editable)
    (proper : te.Proper) (holds : buf.Holds s text) :
    ∃ error te', commitBuffer requests ed buf (.text te) = .ok (error, .text te') ∧
        (KeepsText te' text ↔ FitsEntry requests ed te text) := by
  have length := lengthUTF8FromUCS4_stored holds.stored
  cases sized : utf8Size (upToNul text) with
  | none =>
    -- a character cannot be encoded, and nothing is stored
    have refused : ¬ ∀ uch ∈ text, Encodable uch := by
      intro encodable
      rw [upToNul_encodable encodable, utf8Size_encode encodable] at sized
      cases sized
    refine ⟨some .badCharacter, te, ?_, ?_⟩
    · rw [commitBuffer, holds.memory]
      simp only [pointee, Option.elim, ok_bind, length, sized]
      rfl
    · exact iff_of_false (fun keeps => refused keeps.encodable) fun fits => refused fits.encodable
  | some size =>
    have visible := encodable_of_utf8Size sized
    obtain rfl : (encode (upToNul text)).length = size := by
      rw [utf8Size_encode visible] at sized
      exact Option.some_inj.mp sized
    by_cases refused : te.maxLen < (encode (upToNul text)).length + 1 ∧
          requests.entry.grants ((encode (upToNul text)).length + 1) = false
    · -- there is no memory for a larger text, and nothing is stored
      refine ⟨some .outOfMemory, te, ?_, ?_⟩
      · rw [commitBuffer, holds.memory]
        simp only [pointee, Option.elim, ok_bind, length, sized, if_pos refused]
        rfl
      · refine iff_of_false (fun keeps => ?_) fun fits => ?_
        · obtain ⟨memory, -, stored⟩ :=
            (keeps.proper.has keeps.stored).memory
          have fits := stored.fits
          rw [upToNul_encodable keeps.encodable] at refused
          omega
        · rw [upToNul_encodable fits.encodable] at refused
          have granted := fits.memory (by omega)
          rw [refused.2] at granted
          cases granted
    obtain ⟨memory, room⟩ := room_of_proper proper requests.entry.fresh
      (encode (upToNul text)).length
    have roomy : (encode (upToNul text)).length < (grownEntry requests.entry.fresh te
            (encode (upToNul text)).length).maxLen + 1 :=
      Nat.lt_succ_of_lt room.room
    obtain ⟨error, memory', exported, sameLength, behind⟩ :=
      @exportBuffer_stored ed _ _ visible (holdsText_upToNul holds.stored)
        memory _ (Nat.lt_of_lt_of_le room.room room.inside) roomy
    refine ⟨error, storing (grownEntry requests.entry.fresh te (encode (upToNul text)).length)
        memory', ?_, ?_⟩
    · rw [commitBuffer_exports holds sized room refused, exported]
      exact rfl
    · by_cases encodable : ∀ uch ∈ text, Encodable uch
      case neg =>
        exact iff_of_false (fun keeps => encodable keeps.encodable)
          fun fits => encodable fits.encodable
      rw [upToNul_encodable encodable] at room behind refused ⊢
      refine keepsText_exported encodable room (fun small => ?_) sameLength behind
      by_contra notGranted
      exact refused ⟨by omega, Bool.not_eq_true _ ▸ notGranted⟩

end

/-- The entry of the text `ab` -/
def twoLetters : TextEnt := .ofString [97, 98]

/-- The buffer of a text of `x` and a second character -/
def letterBuffer (second : UInt32) : EditableBuffer where
  s := some [120, second, 0]
  len := 2
  maxLen := 12
  reallocable := true
  infoSize := 0

theorem holds_letterBuffer (second : UInt32) :
    (letterBuffer second).Holds [120, second, 0] [120, second] :=
  ⟨rfl, rfl, List.prefix_rfl, Nat.le_refl 12⟩

def zeroedRequests : Requests where
  handle := .zeroed
  working := .zeroed
  chunk := .zeroed
  growth := .zeroed
  entry := .zeroed
  fresh _ := 0

theorem proper_twoLetters : twoLetters.Proper :=
  .inr ⟨[97, 98], ⟨[97, 98, 0], rfl, by decide, by decide, by decide, List.prefix_rfl⟩, rfl⟩

theorem commitBuffer_keeps_iff_letters : ∃ error te',
      commitBuffer zeroedRequests wordField (letterBuffer 121) (.text twoLetters) =
          .ok (error, .text te') ∧
        (KeepsText te' [120, 121] ↔ FitsEntry zeroedRequests wordField twoLetters [120, 121]) :=
  commitBuffer_keeps_iff zeroedRequests wordField proper_twoLetters (holds_letterBuffer 121)

theorem commitBuffer_keeps_length : commitBuffer zeroedRequests wordField (letterBuffer 0x20ac)
          (.text twoLetters) =
        .ok (none, .text
            { buf := some [120, 0xe2, 0x82, 0xac, 0]
              maxLen := 5
              len := 2 }) ∧
      ¬ KeepsText
          { buf := some [120, 0xe2, 0x82, 0xac, 0]
            maxLen := 5
            len := 2 } [120, 0x20ac] := by
  refine ⟨rfl, fun keeps => ?_⟩
  have length := (keeps.proper.has keeps.stored).len
  exact absurd length (by decide)

end Agar.Gui
