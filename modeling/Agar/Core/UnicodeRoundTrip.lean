import Agar.Core.Unicode
import Agar.Lib.Outcome

namespace Agar.Core

open Agar.Lib

/-!
# Importing what was exported

A code point is split into its bytes six bits at a time, and each byte behind
the first holds six of them.  So what one function takes apart the other puts
together, one character at a time.
-/

/-! ## Bits -/

/-- The bytes behind the first one of a sequence. -/
def tailBytes : Nat → Nat → List UInt8
  | 0, _ => []
  | i + 1, uch => tailBytes i (uch / 64) ++ [UInt8.ofNat (uch % 64 ||| 0x80)]

@[simp] theorem length_tailBytes (i uch : Nat) : (tailBytes i uch).length = i := by
  induction i generalizing uch with
  | zero => rfl
  | succ i ih =>
    rw [tailBytes, List.length_append, ih]
    rfl

theorem storeChar_eq (ch1 i uch : Nat) (stored : List UInt8) : storeChar ch1 i uch stored =
      UInt8.ofNat (uch / 64 ^ i ||| ch1) :: (tailBytes i uch ++ stored) := by
  induction i generalizing uch stored with
  | zero => simp [storeChar, tailBytes]
  | succ i ih =>
    have low : uch &&& 0x3f = uch % 64 := Nat.and_two_pow_sub_one_eq_mod uch 6
    have high : uch >>> 6 = uch / 64 := Nat.shiftRight_eq_div_pow uch 6
    rw [storeChar, ih, low, high, tailBytes, Nat.div_div_eq_div_mul, ← pow_succ', List.append_assoc]
    rfl

theorem tailByte_spec {digit : Nat} (small : digit < 64) :
    (UInt8.ofNat (digit ||| 0x80)).toNat &&& 0x3f = digit ∧
      (0 : UInt8) ≠ UInt8.ofNat (digit ||| 0x80) := by
  revert digit
  decide

theorem shiftLeft_or_eq (high : Nat) {low width : Nat} (small : low < 64 ^ width) :
    high <<< (6 * width) ||| low = high * 64 ^ width + low := by
  have power : 2 ^ (6 * width) = 64 ^ width := by
    rw [pow_mul]
    norm_num
  rw [← Nat.shiftLeft_add_eq_or_of_lt (by rwa [power]), Nat.shiftLeft_eq, power]

theorem and_sixBits_lt (value : Nat) : value &&& 0x3f < 64 :=
  Nat.lt_of_le_of_lt Nat.and_le_right (by decide)

theorem decodeTail_lt (bytes : List UInt8) : decodeTail bytes < 64 ^ bytes.length := by
  induction bytes with
  | nil => simp [decodeTail]
  | cons byte rest ih =>
    have digit := and_sixBits_lt byte.toNat
    rw [decodeTail, shiftLeft_or_eq _ ih, List.length_cons, pow_succ]
    nlinarith

theorem decodeTail_append (bytes : List UInt8) (last : UInt8) : decodeTail (bytes ++ [last]) =
      64 * decodeTail bytes + (last.toNat &&& 0x3f) := by
  induction bytes with
  | nil => simp [decodeTail]
  | cons byte rest ih =>
    rw [List.cons_append, decodeTail, decodeTail, shiftLeft_or_eq _ (decodeTail_lt _),
      shiftLeft_or_eq _ (decodeTail_lt _), ih,
      List.length_append, List.length_singleton, pow_succ]
    ring

theorem decodeTail_tailBytes (i uch : Nat) : decodeTail (tailBytes i uch) = uch % 64 ^ i := by
  induction i generalizing uch with
  | zero => rw [tailBytes, decodeTail, pow_zero, Nat.mod_one]
  | succ i ih =>
    have digit : uch % 64 < 64 := Nat.mod_lt _ (by decide)
    rw [tailBytes, decodeTail_append, ih, (tailByte_spec digit).1, pow_succ', Nat.mod_mul]
    omega

theorem tailBytes_noNul (i uch : Nat) : 0 ∉ tailBytes i uch := by
  induction i generalizing uch with
  | zero => exact List.not_mem_nil
  | succ i ih =>
    have digit : uch % 64 < 64 := Nat.mod_lt _ (by decide)
    rw [tailBytes, List.mem_append, List.mem_singleton]
    exact not_or.mpr ⟨ih _, (tailByte_spec digit).2⟩

/-! ## Characters -/

/-- The bytes that a code point is exported as. -/
def encodeChar (uch : Nat) : List UInt8 :=
  match sequenceOf uch with
  | none => []
  | some (chlen, ch1) => storeChar ch1 (chlen - 1) uch []

/-- A first byte announces its sequence and holds the payload. -/
def Announces (ch1 chlen payload : Nat) : Prop :=
  charLengthUTF8 (UInt8.ofNat (payload ||| ch1)) = some chlen ∧
    (UInt8.ofNat (payload ||| ch1)).toNat &&& leadMask chlen = payload

instance (ch1 chlen payload : Nat) : Decidable (Announces ch1 chlen payload) :=
  inferInstanceAs (Decidable (_ ∧ _))

/-- The kinds of sequences: length, mark, and bound of the first payload. -/
def sequenceKinds : List (Nat × Nat × Nat) :=
  [(1, 0, 128), (2, 0xc0, 32), (3, 0xe0, 16), (4, 0xf0, 8), (5, 0xf8, 4), (6, 0xfc, 2)]

theorem announces_of_kind : ∀ kind ∈ sequenceKinds,
      ∀ payload < kind.2.2, Announces kind.2.1 kind.1 payload := by
  decide

/-- The code points that UTF-8 can encode. -/
def Encodable (uch : UInt32) : Prop := 1 ≤ uch.toNat ∧ uch.toNat ≤ 0x7fffffff

instance (uch : UInt32) : Decidable (Encodable uch) := inferInstanceAs (Decidable (_ ∧ _))

theorem sequenceOf_kind {uch : Nat} (inRange : uch ≤ 0x7fffffff) : ∃ i ch1 bound,
      sequenceOf uch = some (i + 1, ch1) ∧ (i + 1, ch1, bound) ∈ sequenceKinds ∧
        uch / 64 ^ i < bound := by
  unfold sequenceOf
  by_cases one : uch < 0x80
  · exact ⟨0, 0, 128, by rw [if_pos one], by decide, by omega⟩
  by_cases two : uch < 0x800
  · exact ⟨1, 0xc0, 32, by rw [if_neg one, if_pos two], by decide, by omega⟩
  by_cases three : uch < 0x10000
  · exact ⟨2, 0xe0, 16, by rw [if_neg one, if_neg two, if_pos three], by decide, by omega⟩
  by_cases four : uch < 0x200000
  · exact ⟨3, 0xf0, 8, by rw [if_neg one, if_neg two, if_neg three, if_pos four],
      by decide, by omega⟩
  by_cases five : uch < 0x4000000
  · exact ⟨4, 0xf8, 4, by rw [if_neg one, if_neg two, if_neg three, if_neg four, if_pos five],
      by decide, by omega⟩
  · exact ⟨5, 0xfc, 2, by rw [if_neg one, if_neg two, if_neg three, if_neg four, if_neg five,
        if_pos inRange],
      by decide, by omega⟩

/-- What the bytes of a code point are to the functions that read them. -/
structure EncodesChar (uch : Nat) (bytes : List UInt8) : Prop where
  sequence : ∃ ch1, sequenceOf uch = some (bytes.length, ch1) ∧
        storeChar ch1 (bytes.length - 1) uch [] = bytes
  starts : ∃ lead tail, bytes = lead :: tail ∧ charLengthUTF8 lead = some bytes.length
  noNul : 0 ∉ bytes
  decodes : decodeChar bytes = uch

theorem encodeChar_spec {uch : Nat} (positive : 1 ≤ uch) (inRange : uch ≤ 0x7fffffff) :
    EncodesChar uch (encodeChar uch) := by
  obtain ⟨i, ch1, bound, selected, kind, small⟩ := sequenceOf_kind inRange
  obtain ⟨announced, payload⟩ := announces_of_kind _ kind _ small
  have bytes : encodeChar uch = UInt8.ofNat (uch / 64 ^ i ||| ch1) :: tailBytes i uch := by
    simp only [encodeChar, selected, Nat.add_sub_cancel, storeChar_eq, List.append_nil]
  have length : (encodeChar uch).length = i + 1 := by rw [bytes, List.length_cons, length_tailBytes]
  have decodes : decodeChar (encodeChar uch) = uch := by
    rw [bytes, decodeChar, length_tailBytes, payload, decodeTail_tailBytes,
      shiftLeft_or_eq _ (Nat.mod_lt _ (Nat.pow_pos (by decide))),
      Nat.div_add_mod']
  refine ⟨⟨ch1, ?_, ?_⟩, ⟨_, _, bytes, ?_⟩, ?_, decodes⟩
  · rw [length, selected]
  · rw [length, encodeChar, selected]
  · rw [length, announced]
  · rw [bytes, List.mem_cons]
    refine not_or.mpr ⟨?_, tailBytes_noNul i uch⟩
    -- a NUL announces a sequence of one byte, and has no payload
    intro nul
    have one := announced
    have empty := payload
    rw [← nul] at one empty
    obtain rfl : i = 0 := by simpa [charLengthUTF8, eq_comm] using one
    simp at empty
    omega

/-- How many bytes the UTF-8 sequence of a code point has. -/
def utf8Width (uch : Nat) : Nat :=
  if uch < 2 ^ 7 then 1
  else if uch < 2 ^ 11 then 2
  else if uch < 2 ^ 16 then 3
  else if uch < 2 ^ 21 then 4
  else if uch < 2 ^ 26 then 5
  else 6

theorem length_encodeChar {uch : Nat} (positive : 1 ≤ uch) (inRange : uch ≤ 0x7fffffff) :
    (encodeChar uch).length = utf8Width uch := by
  obtain ⟨ch1, selected, -⟩ := (encodeChar_spec positive inRange).sequence
  unfold sequenceOf at selected
  unfold utf8Width
  norm_num at selected ⊢
  split_ifs at selected ⊢ <;> simp_all

/-! ## Strings -/

/-- The bytes of a string of code points, without the terminator. -/
def encode (chars : List UInt32) : List UInt8 := chars.flatMap fun uch => encodeChar uch.toNat

@[simp] theorem encode_nil : encode [] = [] := rfl

@[simp] theorem encode_cons (uch : UInt32) (chars : List UInt32) :
    encode (uch :: chars) = encodeChar uch.toNat ++ encode chars :=
  List.flatMap_cons

theorem memWrite_behind {done free bytes : List UInt8} (room : bytes.length ≤ free.length) :
    memWrite (done ++ free) done.length bytes = .ok (done ++ bytes ++ free.drop bytes.length) := by
  have start : ((done.length : Int)).toNat = done.length := Int.toNat_natCast _
  refine memWrite_eq_ok.mpr ⟨⟨by omega, ?_⟩, ?_⟩
  · rw [List.length_append]
    omega
  · rw [start, splice, List.take_left, List.drop_append]
    simp

theorem exportUTF8_turn {uch : UInt32} (isEncodable : Encodable uch) (ucs : List UInt32)
    {done free : List UInt8} (room : free ≠ []) :
    exportUTF8 (uch :: ucs) (done ++ free) (done ++ free).length done.length =
      if (encodeChar uch.toNat).length < free.length then
        exportUTF8 ucs ((done ++ encodeChar uch.toNat) ++ free.drop (encodeChar uch.toNat).length)
          (done ++ free).length (done ++ encodeChar uch.toNat).length
      else
        .ok (-1, done ++ free) := by
  obtain ⟨positive, inRange⟩ := isEncodable
  obtain ⟨ch1, selected, stored⟩ := (encodeChar_spec positive inRange).sequence
  have nonzero : uch ≠ 0 := by
    rintro rfl
    cases positive
  have open_ : ¬ (uch = 0 ∨ done.length ≥ (done ++ free).length) := by
    rw [List.length_append]
    have := List.length_pos_iff.mpr room
    rintro (zero | full)
    · exact nonzero zero
    · omega
  have fits : done.length + (encodeChar uch.toNat).length + 1 > (done ++ free).length ↔
        ¬ (encodeChar uch.toNat).length < free.length := by
    rw [List.length_append]
    omega
  rw [exportUTF8, if_neg open_, selected]
  simp only [fits, stored]
  have behind : (done ++ encodeChar uch.toNat).length =
        done.length + (encodeChar uch.toNat).length :=
    List.length_append
  by_cases small : (encodeChar uch.toNat).length < free.length
  · rw [if_neg (not_not.mpr small), if_pos small, memWrite_behind (Nat.le_of_lt small), behind]
    rfl
  · rw [if_pos small, if_neg small]

theorem encodeChar_ascii {uch : UInt32} (ascii : uch < 0x80) :
    encodeChar uch.toNat = [uch.toUInt8] := by
  have small : uch.toNat < 0x80 := ascii
  rw [encodeChar, sequenceOf, if_pos small]
  dsimp only
  rw [Nat.sub_self, storeChar, Nat.or_zero]
  exact rfl

theorem exportASCII_stored {chars : List UInt32} (ascii : ∀ uch ∈ chars, uch ≠ 0 ∧ uch < 0x80)
    {last : UInt32} (stops : last = 0 ∨ 0x80 ≤ last) (rest : List UInt32) (done free : List UInt8)
    {dstSize : Nat} (inside : chars.length < free.length)
    (fits : done.length + chars.length < dstSize) :
    exportASCII (chars ++ last :: rest) (done ++ free) dstSize done.length = .ok (if last = 0 then
          (0, done ++ encode chars ++ 0 :: free.drop (chars.length + 1))
        else
          (-1, done ++ encode chars ++ free.drop chars.length)) := by
  induction chars generalizing done free with
  | nil =>
    rw [List.nil_append, exportASCII]
    by_cases nul : last = 0
    · have room : ([0] : List UInt8).length ≤ free.length :=
        Nat.succ_le_of_lt inside
      rw [if_pos (.inl nul), if_pos nul, memWrite_behind room, ok_bind]
      simp [pure, Except.pure]
    · have unfinished : ¬ (last = 0 ∨ done.length ≥ dstSize) := by
        rintro (zero | full)
        · exact nul zero
        · rw [List.length_nil] at fits
          omega
      rw [if_neg unfinished, if_pos (stops.resolve_left nul), if_neg nul]
      simp
  | cons uch chars ih =>
    obtain ⟨⟨nonzero, small⟩, others⟩ := List.forall_mem_cons.mp ascii
    rw [List.length_cons] at inside fits
    have unfinished : ¬ (uch = 0 ∨ done.length ≥ dstSize) := by
      rintro (zero | full)
      · exact nonzero zero
      · omega
    have behind : (done ++ [uch.toUInt8]).length = done.length + 1 := List.length_append
    have later := ih others (done ++ [uch.toUInt8])
      (free.drop 1) (by rw [List.length_drop]; omega) (by omega)
    have room : [uch.toUInt8].length ≤ free.length := by
      rw [List.length_singleton]
      omega
    rw [List.cons_append, exportASCII, if_neg unfinished,
      if_neg (UInt32.not_le.mpr small), memWrite_behind room, ok_bind,
      List.length_singleton, ← behind, later, encode_cons,
      encodeChar_ascii small, List.drop_drop, List.drop_drop]
    simp [Nat.add_comm, Nat.add_left_comm]

section Strings

variable {chars : List UInt32} (encodable : ∀ uch ∈ chars, Encodable uch)

include encodable

theorem encode_noNul : 0 ∉ encode chars := by
  intro nul
  obtain ⟨uch, member, inside⟩ := List.mem_flatMap.mp nul
  obtain ⟨positive, inRange⟩ := encodable uch member
  exact (encodeChar_spec positive inRange).noNul inside

theorem length_encode : (encode chars).length = (chars.map fun uch => utf8Width uch.toNat).sum := by
  induction chars with
  | nil => rfl
  | cons uch rest ih =>
    obtain ⟨⟨positive, inRange⟩, others⟩ := List.forall_mem_cons.mp encodable
    rw [encode_cons, List.length_append, length_encodeChar positive inRange, ih others,
      List.map_cons, List.sum_cons]

theorem exportUTF8_stored (rest : List UInt32) (done free : List UInt8) {dstSize : Nat}
    (inside : (encode chars).length < free.length)
    (fits : done.length + (encode chars).length < dstSize) :
    exportUTF8 (chars ++ 0 :: rest) (done ++ free) dstSize done.length =
      .ok (0, done ++ encode chars ++ 0 :: free.drop ((encode chars).length + 1)) := by
  induction chars generalizing done free with
  | nil =>
    have room : ([0] : List UInt8).length ≤ free.length := Nat.succ_le_of_lt inside
    rw [List.nil_append, exportUTF8, if_pos (.inl rfl), memWrite_behind room]
    simp [bind, Except.bind, pure, Except.pure]
  | cons uch chars ih =>
    obtain ⟨first, others⟩ := List.forall_mem_cons.mp encodable
    obtain ⟨positive, inRange⟩ := first
    obtain ⟨ch1, selected, stored⟩ := (encodeChar_spec positive inRange).sequence
    rw [encode_cons, List.length_append] at inside fits
    have unfinished : ¬ (uch = 0 ∨ done.length ≥ dstSize) := by
      rintro (rfl | full)
      · cases positive
      · omega
    have behind : (done ++ encodeChar uch.toNat).length =
          done.length + (encodeChar uch.toNat).length :=
      List.length_append
    have later := ih others (done ++ encodeChar uch.toNat) (free.drop (encodeChar uch.toNat).length)
      (by rw [List.length_drop]; omega) (by omega)
    rw [List.cons_append, exportUTF8, if_neg unfinished, selected]
    dsimp only
    rw [if_neg (by omega), stored, memWrite_behind (by omega), ok_bind,
      ← behind, later, List.drop_drop, encode_cons]
    simp [Nat.add_assoc]

theorem exportUTF8_fits (done free : List UInt8) (fits : (encode chars).length < free.length) :
    exportUTF8 (chars ++ [0]) (done ++ free) (done ++ free).length done.length =
      .ok (0, done ++ encode chars ++ 0 :: free.drop ((encode chars).length + 1)) :=
  exportUTF8_stored encodable [] done free fits (by rw [List.length_append]; omega)

theorem exportUTF8_refused (done free : List UInt8) (room : free ≠ [])
    (large : free.length ≤ (encode chars).length) :
    ∃ after, exportUTF8 (chars ++ [0]) (done ++ free) (done ++ free).length
        done.length = .ok (-1, after) := by
  induction chars generalizing done free with
  | nil => exact absurd (List.length_eq_zero_iff.mp (Nat.le_zero.mp large)) room
  | cons uch rest ih =>
    obtain ⟨first, others⟩ := List.forall_mem_cons.mp encodable
    rw [List.cons_append, exportUTF8_turn first _ room]
    split
    case isTrue small =>
      rw [encode_cons, List.length_append] at large
      have sameSize : (done ++ free).length = (done ++ encodeChar uch.toNat ++
              free.drop (encodeChar uch.toNat).length).length := by
        simp only [List.length_append, List.length_drop]
        omega
      rw [sameSize]
      refine ih others _ _ ?_ ?_
      · rw [ne_eq, List.drop_eq_nil_iff]
        omega
      · rw [List.length_drop]
        omega
    case isFalse => exact ⟨_, rfl⟩

theorem lengthLoop_encode (rest : List UInt8) {fuel : Nat} (enough : chars.length < fuel)
    (rv : Nat) :
    lengthLoop fuel (encode chars ++ 0 :: rest) rv = .ok (some (rv + chars.length)) := by
  induction chars generalizing fuel rv with
  | nil =>
    obtain ⟨fuel, rfl⟩ := Nat.exists_eq_succ_of_ne_zero (Nat.ne_of_gt enough)
    rfl
  | cons uch others ih =>
    obtain ⟨⟨positive, inRange⟩, encodableOthers⟩ := List.forall_mem_cons.mp encodable
    have spec := encodeChar_spec positive inRange
    obtain ⟨fuel, rfl⟩ := Nat.exists_eq_succ_of_ne_zero (Nat.ne_zero_of_lt enough)
    obtain ⟨lead, tail, bytes, announced⟩ := spec.starts
    have whole : (encode (uch :: others) ++ 0 :: rest) =
          encodeChar uch.toNat ++ (encode others ++ 0 :: rest) := by
      rw [encode_cons, List.append_assoc]
    have turn : lengthLoop (fuel + 1) (encodeChar uch.toNat ++ (encode others ++ 0 :: rest)) rv =
          lengthLoop fuel (encode others ++ 0 :: rest) (rv + 1) := by
      have noNul := spec.noNul
      rw [bytes] at noNul announced ⊢
      simp only [List.cons_append, lengthLoop, announced]
      rw [← List.cons_append, List.take_left, List.drop_left, if_neg noNul,
        if_neg (Nat.lt_irrefl _)]
    rw [whole, turn, ih encodableOthers (Nat.lt_of_succ_lt_succ enough),
      List.length_cons, Nat.add_right_comm, Nat.add_assoc]

theorem importLoop_encode (rest : List UInt8) {fuel size : Nat} {ucs : List UInt32}
    (enough : chars.length < fuel) (room : ucs.length + chars.length ≤ size) :
    importLoop fuel (encode chars ++ 0 :: rest) (encode chars).length ucs size =
      .ok (some (ucs ++ chars)) := by
  induction chars generalizing fuel ucs with
  | nil =>
    obtain ⟨fuel, rfl⟩ := Nat.exists_eq_succ_of_ne_zero (Nat.ne_of_gt enough)
    rw [List.append_nil]
    rfl
  | cons uch others ih =>
    obtain ⟨⟨positive, inRange⟩, encodableOthers⟩ := List.forall_mem_cons.mp encodable
    have spec := encodeChar_spec positive inRange
    obtain ⟨fuel, rfl⟩ := Nat.exists_eq_succ_of_ne_zero (Nat.ne_zero_of_lt enough)
    obtain ⟨lead, tail, bytes, announced⟩ := spec.starts
    rw [List.length_cons] at room enough
    have stored : storeUcs ucs size (decodeChar (encodeChar uch.toNat)) = .ok (ucs ++ [uch]) := by
      rw [storeUcs, if_pos (by omega), spec.decodes, UInt32.ofNat_toNat]
    have turn :
        importLoop (fuel + 1) (encodeChar uch.toNat ++ (encode others ++ 0 :: rest))
            ((encodeChar uch.toNat).length + (encode others).length) ucs
            size =
          importLoop fuel (encode others ++ 0 :: rest)
            (encode others).length (ucs ++ [uch]) size := by
      rw [bytes] at announced stored ⊢
      have unfinished : (lead :: tail).length + (encode others).length ≠ 0 := by
        rw [List.length_cons]
        omega
      conv_lhs => unfold importLoop
      rw [if_neg unfinished]
      simp only [List.cons_append, announced]
      rw [← List.cons_append, List.take_left, List.drop_left,
        if_neg (Nat.lt_irrefl _), stored, Nat.add_sub_cancel_left]
      rfl
    rw [encode_cons, List.append_assoc, List.length_append, turn, ih encodableOthers (by omega)
        (by rw [List.length_append, List.length_singleton]; omega),
      List.append_assoc, List.singleton_append]

theorem importUnicode_encode (allocation : Allocation) (rest : List UInt8) :
    lengthUTF8 (encode chars ++ 0 :: rest) = .ok (some chars.length) ∧
      importUnicode .utf8 allocation (encode chars ++ 0 :: rest) =
        .ok (if allocation.grants (4 * (chars.length + 1)) then
          some
            { ucs := chars ++ [0]
              outLen := chars.length
              outSize := 4 * (chars.length + 1) }
        else
          none) := by
  have text := cString_terminated (encode_noNul encodable) rest
  have longer : chars.length ≤ (encode chars).length := by
    rw [length_encode encodable]
    refine (List.length_le_sum_of_one_le _ fun width member => ?_).trans'
      (Nat.le_of_eq (List.length_map _).symm)
    obtain ⟨uch, _, rfl⟩ := List.mem_map.mp member
    unfold utf8Width
    split_ifs <;> decide
  have counted : lengthUTF8 (encode chars ++ 0 :: rest) = .ok (some chars.length) := by
    cases chars with
    | nil => rfl
    | cons uch others =>
      have noNul := encode_noNul encodable
      have enough : (uch :: others).length < (encode (uch :: others) ++ 0 :: rest).length := by
        rw [List.length_append, List.length_cons (a := (0 : UInt8))]
        omega
      have loop := lengthLoop_encode encodable rest enough 0
      rw [Nat.zero_add] at loop
      rw [← loop]
      generalize encode (uch :: others) = bytes at longer noNul
      cases bytes with
      | nil => cases longer
      | cons first more =>
        have nonzero : first ≠ 0 := by
          rintro rfl
          exact noNul List.mem_cons_self
        unfold lengthUTF8
        split
        case h_1 empty => cases empty
        case h_2 zero => cases zero; exact absurd rfl nonzero
        case h_3 => rfl
  refine ⟨counted, ?_⟩
  simp only [importUnicode, counted, text, bind, Except.bind]
  split
  case isTrue =>
    rw [importLoop_encode encodable rest (by omega) (by rw [List.length_nil]; omega)]
    simp [terminateUcs, storeUcs, bind, Except.bind, pure, Except.pure]
  case isFalse => rfl

end Strings

/-! ## The round trip -/

/--
What exporting some code points into a buffer and importing them again is to
do: where the bytes and the terminator fit, the import and the length are
those of the code points, and the export fails exactly where they do not.
-/
structure ExportsFaithfully (allocation : Allocation) (chars : List UInt32)
    (dst : List UInt8) : Prop where
  roundTrip : (chars.map fun uch => utf8Width uch.toNat).sum + 1 ≤ dst.length → ∃ exported imported,
        exportUnicode .utf8 dst (chars ++ [0]) dst.length = .ok (0, exported) ∧
          importUnicode .utf8 allocation exported = .ok (some imported) ∧
          imported.ucs = chars ++ [0] ∧
          imported.outLen = chars.length ∧
          lengthUTF8 exported = .ok (some chars.length)
  refused : (∃ after, exportUnicode .utf8 dst (chars ++ [0]) dst.length = .ok (-1, after)) ↔
      dst.length < (chars.map fun uch => utf8Width uch.toNat).sum + 1

/--
Exporting to UTF-8 is faithful for every string of code points exactly where
the buffer has room for at least the terminator and memory for the imported
string is granted.
-/
theorem utf8_faithful_iff (allocation : Allocation) {chars : List UInt32}
    (encodable : ∀ uch ∈ chars, Encodable uch) (dst : List UInt8) :
    ExportsFaithfully allocation chars dst ↔ dst ≠ [] ∧
        ((chars.map fun uch => utf8Width uch.toNat).sum + 1 ≤ dst.length →
          allocation.grants (4 * (chars.length + 1)) = true) := by
  have length := length_encode encodable
  constructor
  · rintro ⟨roundTrip, refused⟩
    constructor
    · rintro rfl
      obtain ⟨after, failed⟩ := refused.mpr (Nat.succ_pos _)
      -- the terminator is stored whatever the size of the buffer is
      have outside : exportUnicode .utf8 [] (chars ++ [0]) 0 = .error .undefined := by
        cases chars with
        | nil => rfl
        | cons uch rest =>
          rw [List.cons_append, exportUnicode, exportUTF8, if_pos (.inr (Nat.le_refl 0))]
          rfl
      rw [List.length_nil, outside] at failed
      cases failed
    · intro fits
      obtain ⟨exported, imported, written, read, -⟩ := roundTrip fits
      have stored := exportUTF8_fits encodable [] dst (by omega)
      rw [List.nil_append, List.length_nil, List.nil_append] at stored
      rw [exportUnicode, stored] at written
      cases written
      rw [(importUnicode_encode encodable allocation _).2] at read
      by_contra denied
      rw [if_neg denied] at read
      cases read
  · rintro ⟨nonempty, granted⟩
    have stored (fits : (chars.map fun uch => utf8Width uch.toNat).sum + 1 ≤ dst.length) :
        exportUnicode .utf8 dst (chars ++ [0]) dst.length = .ok (0, encode chars ++
            0 :: dst.drop ((encode chars).length + 1)) :=
      exportUTF8_fits encodable [] dst (by omega)
    refine ⟨fun fits => ?_, ?_, fun large => ?_⟩
    · obtain ⟨counted, imported⟩ :=
        importUnicode_encode encodable allocation (dst.drop ((encode chars).length + 1))
      rw [if_pos (granted fits)] at imported
      exact ⟨_, _, stored fits, imported, rfl, rfl, counted⟩
    · rintro ⟨after, failed⟩
      by_contra fits
      rw [stored (Nat.le_of_not_lt fits)] at failed
      cases failed
    · exact exportUTF8_refused encodable [] dst nonempty (by omega)

theorem utf8_faithful_iff_euro : ExportsFaithfully .zeroed [65, 0x20ac] (List.replicate 8 0) :=
  (utf8_faithful_iff .zeroed (by simp [Encodable]) _).mpr ⟨by decide, fun _ => by decide⟩

theorem export_into_no_bytes : exportUnicode .utf8 [] [65, 0] 0 = .error .undefined ∧
      ¬ ExportsFaithfully .zeroed [65] [] := by
  refine ⟨rfl, fun faithful => ?_⟩
  obtain ⟨after, failed⟩ := faithful.refused.mpr (by decide)
  cases failed

end Agar.Core
