import Agar.Core.Printf
import Agar.Lib.ByteArray

namespace Agar.Core

open Agar.Lib

/-!
# Formatted output of any length

Whether `AG_Printf` returns the whole formatted string.  It does unless a piece
of the output ends exactly where a buffer that it tries ends: a character of
the format then leaves the loop although there is more to format, what
`Strlcpy` or `snprintf` put out lacks its last character, and a `%c` or `%%`
that comes next leaves the loop with a length that is within the buffer.
-/

/-- What some pieces put out when there is room for it. -/
def textOf (pieces : List FmtPiece) : List UInt8 := pieces.flatMap FmtPiece.text

@[simp] theorem textOf_nil : textOf [] = [] := rfl

@[simp] theorem textOf_cons (piece : FmtPiece) (rest : List FmtPiece) :
    textOf (piece :: rest) = piece.text ++ textOf rest :=
  rfl

@[simp] theorem textOf_append (front back : List FmtPiece) :
    textOf (front ++ back) = textOf front ++ textOf back :=
  List.flatMap_append

variable {piece : FmtPiece}

theorem textOf_sublist {pieces : List FmtPiece} (member : piece ∈ pieces) :
    piece.text.Sublist (textOf pieces) :=
  List.sublist_flatten_of_mem (List.mem_map_of_mem member)

theorem lastDigitsFirst_ne_nil (value : Nat) : lastDigitsFirst value ≠ [] := by
  rw [lastDigitsFirst]
  split <;> exact List.cons_ne_nil _ _

namespace FmtPiece

/-- The piece is formatted without an overflow. -/
def Defined : FmtPiece → Prop
  | .native s => s.length ≤ intMax
  | .int value => value ≠ Int32.minValue
  | _ => True

theorem text_int_ne_nil (value : Int32) : (int value).text ≠ [] := by
  rw [text, Ne, List.reverse_eq_nil_iff, reversedInt, List.append_eq_nil_iff]
  exact fun silent => lastDigitsFirst_ne_nil _ silent.1

theorem text_uint_ne_nil (value : UInt32) : (uint value).text ≠ [] := by
  rw [text, Ne, List.reverse_eq_nil_iff]
  exact lastDigitsFirst_ne_nil _

/-- The piece is the number of an `int` or an `unsigned int`. -/
def IsNumber (piece : FmtPiece) : Prop :=
  (∃ value, piece = .int value) ∨ ∃ value, piece = .uint value

theorem IsNumber.text_ne_nil (number : piece.IsNumber) : piece.text ≠ [] := by
  obtain ⟨value, rfl⟩ | ⟨value, rfl⟩ := number
  · exact text_int_ne_nil value
  · exact text_uint_ne_nil value

/-- What comes next, if anything, is put out by `%c` or `%%`. -/
def CharNext (pieces : List FmtPiece) : Prop :=
  ∃ front c back, pieces = front ++ .char c :: back ∧ textOf front = []

/-- A piece may end where the buffer does, in front of the rest. -/
def EndsSafely (rest : List FmtPiece) : FmtPiece → Prop
  | .literal _ => textOf rest = []
  | .char _ | .raw _ => ¬ CharNext rest
  | .copied s | .native s => ¬ CharNext rest ∧ (textOf rest = [] → s.getLast? = some 0)
  | .int _ | .uint _ => True

/--
No piece ends where the buffer does, with some output in front of it, but one
that may.
-/
def SafeFrom (pEnd start : Nat) (pieces : List FmtPiece) : Prop :=
  ∀ front piece rest, pieces = front ++ piece :: rest → piece.text ≠ [] →
    start + (textOf front).length + piece.text.length = pEnd →
    piece.EndsSafely rest

/--
The length that a buffer is too short for: where the first piece ends that
ends behind it, or one more than its own for a number.
-/
def beyond (pEnd : Nat) : Nat → List FmtPiece → Option Nat
  | _, [] => none
  | start, piece :: rest =>
    let reach := start + piece.text.length
    match piece with
    | .int _ | .uint _ => if reach ≥ pEnd then some (pEnd + 1) else beyond pEnd reach rest
    | _ => if reach > pEnd then some reach else beyond pEnd reach rest

end FmtPiece

/-! ## The buffer -/

namespace FmtBuffer

/-- The buffer ends at an index and holds some output up to `pDst`. -/
structure Filled (buffer : FmtBuffer) (pEnd : Nat) (output : List UInt8) : Prop where
  length : buffer.dst.length = pEnd + 1
  index : buffer.pDst = output.length
  content : buffer.dst.take output.length = output

theorem take_splice {dst bytes : List UInt8} {index count : Nat}
    (inside : index + bytes.length ≤ dst.length) (within : count ≤ bytes.length) :
    (splice dst index bytes).take (index + count) = dst.take index ++ bytes.take count := by
  have front : (dst.take index).length = index := by
    rw [List.length_take]
    omega
  rw [splice, List.append_assoc, List.take_append, front,
    List.take_of_length_le (by omega), Nat.add_sub_cancel_left,
    List.take_append_of_le_length within]

theorem put_eq {buffer : FmtBuffer} {index : Nat} {bytes : List UInt8}
    (inside : index + bytes.length ≤ buffer.dst.length) :
    buffer.put index bytes = .ok { buffer with dst := splice buffer.dst index bytes } := by
  rw [put, memWrite_inside inside]
  rfl

section Steps

variable {buffer : FmtBuffer} {pEnd : Nat} {output : List UInt8}

theorem Filled.put (filled : buffer.Filled pEnd output) {bytes : List UInt8}
    (inside : output.length + bytes.length ≤ pEnd + 1) :
    ∃ dst, buffer.put buffer.pDst bytes = .ok { buffer with dst := dst } ∧ dst.length = pEnd + 1 ∧
        ∀ count ≤ bytes.length, dst.take (output.length + count) = output ++ bytes.take count := by
  have room : buffer.pDst + bytes.length ≤ buffer.dst.length := by
    rw [filled.index, filled.length]
    exact inside
  refine ⟨_, put_eq room, ?_, fun count within => ?_⟩
  · rw [length_splice room, filled.length]
  · rw [filled.index] at room ⊢
    rw [take_splice room within, filled.content]

theorem truncate_eq (length : buffer.dst.length = pEnd + 1) : ∃ dst,
      buffer.truncate pEnd = .ok (true, { buffer with dst := dst }) ∧ dst.length = pEnd + 1 ∧
        dst.take pEnd = buffer.dst.take pEnd ∧
        dst.take (pEnd + 1) = buffer.dst.take pEnd ++ [0] := by
  have room : pEnd + [(0 : UInt8)].length ≤ buffer.dst.length := Nat.le_of_eq length.symm
  refine ⟨splice buffer.dst pEnd [0], ?_, ?_, ?_, ?_⟩
  · rw [truncate, put_eq room]
    rfl
  · rw [length_splice room, length]
  · have front := @take_splice buffer.dst [0] pEnd 0 room (Nat.zero_le _)
    rwa [Nat.add_zero, List.take_zero, List.append_nil] at front
  · exact @take_splice buffer.dst [0] pEnd 1 room (Nat.le_refl _)

theorem advance_within {rv : Nat} (within : buffer.pDst + rv ≤ pEnd) : buffer.advance pEnd rv =
      .ok (false, { buffer with pDst := buffer.pDst + rv }) := by
  rw [advance]
  dsimp only
  rw [if_neg (Nat.not_lt.mpr within)]

theorem advance_beyond {rv : Nat} (length : buffer.dst.length = pEnd + 1)
    (beyond : pEnd < buffer.pDst + rv) :
    ∃ dst, buffer.advance pEnd rv = .ok (true, { dst := dst, pDst := buffer.pDst + rv }) ∧
        dst.length = pEnd + 1 := by
  obtain ⟨dst, cut, sameLength, _⟩ :=
    @truncate_eq { buffer with pDst := buffer.pDst + rv } pEnd length
  refine ⟨dst, ?_, sameLength⟩
  rw [advance]
  dsimp only
  rw [if_pos beyond, cut]

theorem out_eq (length : buffer.dst.length = pEnd + 1) : ∃ dst,
      buffer.out pEnd = .ok { buffer with dst := dst } ∧ dst.length = pEnd + 1 ∧
        dst.take (min buffer.pDst pEnd + 1) = buffer.dst.take (min buffer.pDst pEnd) ++ [0] := by
  have least : (if buffer.pDst < pEnd then buffer.pDst else pEnd) = min buffer.pDst pEnd := by
    split <;> omega
  have room : min buffer.pDst pEnd + [(0 : UInt8)].length ≤ buffer.dst.length := by
    rw [List.length_singleton, length]
    omega
  refine ⟨splice buffer.dst (min buffer.pDst pEnd) [0], ?_, ?_, ?_⟩
  · rw [out, least, put_eq room]
  · rw [length_splice room, length]
  · exact @take_splice buffer.dst [0] _ 1 room (Nat.le_refl _)

theorem Filled.copyTerminated (filled : buffer.Filled pEnd output) {s : List UInt8}
    (fits : output.length + s.length < pEnd) :
    ∃ dst, buffer.copyTerminated pEnd s = .ok { buffer with dst := dst } ∧ dst.length = pEnd + 1 ∧
        dst.take (output.length + s.length) = output ++ s := by
  have whole : s.take (pEnd - buffer.pDst - 1) = s := by
    rw [filled.index]
    exact List.take_of_length_le (by omega)
  have room : pEnd - buffer.pDst ≠ 0 := by
    rw [filled.index]
    omega
  obtain ⟨dst, stored, length, content⟩ :=
    @Filled.put buffer pEnd output filled (s ++ [0]) (by
      rw [List.length_append, List.length_singleton]
      omega)
  refine ⟨dst, ?_, length, ?_⟩
  · rw [FmtBuffer.copyTerminated]
    rw [if_neg room, whole, stored]
  · rw [content s.length (by simp), List.take_left]

theorem Filled.copyTerminated_exact (filled : buffer.Filled pEnd output) {s : List UInt8}
    (nonempty : s ≠ []) (ends : output.length + s.length = pEnd) :
    ∃ dst, buffer.copyTerminated pEnd s = .ok { buffer with dst := dst } ∧ dst.length = pEnd + 1 ∧
        dst.take pEnd = output ++ (s.dropLast ++ [0]) := by
  have positive : 0 < s.length := List.length_pos_iff.mpr nonempty
  have cut : s.take (pEnd - buffer.pDst - 1) = s.dropLast := by
    rw [filled.index, List.dropLast_eq_take]
    congr 1
    omega
  have room : pEnd - buffer.pDst ≠ 0 := by
    rw [filled.index]
    omega
  have width : (s.dropLast ++ [(0 : UInt8)]).length = s.length := by
    rw [List.length_append, List.length_dropLast, List.length_singleton]
    omega
  obtain ⟨dst, stored, length, content⟩ :=
    @Filled.put buffer pEnd output filled (s.dropLast ++ [0]) (by omega)
  refine ⟨dst, ?_, length, ?_⟩
  · rw [FmtBuffer.copyTerminated]
    rw [if_neg room, cut, stored]
  · rw [← ends, ← width, content _ (Nat.le_refl _), List.take_length]

theorem copyTerminated_eq (length : buffer.dst.length = pEnd + 1) (s : List UInt8) : ∃ dst,
      buffer.copyTerminated pEnd s = .ok { buffer with dst := dst } ∧ dst.length = pEnd + 1 := by
  rw [copyTerminated]
  split
  case isTrue => exact ⟨buffer.dst, rfl, length⟩
  case isFalse room =>
    have inside : buffer.pDst + (s.take (pEnd - buffer.pDst - 1) ++ [0]).length ≤
          buffer.dst.length := by
      rw [List.length_append, List.length_take, List.length_singleton, length]
      omega
    exact ⟨_, put_eq inside, by rw [length_splice inside, length]⟩

theorem Filled.putReversed (filled : buffer.Filled pEnd output) {s : List UInt8}
    (fits : output.length + s.length < pEnd) :
    ∃ dst, buffer.putReversed pEnd s = .ok (s.length, { buffer with dst := dst }) ∧
        dst.length = pEnd + 1 ∧ dst.take (output.length + s.length) = output ++ s.reverse := by
  obtain ⟨dst, stored, length, content⟩ :=
    @Filled.put buffer pEnd output filled (s.reverse ++ [0]) (by
      rw [List.length_append, List.length_reverse, List.length_singleton]
      omega)
  refine ⟨dst, ?_, length, ?_⟩
  · rw [FmtBuffer.putReversed]
    rw [if_neg (by rw [filled.index]; omega), if_neg (by rw [filled.index]; omega), stored]
    rfl
  · rw [content s.length (by simp), ← List.length_reverse, List.take_left]

theorem putReversed_short {s : List UInt8} (length : buffer.dst.length = pEnd + 1)
    (within : buffer.pDst ≤ pEnd) (short : pEnd ≤ buffer.pDst + s.length) :
    ∃ dst, buffer.putReversed pEnd s = .ok (pEnd - buffer.pDst + 1, { buffer with dst := dst }) ∧
        dst.length = pEnd + 1 := by
  rw [putReversed]
  split
  case isTrue empty =>
    have none : pEnd - buffer.pDst = 0 := by omega
    rw [none]
    exact ⟨buffer.dst, rfl, length⟩
  case isFalse room =>
    have inside : buffer.pDst + ((s.take (pEnd - buffer.pDst - 1)).reverse ++ [0]).length ≤
          buffer.dst.length := by
      rw [List.length_append, List.length_reverse, List.length_take, List.length_singleton, length]
      omega
    rw [if_pos (by omega), put_eq inside]
    exact ⟨_, rfl, by rw [length_splice inside, length]⟩

/-! ## One piece -/

theorem Filled.advanced {dst text : List UInt8} (filled : buffer.Filled pEnd output)
    (length : dst.length = pEnd + 1)
    (content : dst.take (output.length + text.length) = output ++ text)
    (within : output.length + text.length ≤ pEnd) :
    ∃ after, advance { buffer with dst := dst } pEnd text.length = .ok (false, after) ∧
        after.Filled pEnd (output ++ text) := by
  refine ⟨_, advance_within (by rw [filled.index]; exact within), length, ?_, ?_⟩
  · rw [filled.index, List.length_append]
  · rw [List.length_append, content]

theorem Filled.emit (filled : buffer.Filled pEnd output) (defined : piece.Defined)
    (fits : output.length + piece.text.length < pEnd) :
    ∃ after, buffer.emit pEnd piece = .ok (false, after) ∧
        after.Filled pEnd (output ++ piece.text) := by
  cases piece with
  | literal c =>
    have one : output.length + 1 < pEnd := fits
    obtain ⟨dst, stored, length, content⟩ :=
      @Filled.put buffer pEnd output filled [c] (by
        rw [List.length_singleton]
        omega)
    refine ⟨{ dst := dst, pDst := buffer.pDst + 1 }, ?_, length, ?_, ?_⟩
    · rw [FmtBuffer.emit, stored, ok_bind]
      dsimp only
      rw [if_neg (by rw [filled.index]; omega)]
      rfl
    · rw [filled.index, List.length_append]
      rfl
    · rw [List.length_append]
      exact content 1 (Nat.le_refl _)
  | char c =>
    have one : output.length + 1 < pEnd := fits
    obtain ⟨dst, stored, length, content⟩ :=
      @Filled.put buffer pEnd output filled [c] (by
        rw [List.length_singleton]
        omega)
    obtain ⟨after, advanced, done⟩ :=
      @Filled.advanced buffer pEnd output dst [c] filled length
        (content 1 (Nat.le_refl _)) (Nat.le_of_lt one)
    refine ⟨after, ?_, done⟩
    rw [FmtBuffer.emit, if_neg (by rw [filled.index]; omega), stored]
    exact advanced
  | copied s =>
    have room : output.length + s.length < pEnd := fits
    obtain ⟨dst, stored, length, content⟩ := filled.copyTerminated room
    obtain ⟨after, advanced, done⟩ := filled.advanced length content (Nat.le_of_lt fits)
    refine ⟨after, ?_, done⟩
    rw [FmtBuffer.emit, stored]
    exact advanced
  | native s =>
    have room : output.length + s.length < pEnd := fits
    obtain ⟨dst, stored, length, content⟩ := filled.copyTerminated room
    obtain ⟨after, advanced, done⟩ := filled.advanced length content (Nat.le_of_lt fits)
    refine ⟨after, ?_, done⟩
    rw [FmtBuffer.emit, if_neg (Nat.not_lt.mpr defined), stored]
    exact advanced
  | int value =>
    have width : (FmtPiece.int value).text.length = (FmtPiece.reversedInt value).length :=
      List.length_reverse
    obtain ⟨dst, stored, length, content⟩ := filled.putReversed (width ▸ fits)
    rw [← width] at content
    obtain ⟨after, advanced, done⟩ :=
      @Filled.advanced buffer pEnd output dst (FmtPiece.int value).text filled
        length content (Nat.le_of_lt fits)
    refine ⟨after, ?_, done⟩
    rw [FmtBuffer.emit, if_neg defined, stored, ← width]
    exact advanced
  | uint value =>
    have width : (FmtPiece.uint value).text.length = (lastDigitsFirst value.toNat).length :=
      List.length_reverse
    obtain ⟨dst, stored, length, content⟩ := filled.putReversed (width ▸ fits)
    rw [← width] at content
    obtain ⟨after, advanced, done⟩ :=
      @Filled.advanced buffer pEnd output dst (FmtPiece.uint value).text filled
        length content (Nat.le_of_lt fits)
    refine ⟨after, ?_, done⟩
    rw [FmtBuffer.emit, stored, ← width]
    exact advanced
  | raw s =>
    have inside : output.length + s.length < pEnd := fits
    have whole : s.take (pEnd - buffer.pDst) = s := by
      rw [filled.index]
      exact List.take_of_length_le (by omega)
    obtain ⟨dst, stored, length, content⟩ := @Filled.put buffer pEnd output filled s (by omega)
    have stays := content s.length (Nat.le_refl _)
    rw [List.take_length] at stays
    obtain ⟨after, advanced, done⟩ := filled.advanced length stays (Nat.le_of_lt fits)
    refine ⟨after, ?_, done⟩
    rw [FmtBuffer.emit, whole, stored]
    exact advanced

theorem Filled.emit_literal_end {c : UInt8} (filled : buffer.Filled pEnd output)
    (ends : output.length + 1 = pEnd) :
    ∃ after, buffer.emit pEnd (.literal c) = .ok (true, after) ∧ after.pDst = pEnd ∧
        after.dst.length = pEnd + 1 ∧ after.dst.take (pEnd + 1) = output ++ [c] ++ [0] := by
  obtain ⟨dst, stored, length, content⟩ :=
    @Filled.put buffer pEnd output filled [c] (by
      rw [List.length_singleton]
      omega)
  obtain ⟨cut, truncated, sameLength, _, cutContent⟩ :=
    @truncate_eq { dst := dst, pDst := buffer.pDst + 1 } pEnd length
  refine ⟨{ dst := cut, pDst := buffer.pDst + 1 }, ?_, ?_, sameLength, ?_⟩
  · rw [FmtBuffer.emit, stored, ok_bind]
    dsimp only
    rw [if_pos (by rw [filled.index]; omega), truncated]
  · change buffer.pDst + 1 = pEnd
    rw [filled.index, ends]
  · have front := content 1 (Nat.le_refl _)
    rw [ends] at front
    rw [cutContent]
    exact congrArg (· ++ [0]) front

theorem Filled.emit_unterminated_end (filled : buffer.Filled pEnd output)
    (unterminated : ∃ c s, piece = .char c ∨ piece = .raw s)
    (ends : output.length + piece.text.length = pEnd) :
    ∃ after, buffer.emit pEnd piece = .ok (false, after) ∧
        after.Filled pEnd (output ++ piece.text) := by
  obtain ⟨c, s, rfl | rfl⟩ := unterminated
  · have one : output.length + 1 = pEnd := ends
    obtain ⟨dst, stored, length, content⟩ :=
      @Filled.put buffer pEnd output filled [c] (by
        rw [List.length_singleton]
        omega)
    obtain ⟨after, advanced, done⟩ :=
      @Filled.advanced buffer pEnd output dst [c] filled length
        (content 1 (Nat.le_refl _)) (Nat.le_of_eq one)
    refine ⟨after, ?_, done⟩
    rw [FmtBuffer.emit, if_neg (by rw [filled.index]; omega), stored]
    exact advanced
  · have same : output.length + s.length = pEnd := ends
    have whole : s.take (pEnd - buffer.pDst) = s := by
      rw [filled.index]
      exact List.take_of_length_le (by omega)
    obtain ⟨dst, stored, length, content⟩ := @Filled.put buffer pEnd output filled s (by omega)
    have stays := content s.length (Nat.le_refl _)
    rw [List.take_length] at stays
    obtain ⟨after, advanced, done⟩ := filled.advanced length stays (Nat.le_of_eq ends)
    refine ⟨after, ?_, done⟩
    rw [FmtBuffer.emit, whole, stored]
    exact advanced

theorem Filled.emit_terminated_end {s : List UInt8} (filled : buffer.Filled pEnd output)
    (defined : piece.Defined) (terminated : piece = .copied s ∨ piece = .native s)
    (nonempty : s ≠ []) (ends : output.length + s.length = pEnd) :
    ∃ after, buffer.emit pEnd piece = .ok (false, after) ∧ after.pDst = pEnd ∧
        after.dst.length = pEnd + 1 ∧ after.dst.take pEnd = output ++ (s.dropLast ++ [0]) := by
  obtain ⟨dst, stored, length, content⟩ := filled.copyTerminated_exact nonempty ends
  have reached : buffer.pDst + s.length = pEnd := by rw [filled.index, ends]
  have advanced := @advance_within { buffer with dst := dst } pEnd s.length (Nat.le_of_eq reached)
  refine ⟨{ dst := dst, pDst := buffer.pDst + s.length }, ?_, reached, length, content⟩
  rcases terminated with rfl | rfl
  · rw [FmtBuffer.emit, stored]
    exact advanced
  · rw [FmtBuffer.emit, if_neg (Nat.not_lt.mpr defined), stored]
    exact advanced

theorem emit_number_short (length : buffer.dst.length = pEnd + 1) (within : buffer.pDst ≤ pEnd)
    (defined : piece.Defined) (number : piece.IsNumber)
    (short : pEnd ≤ buffer.pDst + piece.text.length) :
    ∃ after, buffer.emit pEnd piece = .ok (true, after) ∧ after.pDst = pEnd + 1 ∧
        after.dst.length = pEnd + 1 := by
  have left {dst : List UInt8} (stays : dst.length = pEnd + 1) :
      ∃ after, advance { buffer with dst := dst } pEnd (pEnd - buffer.pDst + 1) =
            .ok (true, after) ∧
          after.pDst = pEnd + 1 ∧
          after.dst.length = pEnd + 1 := by
    obtain ⟨cut, advanced, cutLength⟩ :=
      @advance_beyond { buffer with dst := dst } pEnd
        (pEnd - buffer.pDst + 1) stays (by dsimp only; omega)
    refine ⟨_, advanced, ?_, cutLength⟩
    dsimp only
    omega
  obtain ⟨value, rfl⟩ | ⟨value, rfl⟩ := number
  · rw [FmtPiece.text, List.length_reverse] at short
    obtain ⟨dst, stored, sameLength⟩ := putReversed_short length within short
    obtain ⟨after, advanced, done⟩ := left sameLength
    refine ⟨after, ?_, done⟩
    rw [FmtBuffer.emit, if_neg defined, stored]
    exact advanced
  · rw [FmtPiece.text, List.length_reverse] at short
    obtain ⟨dst, stored, sameLength⟩ := putReversed_short length within short
    obtain ⟨after, advanced, done⟩ := left sameLength
    refine ⟨after, ?_, done⟩
    rw [FmtBuffer.emit, stored]
    exact advanced

theorem emit_char_beyond {c : UInt8} (length : buffer.dst.length = pEnd + 1)
    (there : buffer.pDst = pEnd) :
    ∃ after, buffer.emit pEnd (.char c) = .ok (true, after) ∧ after.pDst = pEnd ∧
        after.dst.length = pEnd + 1 := by
  obtain ⟨cut, truncated, sameLength, _⟩ := truncate_eq length
  refine ⟨{ buffer with dst := cut }, ?_, there, sameLength⟩
  rw [FmtBuffer.emit, if_pos (by rw [there]; exact Nat.lt_succ_self _), truncated]

theorem emit_beyond (length : buffer.dst.length = pEnd + 1) (within : buffer.pDst ≤ pEnd)
    (defined : piece.Defined) (notChar : ∀ c, piece ≠ .char c) (other : ¬ piece.IsNumber)
    (beyond : pEnd < buffer.pDst + piece.text.length) :
    ∃ after, buffer.emit pEnd piece = .ok (true, after) ∧
        after.pDst = buffer.pDst + piece.text.length ∧ after.dst.length = pEnd + 1 := by
  cases piece with
  | literal c =>
    have one : pEnd < buffer.pDst + 1 := beyond
    have room : buffer.pDst + [c].length ≤ buffer.dst.length := by
      rw [List.length_singleton, length]
      omega
    have stays : (splice buffer.dst buffer.pDst [c]).length = pEnd + 1 := by
      rw [length_splice room, length]
    obtain ⟨cut, truncated, sameLength, _⟩ :=
      @truncate_eq
        { dst := splice buffer.dst buffer.pDst [c]
          pDst := buffer.pDst + 1 } pEnd stays
    refine ⟨{ dst := cut, pDst := buffer.pDst + 1 }, ?_, rfl, sameLength⟩
    rw [emit, put_eq room, ok_bind]
    dsimp only
    rw [if_pos (Nat.le_of_lt one), truncated]
  | char c => exact absurd rfl (notChar c)
  | copied s =>
    obtain ⟨dst, stored, stays⟩ := copyTerminated_eq length s
    obtain ⟨cut, advanced, sameLength⟩ :=
      @advance_beyond { buffer with dst := dst } pEnd s.length stays beyond
    refine ⟨{ dst := cut, pDst := buffer.pDst + s.length }, ?_, rfl, sameLength⟩
    rw [emit, stored]
    exact advanced
  | native s =>
    obtain ⟨dst, stored, stays⟩ := copyTerminated_eq length s
    obtain ⟨cut, advanced, sameLength⟩ :=
      @advance_beyond { buffer with dst := dst } pEnd s.length stays beyond
    refine ⟨{ dst := cut, pDst := buffer.pDst + s.length }, ?_, rfl, sameLength⟩
    rw [emit, if_neg (Nat.not_lt.mpr defined), stored]
    exact advanced
  | int value => exact absurd (Or.inl ⟨value, rfl⟩) other
  | uint value => exact absurd (Or.inr ⟨value, rfl⟩) other
  | raw s =>
    have room : buffer.pDst + (s.take (pEnd - buffer.pDst)).length ≤ buffer.dst.length := by
      rw [List.length_take, length]
      omega
    have stays : (splice buffer.dst buffer.pDst
          (s.take (pEnd - buffer.pDst))).length = pEnd + 1 := by
      rw [length_splice room, length]
    obtain ⟨cut, advanced, sameLength⟩ :=
      @advance_beyond
        { buffer with
          dst := splice buffer.dst buffer.pDst
            (s.take (pEnd - buffer.pDst)) } pEnd s.length stays beyond
    refine ⟨{ dst := cut, pDst := buffer.pDst + s.length }, ?_, rfl, sameLength⟩
    rw [emit, put_eq room]
    exact advanced

theorem emit_empty (length : buffer.dst.length = pEnd + 1) (there : buffer.pDst = pEnd)
    (empty : piece.text = []) : buffer.emit pEnd piece = .ok (false, buffer) := by
  have none : pEnd - buffer.pDst = 0 := by omega
  have still : buffer.advance pEnd 0 = .ok (false, buffer) := advance_within (by omega)
  cases piece with
  | literal c | char c => cases empty
  | copied s =>
    obtain rfl : s = [] := empty
    rw [emit, copyTerminated, if_pos none]
    exact still
  | native s =>
    obtain rfl : s = [] := empty
    rw [emit, if_neg (by decide), copyTerminated, if_pos none]
    exact still
  | int value => exact absurd empty (FmtPiece.text_int_ne_nil value)
  | uint value => exact absurd empty (FmtPiece.text_uint_ne_nil value)
  | raw s =>
    obtain rfl : s = [] := empty
    rw [emit, List.take_nil, put_eq (by rw [List.length_nil]; omega), splice_nil]
    exact still

end Steps

end FmtBuffer

end Agar.Core
