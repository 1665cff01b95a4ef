import Agar.Core.PrintfCapacity

namespace Agar.Core

open Agar.Lib

/-!
# The growing buffer

The loop of `AG_DoPrintf` over the pieces of a format, and the loop of
`AG_Printf` over the buffers.  A buffer that is large enough holds the output;
one that is too small is reported as such, unless a piece ends where it does
that may not.
-/

namespace FmtPiece

/-! ## Where pieces end -/

variable {piece : FmtPiece} {rest : List FmtPiece}

theorem charNext_cons_empty (empty : piece.text = []) :
    CharNext (piece :: rest) ↔ CharNext rest := by
  constructor
  · rintro ⟨front, c, back, split, silent⟩
    cases front with
    | nil =>
      obtain ⟨rfl, -⟩ := List.cons.inj split
      exact absurd empty (List.cons_ne_nil _ _)
    | cons first front =>
      obtain ⟨-, rfl⟩ := List.cons.inj split
      exact ⟨front, c, back, rfl, (List.append_eq_nil_iff.mp silent).2⟩
  · rintro ⟨front, c, back, rfl, silent⟩
    refine ⟨piece :: front, c, back, rfl, ?_⟩
    rw [textOf_cons, empty, silent, List.append_nil]

theorem charNext_cons_nonempty (nonempty : piece.text ≠ []) :
    CharNext (piece :: rest) ↔ ∃ c, piece = .char c := by
  constructor
  · rintro ⟨front, c, back, split, silent⟩
    cases front with
    | nil => exact ⟨c, (List.cons.inj split).1⟩
    | cons first front =>
      obtain ⟨rfl, -⟩ := List.cons.inj split
      exact absurd (List.append_eq_nil_iff.mp silent).1 nonempty
  · rintro ⟨c, rfl⟩
    exact ⟨[], c, rest, rfl, rfl⟩

theorem not_charNext_nil : ¬ CharNext [] := by
  rintro ⟨front, c, back, split, -⟩
  exact absurd (congrArg List.length split) (by simp)

variable {pieces : List FmtPiece}

theorem CharNext.textOf_ne_nil (next : CharNext pieces) : textOf pieces ≠ [] := by
  obtain ⟨front, c, back, rfl, -⟩ := next
  rw [textOf_append, textOf_cons]
  exact List.append_ne_nil_of_right_ne_nil _ (List.cons_ne_nil c _)

variable {pEnd start : Nat}

theorem safeFrom_cons :
    SafeFrom pEnd start (piece :: rest) ↔ (piece.text ≠ [] → start + piece.text.length = pEnd →
        piece.EndsSafely rest) ∧
      SafeFrom pEnd (start + piece.text.length) rest := by
  constructor
  · intro safe
    constructor
    · exact fun nonempty ends => safe [] piece rest rfl nonempty ends
    · intro front next back split nonempty ends
      refine safe (piece :: front) next back (by rw [split]; rfl) nonempty ?_
      rw [textOf_cons, List.length_append]
      omega
  · rintro ⟨first, later⟩ front next back split nonempty ends
    cases front with
    | nil =>
      obtain ⟨rfl, rfl⟩ := List.cons.inj split
      exact first nonempty ends
    | cons head front =>
      obtain ⟨rfl, rfl⟩ := List.cons.inj split
      refine later front next back rfl nonempty ?_
      rw [textOf_cons, List.length_append] at ends
      omega

theorem safeFrom_past (pieces : List FmtPiece) (past : pEnd ≤ start) :
    SafeFrom pEnd start pieces := by
  intro front piece rest _ nonempty ends
  have positive := List.length_pos_iff.mpr nonempty
  omega

theorem safeFrom_short (short : start + (textOf pieces).length < pEnd) :
    SafeFrom pEnd start pieces := by
  rintro front piece rest rfl _ ends
  rw [textOf_append, textOf_cons, List.length_append, List.length_append] at short
  omega

theorem beyond_cons_within (within : start + piece.text.length < pEnd) :
    beyond pEnd start (piece :: rest) = beyond pEnd (start + piece.text.length) rest := by
  cases piece <;> exact if_neg (by omega)

theorem beyond_cons_end (other : ¬ piece.IsNumber) (ends : start + piece.text.length = pEnd) :
    beyond pEnd start (piece :: rest) = beyond pEnd pEnd rest := by
  cases piece with
  | int value => exact absurd (Or.inl ⟨value, rfl⟩) other
  | uint value => exact absurd (Or.inr ⟨value, rfl⟩) other
  | literal | char | copied | native | raw =>
    rw [← ends]
    exact if_neg (Nat.lt_irrefl _)

theorem beyond_cons_past (other : ¬ piece.IsNumber) (past : pEnd < start + piece.text.length) :
    beyond pEnd start (piece :: rest) = some (start + piece.text.length) := by
  cases piece with
  | int value => exact absurd (Or.inl ⟨value, rfl⟩) other
  | uint value => exact absurd (Or.inr ⟨value, rfl⟩) other
  | literal | char | copied | native | raw => exact if_pos past

theorem beyond_cons_number (number : piece.IsNumber) (short : pEnd ≤ start + piece.text.length) :
    beyond pEnd start (piece :: rest) = some (pEnd + 1) := by
  obtain ⟨value, rfl⟩ | ⟨value, rfl⟩ := number <;> exact if_pos short

theorem beyond_bounds {length : Nat} (short : beyond pEnd start pieces = some length) :
    pEnd < length ∧ pEnd ≤ start + (textOf pieces).length ∧
      length ≤ start + (textOf pieces).length + 1 := by
  induction pieces generalizing start with
  | nil => cases short
  | cons piece rest ih =>
    rw [textOf_cons, List.length_append, ← Nat.add_assoc]
    by_cases within : start + piece.text.length < pEnd
    · rw [beyond_cons_within within] at short
      exact ih short
    · by_cases number : piece.IsNumber
      · rw [beyond_cons_number number (Nat.not_lt.mp within)] at short
        obtain rfl := Option.some.inj short
        omega
      · rcases Nat.eq_or_lt_of_le (Nat.not_lt.mp within) with ends | past
        · rw [beyond_cons_end number ends.symm] at short
          rw [← ends]
          exact ih short
        · rw [beyond_cons_past number past] at short
          obtain rfl := Option.some.inj short
          omega

theorem beyond_silent (silent : textOf pieces = []) : beyond pEnd pEnd pieces = none := by
  induction pieces with
  | nil => rfl
  | cons piece rest ih =>
    obtain ⟨empty, silent⟩ := List.append_eq_nil_iff.mp silent
    have other : ¬ piece.IsNumber := fun number => number.text_ne_nil empty
    rw [beyond_cons_end other (by rw [empty]; rfl)]
    exact ih silent

theorem safeFrom_cons_end {pEnd start : Nat} {piece : FmtPiece} {rest : List FmtPiece}
    (nonempty : piece.text ≠ []) (ends : start + piece.text.length = pEnd) :
    SafeFrom pEnd start (piece :: rest) ↔ piece.EndsSafely rest := by
  rw [safeFrom_cons]
  exact ⟨fun safe => safe.1 nonempty ends, fun safe => ⟨fun _ _ => safe,
    safeFrom_past rest (Nat.le_of_eq ends.symm)⟩⟩

theorem IsNumber.endsSafely (number : piece.IsNumber) (rest : List FmtPiece) :
    piece.EndsSafely rest := by
  obtain ⟨value, rfl⟩ | ⟨value, rfl⟩ := number <;> trivial

/-- What is stored of a piece that ends where the buffer does. -/
def ending : FmtPiece → List UInt8
  | .copied s | .native s => s.dropLast ++ [0]
  | piece => piece.text

theorem dropLast_append_zero {s : List UInt8} (nonempty : s ≠ []) :
    s.dropLast ++ [0] = s ↔ s.getLast? = some 0 := by
  rw [List.getLast?_eq_some_getLast nonempty, Option.some_inj]
  constructor
  · intro same
    have split := same.trans (List.dropLast_append_getLast nonempty).symm
    exact (List.singleton_inj.mp (List.append_cancel_left split)).symm
  · intro last
    conv_rhs => rw [← List.dropLast_append_getLast nonempty, last]

theorem endsSafely_iff (notLiteral : ∀ c, piece ≠ .literal c) (other : ¬ piece.IsNumber)
    (nonempty : piece.text ≠ []) :
    piece.EndsSafely rest ↔ ¬ CharNext rest ∧ (textOf rest = [] → piece.ending = piece.text) := by
  cases piece with
  | literal c => exact absurd rfl (notLiteral c)
  | int value => exact absurd (.inl ⟨value, rfl⟩) other
  | uint value => exact absurd (.inr ⟨value, rfl⟩) other
  | char c | raw s => exact ⟨fun safe => ⟨safe, fun _ => rfl⟩, fun safe => safe.1⟩
  | copied s | native s =>
    exact and_congr_right fun _ => imp_congr_right fun _ => (dropLast_append_zero nonempty).symm

theorem text_ne_nil_of_not_defined (undefined : ¬ piece.Defined) : piece.text ≠ [] := by
  cases piece with
  | literal | char | copied | uint | raw => exact absurd trivial undefined
  | native s =>
    rintro (rfl : s = [])
    exact undefined (Nat.zero_le _)
  | int value => exact text_int_ne_nil value

end FmtPiece

/-! ## The loop over the pieces -/

namespace FmtBuffer

/-- The loop of `AG_DoPrintf` over pieces, and what follows it -/
def emitAll (pEnd : Nat) : List FmtPiece → FmtBuffer → Except Stop FmtBuffer
  | [], buffer => buffer.out pEnd
  | piece :: rest, buffer => do
      let (truncated, buffer) ← buffer.emit pEnd piece
      if truncated then buffer.out pEnd else emitAll pEnd rest buffer

theorem formatLoop_eq {engine : FmtEngine} {pEnd fuel : Nat} {f : List UInt8} {ap : List FmtArg}
    {pieces : List FmtPiece} (buffer : FmtBuffer)
    (readable : engine.pieces fuel f ap = .ok pieces) :
    engine.formatLoop pEnd fuel f ap buffer = emitAll pEnd pieces buffer := by
  induction fuel generalizing f ap pieces buffer with
  | zero =>
    cases f with
    | nil =>
      cases readable
      rfl
    | cons c f => cases readable
  | succ fuel ih =>
    cases f with
    | nil =>
      cases readable
      rfl
    | cons c f =>
      rw [FmtEngine.pieces] at readable
      obtain ⟨⟨piece, f', ap'⟩, first, readable⟩ := bind_eq_ok.mp readable
      obtain ⟨rest, later, same⟩ := bind_eq_ok.mp readable
      obtain rfl := Except.ok.inj same
      rw [FmtEngine.formatLoop, first, ok_bind, emitAll]
      dsimp only
      congr 1
      funext outcome
      obtain ⟨truncated, buffer⟩ := outcome
      cases truncated with
      | false => exact ih buffer later
      | true => rfl

/-- The output is in front of a terminator. -/
def Complete (output dst : List UInt8) : Prop := dst.take (output.length + 1) = output ++ [0]

/-- What the loop leaves of some pieces, behind the output -/
structure Formatted (pEnd : Nat) (output : List UInt8) (pieces : List FmtPiece)
    (after : FmtBuffer) : Prop where
  length : after.dst.length = pEnd + 1
  whole : FmtPiece.SafeFrom pEnd output.length pieces →
    match FmtPiece.beyond pEnd output.length pieces with
    | none => after.pDst ≤ pEnd ∧ Complete (output ++ textOf pieces) after.dst
    | some length => after.pDst = length
  lost : ¬ FmtPiece.SafeFrom pEnd output.length pieces →
    after.pDst ≤ pEnd ∧ ¬ Complete (output ++ textOf pieces) after.dst

theorem Formatted.cons {pEnd : Nat} {output : List UInt8} {piece : FmtPiece} {rest : List FmtPiece}
    {after : FmtBuffer} (formatted : Formatted pEnd (output ++ piece.text) rest after)
    (fits : output.length + piece.text.length < pEnd) :
    Formatted pEnd output (piece :: rest) after := by
  obtain ⟨length, whole, lost⟩ := formatted
  rw [List.length_append] at whole lost
  have safeIff : FmtPiece.SafeFrom pEnd output.length (piece :: rest) ↔
        FmtPiece.SafeFrom pEnd (output.length + piece.text.length) rest := by
    rw [FmtPiece.safeFrom_cons]
    exact and_iff_right fun _ ends => absurd ends (Nat.ne_of_lt fits)
  refine ⟨length, ?_, ?_⟩
  · rw [safeIff, FmtPiece.beyond_cons_within fits, textOf_cons, ← List.append_assoc]
    exact whole
  · rw [safeIff, textOf_cons, ← List.append_assoc]
    exact lost

variable {buffer : FmtBuffer} {pEnd : Nat} {piece : FmtPiece}

theorem emit_undefined (undefined : ¬ piece.Defined) :
    buffer.emit pEnd piece = .error .undefined := by
  cases piece with
  | literal | char | copied | uint | raw => exact absurd trivial undefined
  | native s => rw [emit, if_pos (Nat.not_le.mp undefined)]
  | int value => rw [emit, if_pos (not_not.mp undefined)]

variable {after : FmtBuffer}

theorem put_length {index : Nat} {bytes : List UInt8}
    (stored : buffer.put index bytes = .ok after) : after.dst.length = buffer.dst.length := by
  obtain ⟨dst, written, same⟩ := bind_eq_ok.mp stored
  obtain rfl := Except.ok.inj same
  obtain ⟨⟨-, inside⟩, rfl⟩ := memWrite_eq_ok.mp written
  exact length_splice (by omega)

theorem truncate_length {buffer after : FmtBuffer} {pEnd : Nat} {left : Bool}
    (stored : buffer.truncate pEnd = .ok (left, after)) : after.dst.length = buffer.dst.length := by
  obtain ⟨last, written, same⟩ := bind_eq_ok.mp stored
  cases same
  exact put_length written

theorem advance_length {rv : Nat} {left : Bool}
    (advanced : buffer.advance pEnd rv = .ok (left, after)) :
    after.dst.length = buffer.dst.length := by
  rw [advance] at advanced
  split at advanced
  case isTrue =>
    exact @truncate_length { buffer with pDst := buffer.pDst + rv } after pEnd
      left advanced
  case isFalse =>
    cases advanced
    rfl

theorem copyTerminated_length {s : List UInt8} (stored : buffer.copyTerminated pEnd s = .ok after) :
    after.dst.length = buffer.dst.length := by
  rw [copyTerminated] at stored
  split at stored
  case isTrue =>
    cases stored
    rfl
  case isFalse => exact put_length stored

theorem putReversed_length {rv : Nat} {s : List UInt8}
    (stored : buffer.putReversed pEnd s = .ok (rv, after)) :
    after.dst.length = buffer.dst.length := by
  rw [putReversed] at stored
  split at stored
  case isTrue =>
    cases stored
    rfl
  case isFalse =>
    split at stored
    all_goals
      obtain ⟨last, written, same⟩ := bind_eq_ok.mp stored
      cases same
      exact put_length written

theorem emit_length {left : Bool} (emitted : buffer.emit pEnd piece = .ok (left, after)) :
    after.dst.length = buffer.dst.length := by
  cases piece with
  | literal c =>
    obtain ⟨last, written, emitted⟩ := bind_eq_ok.mp emitted
    have kept := put_length written
    dsimp only at emitted
    split at emitted
    case isTrue =>
      exact (@truncate_length { last with pDst := last.pDst + 1 } after pEnd
        left emitted).trans kept
    case isFalse =>
      cases emitted
      exact kept
  | char c =>
    rw [emit] at emitted
    split at emitted
    case isTrue => exact truncate_length emitted
    case isFalse =>
      obtain ⟨last, written, emitted⟩ := bind_eq_ok.mp emitted
      exact (advance_length emitted).trans (put_length written)
  | copied s =>
    obtain ⟨last, written, emitted⟩ := bind_eq_ok.mp emitted
    exact (advance_length emitted).trans (copyTerminated_length written)
  | native s =>
    rw [emit] at emitted
    split at emitted
    case isTrue => cases emitted
    case isFalse =>
      obtain ⟨last, written, emitted⟩ := bind_eq_ok.mp emitted
      exact (advance_length emitted).trans (copyTerminated_length written)
  | int value =>
    rw [emit] at emitted
    split at emitted
    case isTrue => cases emitted
    case isFalse =>
      obtain ⟨⟨rv, last⟩, written, emitted⟩ := bind_eq_ok.mp emitted
      exact (advance_length emitted).trans (putReversed_length written)
  | uint value =>
    obtain ⟨⟨rv, last⟩, written, emitted⟩ := bind_eq_ok.mp emitted
    exact (advance_length emitted).trans (putReversed_length written)
  | raw s =>
    obtain ⟨last, written, emitted⟩ := bind_eq_ok.mp emitted
    exact (advance_length emitted).trans (put_length written)

theorem emitAll_length {pieces : List FmtPiece} (done : emitAll pEnd pieces buffer = .ok after) :
    after.dst.length = buffer.dst.length := by
  induction pieces generalizing buffer with
  | nil => exact put_length done
  | cons piece rest ih =>
    obtain ⟨⟨left, next⟩, emitted, done⟩ := bind_eq_ok.mp done
    cases left with
    | false => exact (ih done).trans (emit_length emitted)
    | true => exact (put_length done).trans (emit_length emitted)

section Loop

variable {buffer : FmtBuffer} {pEnd : Nat} {output : List UInt8}

theorem emitAll_left (left : buffer.emit pEnd piece = .ok (true, after))
    (length : after.dst.length = pEnd + 1) (rest : List FmtPiece) :
    ∃ dst, emitAll pEnd (piece :: rest) buffer = .ok { after with dst := dst } ∧
        dst.length = pEnd + 1 ∧
        dst.take (min after.pDst pEnd + 1) = after.dst.take (min after.pDst pEnd) ++ [0] := by
  obtain ⟨dst, done, sameLength, content⟩ := out_eq length
  refine ⟨dst, ?_, sameLength, content⟩
  rw [emitAll, left]
  exact done

theorem emitAll_stays (stays : buffer.emit pEnd piece = .ok (false, after)) (rest : List FmtPiece) :
    emitAll pEnd (piece :: rest) buffer = emitAll pEnd rest after := by
  rw [emitAll, stays]
  rfl

/-! ## The end of the buffer -/

variable {rest : List FmtPiece}

theorem emitAll_end_silent (length : buffer.dst.length = pEnd + 1) (there : buffer.pDst = pEnd)
    (silent : textOf rest = []) :
    ∃ dst, emitAll pEnd rest buffer = .ok { buffer with dst := dst } ∧ dst.length = pEnd + 1 ∧
        dst.take (pEnd + 1) = buffer.dst.take pEnd ++ [0] := by
  induction rest with
  | nil =>
    obtain ⟨dst, done, sameLength, content⟩ := out_eq length
    rw [there, Nat.min_self] at content
    exact ⟨dst, done, sameLength, content⟩
  | cons piece rest ih =>
    obtain ⟨empty, silent⟩ := List.append_eq_nil_iff.mp silent
    rw [emitAll_stays (emit_empty length there empty)]
    exact ih silent

theorem emitAll_end_char (length : buffer.dst.length = pEnd + 1) (there : buffer.pDst = pEnd)
    (next : FmtPiece.CharNext rest) :
    ∃ after, emitAll pEnd rest buffer = .ok after ∧ after.pDst = pEnd ∧
        after.dst.length = pEnd + 1 := by
  induction rest with
  | nil => exact absurd next FmtPiece.not_charNext_nil
  | cons piece rest ih =>
    by_cases empty : piece.text = []
    · rw [emitAll_stays (emit_empty length there empty)]
      exact ih ((FmtPiece.charNext_cons_empty empty).mp next)
    · obtain ⟨c, rfl⟩ := (FmtPiece.charNext_cons_nonempty empty).mp next
      obtain ⟨after, left, stays, sameLength⟩ := @emit_char_beyond buffer pEnd c length there
      obtain ⟨dst, done, dstLength, _⟩ := emitAll_left left sameLength rest
      exact ⟨_, done, stays, dstLength⟩

theorem emitAll_end_beyond (length : buffer.dst.length = pEnd + 1) (there : buffer.pDst = pEnd)
    (defined : ∀ piece ∈ rest, piece.Defined) (more : textOf rest ≠ [])
    (notChar : ¬ FmtPiece.CharNext rest) :
    ∃ after, emitAll pEnd rest buffer = .ok after ∧
        FmtPiece.beyond pEnd pEnd rest = some after.pDst ∧ after.dst.length = pEnd + 1 := by
  induction rest with
  | nil => exact absurd rfl more
  | cons piece rest ih =>
    rw [List.forall_mem_cons] at defined
    by_cases empty : piece.text = []
    · have other : ¬ piece.IsNumber :=
        fun number => number.text_ne_nil empty
      rw [textOf_cons, empty, List.nil_append] at more
      rw [FmtPiece.charNext_cons_empty empty] at notChar
      rw [emitAll_stays (emit_empty length there empty),
        FmtPiece.beyond_cons_end other (by rw [empty]; rfl)]
      exact ih defined.2 more notChar
    · have positive := List.length_pos_iff.mpr empty
      by_cases number : piece.IsNumber
      · obtain ⟨after, left, reported, sameLength⟩ :=
          emit_number_short length (Nat.le_of_eq there) defined.1 number (by omega)
        obtain ⟨dst, done, dstLength, _⟩ := emitAll_left left sameLength rest
        refine ⟨_, done, ?_, dstLength⟩
        rw [FmtPiece.beyond_cons_number number (by omega)]
        exact congrArg some reported.symm
      · have past : pEnd < pEnd + piece.text.length := by omega
        obtain ⟨after, left, reported, sameLength⟩ :=
          emit_beyond length (Nat.le_of_eq there) defined.1 (fun c same => notChar
              ((FmtPiece.charNext_cons_nonempty empty).mpr ⟨c, same⟩))
            number (by rw [there]; exact past)
        obtain ⟨dst, done, dstLength, _⟩ := emitAll_left left sameLength rest
        refine ⟨_, done, ?_, dstLength⟩
        rw [FmtPiece.beyond_cons_past number past, reported, there]

/-! ## The whole loop -/

theorem not_complete_of_long {text dst : List UInt8} (long : dst.length ≤ text.length) :
    ¬ Complete text dst := by
  intro complete
  have lengths := congrArg List.length complete
  rw [List.length_take, List.length_append, List.length_singleton] at lengths
  omega

theorem Filled.emitAll_literal_end {c : UInt8} (filled : buffer.Filled pEnd output)
    (ends : output.length + 1 = pEnd) :
    ∃ after, emitAll pEnd (.literal c :: rest) buffer = .ok after ∧
        Formatted pEnd output (.literal c :: rest) after := by
  obtain ⟨last, left, there, length, content⟩ :=
    @Filled.emit_literal_end buffer pEnd output c filled ends
  obtain ⟨dst, done, dstLength, dstContent⟩ := emitAll_left left length rest
  have front : last.dst.take pEnd = output ++ [c] := by
    have cut := congrArg (List.take pEnd) content
    rw [List.take_take, Nat.min_eq_left (Nat.le_succ _)] at cut
    rw [cut, List.take_left' (by simpa using ends)]
  rw [there, Nat.min_self, front] at dstContent
  have safeIff : FmtPiece.SafeFrom pEnd output.length (.literal c :: rest) ↔ textOf rest = [] :=
    FmtPiece.safeFrom_cons_end (List.cons_ne_nil _ _) ends
  refine ⟨_, done, dstLength, fun safe => ?_, fun notSafe => ?_⟩
  · have silent := safeIff.mp safe
    rw [FmtPiece.beyond_cons_end (by rintro (⟨_, ⟨⟩⟩ | ⟨_, ⟨⟩⟩)) ends,
      FmtPiece.beyond_silent silent]
    refine ⟨Nat.le_of_eq there, ?_⟩
    rw [textOf_cons, silent, List.append_nil]
    rw [Complete, List.length_append]
    change dst.take (output.length + 1 + 1) = _
    rw [ends, dstContent]
    rfl
  · refine ⟨Nat.le_of_eq there, not_complete_of_long ?_⟩
    have more := List.length_pos_iff.mpr (safeIff.not.mp notSafe)
    rw [textOf_cons, List.length_append, List.length_append]
    change dst.length ≤ output.length + (1 + (textOf rest).length)
    omega

theorem Filled.emit_end {piece : FmtPiece} (filled : buffer.Filled pEnd output)
    (defined : piece.Defined) (notLiteral : ∀ c, piece ≠ .literal c) (other : ¬ piece.IsNumber)
    (nonempty : piece.text ≠ []) (ends : output.length + piece.text.length = pEnd) :
    ∃ after, buffer.emit pEnd piece = .ok (false, after) ∧ after.pDst = pEnd ∧
        after.dst.length = pEnd + 1 ∧ after.dst.take pEnd = output ++ piece.ending := by
  have stored (unterminated : ∃ c s, piece = .char c ∨ piece = .raw s) :
      ∃ after, buffer.emit pEnd piece = .ok (false, after) ∧ after.pDst = pEnd ∧
          after.dst.length = pEnd + 1 ∧
          after.dst.take pEnd = output ++ piece.text := by
    obtain ⟨after, stays, done⟩ := filled.emit_unterminated_end unterminated ends
    have width : (output ++ piece.text).length = pEnd := by rw [List.length_append, ends]
    exact ⟨after, stays, done.index.trans width, done.length, width ▸ done.content⟩
  cases piece with
  | literal c => exact absurd rfl (notLiteral c)
  | char c => exact stored ⟨c, [], .inl rfl⟩
  | copied s => exact filled.emit_terminated_end defined (.inl rfl) nonempty ends
  | native s => exact filled.emit_terminated_end defined (.inr rfl) nonempty ends
  | int value => exact absurd (.inl ⟨value, rfl⟩) other
  | uint value => exact absurd (.inr ⟨value, rfl⟩) other
  | raw s => exact stored ⟨0, s, .inr rfl⟩

theorem Filled.emitAll_other_end (filled : buffer.Filled pEnd output)
    (defined : ∀ next ∈ piece :: rest, next.Defined) (notLiteral : ∀ c, piece ≠ .literal c)
    (other : ¬ piece.IsNumber) (nonempty : piece.text ≠ [])
    (ends : output.length + piece.text.length = pEnd) :
    ∃ after, emitAll pEnd (piece :: rest) buffer = .ok after ∧
        Formatted pEnd output (piece :: rest) after := by
  rw [List.forall_mem_cons] at defined
  obtain ⟨last, stays, there, length, content⟩ :=
    filled.emit_end defined.1 notLiteral other nonempty ends
  have safeIff :=
    (@FmtPiece.safeFrom_cons_end pEnd output.length piece rest nonempty
      ends).trans (FmtPiece.endsSafely_iff notLiteral other nonempty)
  have width : (output ++ textOf (piece :: rest)).length = pEnd + (textOf rest).length := by
    rw [textOf_cons, List.length_append, List.length_append]
    omega
  rw [emitAll_stays stays]
  by_cases silent : textOf rest = []
  · obtain ⟨dst, done, dstLength, dstContent⟩ :=
      emitAll_end_silent length there silent
    have completeIff : Complete (output ++ textOf (piece :: rest)) dst ↔
          piece.ending = piece.text := by
      rw [Complete, width, textOf_cons, silent, List.length_nil,
        List.append_nil, Nat.add_zero, dstContent, content]
      simp
    have quiet : ¬ FmtPiece.CharNext rest := fun next => next.textOf_ne_nil silent
    refine ⟨_, done, dstLength, fun safe => ?_, fun notSafe => ?_⟩
    · rw [FmtPiece.beyond_cons_end other ends, FmtPiece.beyond_silent silent]
      exact ⟨Nat.le_of_eq there, completeIff.mpr ((safeIff.mp safe).2 silent)⟩
    · refine ⟨Nat.le_of_eq there, fun complete => notSafe ?_⟩
      exact safeIff.mpr ⟨quiet, fun _ => completeIff.mp complete⟩
  · have more := List.length_pos_iff.mpr silent
    by_cases next : FmtPiece.CharNext rest
    · obtain ⟨after, done, stopped, afterLength⟩ :=
        emitAll_end_char length there next
      refine ⟨after, done, afterLength, fun safe => ?_, fun _ => ?_⟩
      · exact absurd next (safeIff.mp safe).1
      · exact ⟨Nat.le_of_eq stopped, not_complete_of_long (by omega)⟩
    · obtain ⟨after, done, reported, afterLength⟩ :=
        emitAll_end_beyond length there defined.2 silent next
      refine ⟨after, done, afterLength, fun _ => ?_, fun notSafe => ?_⟩
      · rw [FmtPiece.beyond_cons_end other ends, reported]
      · exact absurd (safeIff.mpr ⟨next, fun quiet => absurd quiet silent⟩) notSafe

theorem Filled.emitAll {pieces : List FmtPiece} (filled : buffer.Filled pEnd output)
    (inside : output.length < pEnd) (defined : ∀ piece ∈ pieces, piece.Defined) :
    ∃ after, emitAll pEnd pieces buffer = .ok after ∧ Formatted pEnd output pieces after := by
  induction pieces generalizing buffer output with
  | nil =>
    obtain ⟨dst, done, length, content⟩ := out_eq filled.length
    have least : min buffer.pDst pEnd = output.length := by
      rw [filled.index]
      omega
    rw [least, filled.content] at content
    refine ⟨_, done, length, fun _ => ⟨?_, ?_⟩, fun notSafe => ?_⟩
    · rw [filled.index]
      exact Nat.le_of_lt inside
    · rw [textOf_nil, List.append_nil]
      exact content
    · exact absurd (FmtPiece.safeFrom_short inside) notSafe
  | cons piece rest ih =>
    obtain ⟨first, later⟩ := List.forall_mem_cons.mp defined
    by_cases fits : output.length + piece.text.length < pEnd
    · -- the piece is put out whole, and the rest follows it
      obtain ⟨next, stays, done⟩ := filled.emit first fits
      obtain ⟨after, finished, formatted⟩ := ih done (by rw [List.length_append]; exact fits) later
      rw [emitAll_stays stays]
      exact ⟨after, finished, formatted.cons fits⟩
    · by_cases number : piece.IsNumber
      · have short := Nat.not_lt.mp fits
        obtain ⟨last, left, reported, length⟩ :=
          emit_number_short filled.length
            (by rw [filled.index]; exact Nat.le_of_lt inside) first number
            (by rw [filled.index]; exact short)
        obtain ⟨dst, done, dstLength, _⟩ := emitAll_left left length rest
        have safe : FmtPiece.SafeFrom pEnd output.length (piece :: rest) :=
          FmtPiece.safeFrom_cons.mpr ⟨fun _ _ => number.endsSafely rest,
            FmtPiece.safeFrom_past rest short⟩
        refine ⟨_, done, dstLength, fun _ => ?_, fun notSafe => ?_⟩
        · rw [FmtPiece.beyond_cons_number number short]
          exact reported
        · exact absurd safe notSafe
      · rcases Nat.eq_or_lt_of_le (Nat.not_lt.mp fits) with ends | past
        · have nonempty : piece.text ≠ [] := by
            intro empty
            rw [empty, List.length_nil] at ends
            omega
          by_cases isLiteral : ∃ c, piece = .literal c
          · obtain ⟨c, rfl⟩ := isLiteral
            exact filled.emitAll_literal_end ends.symm
          · exact filled.emitAll_other_end defined
              (fun c same => isLiteral ⟨c, same⟩) number nonempty ends.symm
        · have notChar (c : UInt8) (same : piece = .char c) : False := by
            rw [same] at past
            exact absurd past (Nat.not_lt.mpr inside)
          obtain ⟨last, left, reported, length⟩ :=
            emit_beyond filled.length (by rw [filled.index]; exact Nat.le_of_lt inside) first
              notChar number (by rw [filled.index]; exact past)
          obtain ⟨dst, done, dstLength, _⟩ := emitAll_left left length rest
          have safe : FmtPiece.SafeFrom pEnd output.length (piece :: rest) :=
            FmtPiece.safeFrom_cons.mpr ⟨fun _ ends => absurd ends.symm (Nat.ne_of_lt past),
                FmtPiece.safeFrom_past rest (Nat.le_of_lt past)⟩
          refine ⟨_, done, dstLength, fun _ => ?_, fun notSafe => ?_⟩
          · rw [FmtPiece.beyond_cons_past number past, ← filled.index]
            exact reported
          · exact absurd safe notSafe

theorem Filled.emitAll_undefined {pieces : List FmtPiece} (filled : buffer.Filled pEnd output)
    (fits : output.length + (textOf pieces).length ≤ pEnd)
    (undefined : ∃ piece ∈ pieces, ¬ piece.Defined) :
    FmtBuffer.emitAll pEnd pieces buffer = .error .undefined := by
  induction pieces generalizing buffer output with
  | nil =>
    obtain ⟨piece, member, -⟩ := undefined
    cases member
  | cons piece rest ih =>
    by_cases first : piece.Defined
    · obtain ⟨next, member, bad⟩ := undefined
      have behind : next ∈ rest := by
        rcases List.mem_cons.mp member with rfl | behind
        · exact absurd first bad
        · exact behind
      have positive : 0 < (textOf rest).length :=
        Nat.lt_of_lt_of_le (List.length_pos_iff.mpr (FmtPiece.text_ne_nil_of_not_defined bad))
          (textOf_sublist behind).length_le
      rw [textOf_cons, List.length_append] at fits
      obtain ⟨after, stays, done⟩ := filled.emit first (by omega)
      rw [emitAll_stays stays]
      exact ih done (by rw [List.length_append]; omega) ⟨next, behind, bad⟩
    · rw [FmtBuffer.emitAll, emit_undefined first]
      rfl

end Loop

end FmtBuffer

end Agar.Core
