import Agar.Core.PolledOutput

namespace Agar.Core

open Agar.Lib

/-!
# When polled arguments are in step

What one part of a format does to the buffer, by where its text starts and
ends, and from it what the whole format does.
-/

/-- The buffer holds what there is room for of a text, which is measured. -/
def Holds (pEnd : Nat) (full : List UInt8) (outcome : Except Stop FmtBuffer) : Prop :=
  ∃ after, outcome = .ok after ∧ after.pDst = full.length ∧ after.dst.length = pEnd + 1 ∧
      full.take pEnd ++ [0] <+: after.dst

variable {pEnd : Nat} {output full : List UInt8} {buffer : FmtBuffer}

theorem not_holds_error {stop : Stop} : ¬ Holds pEnd full (.error stop) := by
  rintro ⟨_, failed, _⟩
  cases failed

theorem getElem?_of_prefixOf {after : List UInt8} (held : full.take pEnd ++ [0] <+: after)
    {place : Nat} (inside : place < pEnd) (within : place < full.length) :
    after[place]? = full[place]? := by
  obtain ⟨rest, rfl⟩ := held
  have front : place < (full.take pEnd).length := by
    rw [List.length_take]
    omega
  rw [List.append_assoc, List.getElem?_append_left front, List.getElem?_take_of_lt inside]

theorem holds_out_iff (length : buffer.dst.length = pEnd + 1) (reached : pEnd ≤ buffer.pDst)
    (content : buffer.dst.take pEnd = full.take pEnd) :
    Holds pEnd full (buffer.out pEnd) ↔ buffer.pDst = full.length := by
  obtain ⟨after, ended, index, sameLength, held⟩ := FmtBuffer.out_terminates length
  rw [Nat.min_eq_right reached, content] at held
  constructor
  · rintro ⟨other, same, measured, _⟩
    rw [ended] at same
    cases same
    exact index.symm.trans measured
  · intro measured
    exact ⟨after, ended, index.trans measured, sameLength, held⟩

/-- What is left of the loop behind a piece -/
def proceed (pEnd : Nat) (next : FmtBuffer → Except Stop FmtBuffer)
    (step : Bool × FmtBuffer) : Except Stop FmtBuffer :=
  if step.1 then step.2.out pEnd else next step.2

variable {after : FmtBuffer} {left : Bool}

theorem proceed_kept {next : FmtBuffer → Except Stop FmtBuffer}
    (keeps : ∀ before after, next before = .ok after → FmtBuffer.Kept pEnd before after)
    (done : proceed pEnd next (left, buffer) = .ok after) : FmtBuffer.Kept pEnd buffer after := by
  rw [proceed] at done
  split at done
  · exact FmtBuffer.out_kept done
  · exact keeps _ _ done

/-! ## Single pieces -/

namespace FmtBuffer

theorem Filled.emit_stored (filled : buffer.Filled pEnd output) (c : UInt8)
    (room : output.length < pEnd) :
    ∃ after, buffer.emitPolled pEnd (.stored c) = .ok (false, after) ∧
        after.Filled pEnd (output ++ [c]) := by
  obtain ⟨dst, stored, length, content⟩ :=
    @Filled.put buffer pEnd output filled [c] (by
      rw [List.length_singleton]
      omega)
  obtain ⟨after, advanced, done⟩ :=
    @Filled.advanced buffer pEnd output dst [c] filled length (content 1 (Nat.le_refl _)) room
  refine ⟨after, ?_, done⟩
  rw [emitPolled, stored]
  exact advanced

theorem emit_stored_end (length : buffer.dst.length = pEnd + 1) (there : buffer.pDst = pEnd)
    (c : UInt8) :
    ∃ after, buffer.emitPolled pEnd (.stored c) = .ok (true, after) ∧ after.pDst = pEnd + 1 := by
  have room : buffer.pDst + [c].length ≤ buffer.dst.length := by
    rw [there, length, List.length_singleton]
  have stays : (splice buffer.dst buffer.pDst [c]).length = pEnd + 1 := by
    rw [length_splice room, length]
  obtain ⟨cut, advanced, _⟩ :=
    @advance_beyond
      { buffer with dst := splice buffer.dst buffer.pDst [c] } pEnd 1 stays
      (by dsimp only; omega)
  refine ⟨{ dst := cut, pDst := buffer.pDst + 1 }, ?_, congrArg (· + 1) there⟩
  rw [emitPolled, put_eq room]
  exact advanced

theorem emit_nothing (length : buffer.dst.length = pEnd + 1) (within : buffer.pDst ≤ pEnd) :
    buffer.emitPolled pEnd .nothing = .ok (false, buffer) := by
  have still : buffer.advance pEnd 0 = .ok (false, buffer) := advance_within within
  rw [PolledPiece.nothing, emitPolled, emit, List.take_nil,
    put_eq (by rw [List.length_nil]; omega), splice_nil]
  exact still

theorem emitPolled_kept {piece : PolledPiece} {left : Bool} {after : FmtBuffer}
    (emitted : buffer.emitPolled pEnd piece = .ok (left, after)) : Kept pEnd buffer after := by
  cases piece with
  | piece piece => exact emit_kept emitted
  | stored c =>
    obtain ⟨stored, put, rest⟩ := bind_eq_ok.mp emitted
    exact (put_kept put (.inl (Nat.le_refl _))).trans (advance_kept rest)

theorem emit_end {piece : PolledPiece} (proper : (Shown.read piece).Proper)
    (defined : (Shown.read piece).Read) (length : buffer.dst.length = pEnd + 1)
    (there : buffer.pDst = pEnd) (nonempty : piece.text ≠ []) :
    ∃ after, buffer.emitPolled pEnd piece = .ok (true, after) ∧
        ((Shown.read piece).IsNumber ∧ after.pDst = pEnd + 1 ∨ ¬ (Shown.read piece).IsNumber ∧
            after.pDst = pEnd + piece.text.length) := by
  have within : buffer.pDst ≤ pEnd := Nat.le_of_eq there
  cases piece with
  | stored c =>
    obtain ⟨after, emitted, index⟩ := emit_stored_end length there c
    exact ⟨after, emitted, .inr ⟨id, index⟩⟩
  | piece piece =>
    have positive : 0 < piece.text.length := List.length_pos_iff.mpr nonempty
    by_cases number : piece.IsNumber
    · obtain ⟨after, emitted, index, _⟩ :=
        emit_number_short length within defined number (by omega)
      exact ⟨after, emitted, .inl ⟨number, index⟩⟩
    · have notChar (c : UInt8) : piece ≠ .char c := by
        rintro rfl
        obtain ⟨_, same⟩ | ⟨⟨_, same | same⟩ | ⟨_, same⟩ | ⟨_, same⟩, _⟩ := proper
        all_goals cases same
      obtain ⟨after, emitted, index, _⟩ :=
        emit_beyond length within defined notChar number (by omega)
      rw [there] at index
      exact ⟨after, emitted, .inr ⟨number, index⟩⟩

end FmtBuffer

/-! ## Single parts -/

@[simp] theorem shownText_cons (first : Shown) (rest : List Shown) :
    shownText (first :: rest) = first.text ++ shownText rest :=
  rfl

section RightFrom

variable {first : Shown} {rest : List Shown} {start : Nat}

theorem rightFrom_within (fits : start + first.text.length < pEnd) :
    RightFrom pEnd start (first :: rest) ↔
      first.Read ∧ RightFrom pEnd (start + first.text.length) rest := by
  rw [RightFrom, if_pos fits]

theorem rightFrom_reaching (inside : start < pEnd) (reaches : pEnd ≤ start + first.text.length) :
    RightFrom pEnd start (first :: rest) ↔ first.EndsBuffer rest ∧ RightFrom pEnd pEnd rest := by
  rw [RightFrom, if_neg (Nat.not_lt.mpr reaches), if_pos inside]

theorem rightFrom_end_silent (silent : first.text = []) :
    RightFrom pEnd pEnd (first :: rest) ↔ RightFrom pEnd pEnd rest := by
  rw [RightFrom, if_neg (Nat.not_lt.mpr (Nat.le_add_right _ _)),
    if_neg (Nat.lt_irrefl _), if_pos silent]

theorem rightFrom_end (output : first.text ≠ []) : RightFrom pEnd pEnd (first :: rest) ↔
      shownText rest = [] ∧ (first.IsNumber → first.text.length = 1) := by
  rw [RightFrom, if_neg (Nat.not_lt.mpr (Nat.le_add_right _ _)),
    if_neg (Nat.lt_irrefl _), if_neg output]

end RightFrom

theorem rightFrom_of_silent {rest : List Shown} (silent : shownText rest = []) :
    RightFrom pEnd pEnd rest := by
  induction rest with
  | nil => trivial
  | cons first rest ih =>
    rw [shownText_cons, List.append_eq_nil_iff] at silent
    exact (rightFrom_end_silent silent.1).mpr (ih silent.2)

theorem Shown.Proper.not_read {piece : PolledPiece} (proper : (Shown.read piece).Proper)
    (undefined : ¬ (Shown.read piece).Read) : piece = .piece (.int Int32.minValue) := by
  cases piece with
  | stored c => exact absurd trivial undefined
  | piece piece =>
    obtain ⟨c, rfl⟩ | ⟨_, _, least⟩ := proper
    · exact absurd trivial undefined
    · rw [least undefined]

theorem emit_least : buffer.emitPolled pEnd (.piece (.int Int32.minValue)) = .error .undefined := by
  rw [FmtBuffer.emitPolled, FmtBuffer.emit, if_pos rfl]

theorem FmtBuffer.Filled.holds_left_iff (filled : buffer.Filled pEnd output)
    (ends : output.length = pEnd) {behind : List UInt8} (text : full = output ++ behind)
    {piece : PolledPiece} (emitted : buffer.emitPolled pEnd piece = .ok (left, after))
    (reached : pEnd ≤ after.pDst) :
    Holds pEnd full (after.out pEnd) ↔ after.pDst = full.length := by
  have there : buffer.pDst = pEnd := filled.index.trans ends
  have kept := FmtBuffer.emitPolled_kept emitted
  have content : after.dst.take pEnd = full.take pEnd := by
    rw [text, List.take_left' ends]
    apply List.ext_getElem?
    intro place
    have same := congrArg (·[place]?) filled.content
    by_cases inside : place < pEnd
    · rw [List.getElem?_take_of_lt inside, kept.bytes place (by omega) inside]
      rwa [List.getElem?_take_of_lt (by omega)] at same
    · rw [List.getElem?_take_eq_none (by omega), List.getElem?_eq_none (by omega)]
  exact holds_out_iff (kept.length.trans filled.length) reached content

theorem emit_literal_byte {c : UInt8} (inside : buffer.pDst < pEnd)
    (emitted : buffer.emitPolled pEnd (.piece (.literal c)) = .ok (left, after)) :
    buffer.pDst < after.pDst ∧ after.dst[buffer.pDst]? = some c := by
  obtain ⟨stored, put, rest⟩ := bind_eq_ok.mp emitted
  obtain ⟨room, rfl⟩ := FmtBuffer.put_eq_ok.mp put
  have further : FmtBuffer.Kept pEnd
        { dst := splice buffer.dst buffer.pDst [c], pDst := buffer.pDst + 1 }
        after := by
    dsimp only at rest
    split at rest
    · exact FmtBuffer.truncate_kept rest
    · cases rest
      exact .refl _
  refine ⟨further.index, ?_⟩
  rw [further.bytes _ (Nat.lt_succ_self _) inside]
  dsimp only
  rw [getElem?_splice room, if_pos (by simp), Nat.sub_self]
  rfl

section Step

variable {next : FmtBuffer → Except Stop FmtBuffer} {piece : PolledPiece} {rest : List Shown}

theorem holds_within (proper : (Shown.read piece).Proper) (filled : buffer.Filled pEnd output)
    (fits : output.length + piece.text.length < pEnd)
    (later : ∀ after : FmtBuffer, after.Filled pEnd (output ++ piece.text) →
        (Holds pEnd full (next after) ↔ RightFrom pEnd (output.length + piece.text.length) rest)) :
    Holds pEnd full (buffer.emitPolled pEnd piece >>= proceed pEnd next) ↔
      RightFrom pEnd output.length (.read piece :: rest) := by
  refine Iff.trans ?_ (rightFrom_within fits).symm
  by_cases defined : (Shown.read piece).Read
  · have whole : ∃ after, buffer.emitPolled pEnd piece = .ok (false, after) ∧
            after.Filled pEnd (output ++ piece.text) := by
      cases piece with
      | stored c => exact filled.emit_stored c (Nat.lt_of_succ_lt fits)
      | piece piece => exact filled.emit defined fits
    obtain ⟨after, emitted, done⟩ := whole
    rw [emitted, ok_bind]
    exact (later after done).trans (and_iff_right defined).symm
  · rw [proper.not_read defined, emit_least]
    exact iff_of_false not_holds_error fun right => defined (proper.not_read defined ▸ right.1)

theorem holds_reaching
    (keeps : ∀ before after, next before = .ok after → FmtBuffer.Kept pEnd before after)
    (proper : (Shown.read piece).Proper) (filled : buffer.Filled pEnd output)
    (inside : output.length < pEnd) (reaches : pEnd ≤ output.length + piece.text.length)
    (text : full = output ++ piece.text ++ shownText rest)
    (later : ∀ after : FmtBuffer, after.Filled pEnd (output ++ piece.text) →
        output.length + piece.text.length = pEnd →
        (Holds pEnd full (next after) ↔ RightFrom pEnd pEnd rest)) :
    Holds pEnd full (buffer.emitPolled pEnd piece >>= proceed pEnd next) ↔
      RightFrom pEnd output.length (.read piece :: rest) := by
  refine Iff.trans ?_ (@rightFrom_reaching pEnd (.read piece) rest _ inside reaches).symm
  cases piece with
  | stored c =>
    have ends : output.length + [c].length = pEnd := Nat.le_antisymm inside reaches
    obtain ⟨after, emitted, done⟩ := filled.emit_stored c inside
    rw [emitted, ok_bind]
    exact (later after done ends).trans (and_iff_right trivial).symm
  | piece piece =>
    obtain ⟨c, rfl⟩ | ⟨terminated, noNul, _⟩ := proper
    · have ends : output.length + 1 = pEnd := Nat.le_antisymm inside reaches
      obtain ⟨after, emitted, index, length, content⟩ := filled.emit_literal_end ends
      have front : after.dst.take pEnd = output ++ [c] := by
        have cut := congrArg (List.take pEnd) content
        rwa [List.take_take, Nat.min_eq_left (Nat.le_succ _),
          List.take_left' (by simp [ends])] at cut
      have same : after.dst.take pEnd = full.take pEnd := by
        rw [front, text]
        refine (List.take_left' ?_).symm
        rw [List.length_append]
        exact ends
      rw [FmtBuffer.emitPolled, emitted, ok_bind]
      have ended : Holds pEnd full (after.out pEnd) ↔ after.pDst = full.length :=
        holds_out_iff length (Nat.le_of_eq index.symm) same
      refine ended.trans ?_
      have measured : after.pDst = full.length ↔ shownText rest = [] := by
        rw [index, text, ← ends, ← List.length_eq_zero_iff]
        simp only [PolledPiece.text, FmtPiece.text, List.length_append, List.length_singleton]
        omega
      rw [measured]
      exact ⟨fun silent => ⟨silent, rightFrom_of_silent silent⟩, And.left⟩
    · -- the terminator of a string or a number is in the last place
      have notLast : ¬ (Shown.read (.piece piece)).EndsBuffer rest := by
        obtain ⟨_, rfl | rfl⟩ | ⟨_, rfl⟩ | ⟨_, rfl⟩ := terminated
        all_goals exact id
      refine iff_of_false ?_ fun right => notLast right.1
      rintro ⟨done, same, _, _, held⟩
      obtain ⟨⟨left, after⟩, emitted, proceeds⟩ := bind_eq_ok.mp same
      obtain ⟨beyond, nul⟩ :=
        FmtBuffer.emit_spoils terminated (by rw [filled.index]; exact inside)
          (by rw [filled.index]; exact reaches) emitted
      have kept := (proceed_kept keeps proceeds).bytes (pEnd - 1) (by omega) (by omega)
      have place : pEnd - 1 - output.length < piece.text.length := by
        change pEnd ≤ output.length + piece.text.length at reaches
        omega
      have byte : full[pEnd - 1]? = piece.text[pEnd - 1 - output.length]? := by
        rw [text, List.append_assoc, List.getElem?_append_right (by omega)]
        exact List.getElem?_append_left place
      have within : pEnd - 1 < full.length := by
        rw [text, List.length_append, List.length_append]
        change _ < output.length + piece.text.length + _
        omega
      rw [getElem?_of_prefixOf held (by omega) within, byte, nul] at kept
      exact noNul (List.mem_of_getElem? kept)

theorem holds_end (proper : (Shown.read piece).Proper) (filled : buffer.Filled pEnd output)
    (ends : output.length = pEnd) (text : full = output ++ piece.text ++ shownText rest)
    (later : piece.text = [] → (Holds pEnd full (next buffer) ↔ RightFrom pEnd pEnd rest)) :
    Holds pEnd full (buffer.emitPolled pEnd piece >>= proceed pEnd next) ↔
      RightFrom pEnd output.length (.read piece :: rest) := by
  have there : buffer.pDst = pEnd := filled.index.trans ends
  rw [ends]
  by_cases silent : piece.text = []
  · refine Iff.trans ?_ (@rightFrom_end_silent pEnd (.read piece) rest silent).symm
    have emitted : buffer.emitPolled pEnd piece = .ok (false, buffer) := by
      cases piece with
      | stored c => cases silent
      | piece piece => exact FmtBuffer.emit_empty filled.length there silent
    rw [emitted, ok_bind]
    exact later silent
  · refine Iff.trans ?_ (@rightFrom_end pEnd (.read piece) rest silent).symm
    by_cases defined : (Shown.read piece).Read
    · obtain ⟨after, emitted, index⟩ :=
        FmtBuffer.emit_end proper defined filled.length there silent
      have measured : full.length = pEnd + piece.text.length + (shownText rest).length := by
        rw [text, List.length_append, List.length_append, ends]
      have positive : 0 < piece.text.length := List.length_pos_iff.mpr silent
      have reached : pEnd ≤ after.pDst := by rcases index with ⟨_, index⟩ | ⟨_, index⟩ <;> omega
      have left : Holds pEnd full (after.out pEnd) ↔ after.pDst = full.length :=
        filled.holds_left_iff ends (by rw [text, List.append_assoc]) emitted reached
      rw [emitted, ok_bind]
      refine left.trans ?_
      rw [measured, ← List.length_eq_zero_iff]
      change _ ↔ _ ∧ (_ → piece.text.length = 1)
      rcases index with ⟨number, index⟩ | ⟨other, index⟩
      · rw [index]
        constructor
        · intro same
          exact ⟨by omega, fun _ => by omega⟩
        · rintro ⟨last, short⟩
          have one := short number
          omega
      · rw [index]
        constructor
        · intro same
          exact ⟨by omega, fun number => absurd number other⟩
        · rintro ⟨last, _⟩
          omega
    · have least := proper.not_read defined
      subst least
      rw [emit_least]
      refine iff_of_false not_holds_error ?_
      rintro ⟨_, short⟩
      have one := short (.inl ⟨_, rfl⟩)
      have digits : (FmtPiece.int Int32.minValue).text.length ≠ 1 := by
        simp [FmtPiece.text, FmtPiece.reversedInt, lastDigitsFirst]
      exact digits one

theorem holds_unread
    (keeps : ∀ before after, next before = .ok after → FmtBuffer.Kept pEnd before after)
    {letter : UInt8} {number : List UInt8} (proper : (Shown.unread letter number).Proper)
    (filled : buffer.Filled pEnd output) (within : output.length ≤ pEnd)
    (text : full = output ++ number ++ shownText rest) :
    Holds pEnd full (buffer.emitPolled pEnd (.piece (.literal letter)) >>= proceed pEnd next) ↔
      RightFrom pEnd output.length (.unread letter number :: rest) := by
  obtain ⟨_, nonempty, absent⟩ := proper
  have positive : 0 < number.length := List.length_pos_iff.mpr nonempty
  have measured : full.length = output.length + number.length + (shownText rest).length := by
    rw [text, List.length_append, List.length_append]
  rcases Nat.lt_or_eq_of_le within with inside | ends
  · have wrong : ¬ RightFrom pEnd output.length (.unread letter number :: rest) := by
      by_cases fits : output.length + number.length < pEnd
      · exact fun right =>
          ((@rightFrom_within pEnd (.unread letter number) rest _ fits).mp
            right).1
      · exact fun right =>
          ((@rightFrom_reaching pEnd (.unread letter number) rest _ inside
            (Nat.le_of_not_lt fits)).mp right).1
    refine iff_of_false ?_ wrong
    rintro ⟨done, same, _, _, held⟩
    obtain ⟨⟨left, after⟩, emitted, proceeds⟩ := bind_eq_ok.mp same
    obtain ⟨further, byte⟩ := emit_literal_byte (by rw [filled.index]; exact inside) emitted
    rw [filled.index] at further byte
    have kept := (proceed_kept keeps proceeds).bytes output.length further inside
    have first : full[output.length]? = number[0]? := by
      rw [text, List.append_assoc, List.getElem?_append_right (Nat.le_refl _), Nat.sub_self,
        List.getElem?_append_left positive]
    rw [getElem?_of_prefixOf held inside (by omega), first, byte] at kept
    exact absent (List.mem_of_getElem? kept)
  · have there : buffer.pDst = pEnd := filled.index.trans ends
    obtain ⟨after, emitted, index⟩ :=
      @FmtBuffer.emit_end pEnd buffer (.piece (.literal letter))
        (.inl ⟨letter, rfl⟩) trivial filled.length there
        (List.cons_ne_nil _ _)
    have beyond : after.pDst = pEnd + 1 := by
      rcases index with ⟨_, index⟩ | ⟨_, index⟩ <;> exact index
    have left : Holds pEnd full (after.out pEnd) ↔ after.pDst = full.length :=
      filled.holds_left_iff ends (by rw [text, List.append_assoc]) emitted (by omega)
    rw [ends, emitted, ok_bind]
    refine left.trans (Iff.trans ?_
      (@rightFrom_end pEnd (.unread letter number) rest nonempty).symm)
    rw [beyond, measured, ends, ← List.length_eq_zero_iff]
    change _ ↔ _ ∧ (_ → number.length = 1)
    constructor
    · intro same
      exact ⟨by omega, fun _ => by omega⟩
    · rintro ⟨last, short⟩
      have one := short trivial
      omega

theorem holds_read
    (keeps : ∀ before after, next before = .ok after → FmtBuffer.Kept pEnd before after)
    (proper : (Shown.read piece).Proper) (filled : buffer.Filled pEnd output)
    (within : output.length ≤ pEnd) (text : full = output ++ piece.text ++ shownText rest)
    (later : ∀ after : FmtBuffer, after.Filled pEnd (output ++ piece.text) →
        output.length + piece.text.length ≤ pEnd →
        (Holds pEnd full (next after) ↔ RightFrom pEnd (output.length + piece.text.length) rest)) :
    Holds pEnd full (buffer.emitPolled pEnd piece >>= proceed pEnd next) ↔
      RightFrom pEnd output.length (.read piece :: rest) := by
  by_cases fits : output.length + piece.text.length < pEnd
  · exact holds_within proper filled fits fun after done => later after done (Nat.le_of_lt fits)
  · rcases Nat.lt_or_eq_of_le within with inside | ends
    · refine holds_reaching keeps proper filled inside (Nat.le_of_not_lt fits)
        text fun after done reached => ?_
      rw [later after done (Nat.le_of_eq reached), reached]
    · refine holds_end proper filled ends text fun silent => ?_
      rw [silent, List.append_nil, List.length_nil, Nat.add_zero] at later
      rw [later buffer filled within, ends]

end Step

/-! ## The loop -/

namespace PolledEngine

variable {engine : PolledEngine} {p : List Nat} {curArg : Nat}

theorem processLoop_next {c : UInt8} {f rest : List UInt8} {piece : PolledPiece} {following : Nat}
    (next : engine.nextPolled p c f curArg = .ok (piece, rest, following)) (fuel : Nat)
    (buffer : FmtBuffer) :
    engine.processLoop p pEnd (fuel + 1) (c :: f) curArg buffer = (buffer.emitPolled pEnd piece >>=
        proceed pEnd (engine.processLoop p pEnd fuel rest following)) := by
  rw [processLoop, next]
  rfl

theorem processLoop_kept {fuel : Nat} {f : List UInt8} {before after : FmtBuffer}
    (done : engine.processLoop p pEnd fuel f curArg before = .ok after) :
    FmtBuffer.Kept pEnd before after := by
  induction fuel generalizing f curArg before after with
  | zero =>
    cases f with
    | nil => exact FmtBuffer.out_kept done
    | cons c f => cases done
  | succ fuel ih =>
    cases f with
    | nil => exact FmtBuffer.out_kept done
    | cons c f =>
      rw [processLoop] at done
      obtain ⟨⟨piece, rest, following⟩, next, done⟩ := bind_eq_ok.mp done
      obtain ⟨⟨left, middle⟩, emitted, done⟩ := bind_eq_ok.mp done
      refine (FmtBuffer.emitPolled_kept emitted).trans ?_
      exact proceed_kept (fun _ _ => ih) done

theorem nextPolled_part {part : PolledPart} {rest : List PolledPart} {piece : PolledPiece}
    (pointers : p.drop curArg = pointersOf (part :: rest))
    (read : engine.shown part = .read piece) :
    ∃ c f following, part.spelled = c :: f ∧ p.drop following = pointersOf rest ∧ ∀ behind,
          engine.nextPolled p c (f ++ behind) curArg = .ok (piece, behind, following) := by
  cases part with
  | literal c plain =>
    cases read
    exact ⟨c, [], curArg, rfl, pointers, nextPolled_literal plain.2⟩
  | percent =>
    cases read
    exact ⟨37, [37], curArg, rfl, pointers, nextPolled_percent⟩
  | conversion listed pointer =>
    have stored : p.drop curArg = pointer :: pointersOf rest := pointers
    have found : p[curArg]? = some pointer := by
      rw [← List.head?_drop, stored]
      rfl
    refine ⟨37, ascii listed.specifier, curArg + 1, rfl, ?_, nextPolled_read found read⟩
    rw [← List.drop_drop, stored]
    rfl

theorem processLoop_holds_iff (library : engine.PrintsNumbers) (parts : List PolledPart)
    {fuel : Nat} (fuelled : (formatOf parts).length ≤ fuel)
    (pointers : p.drop curArg = pointersOf parts) (filled : buffer.Filled pEnd output)
    (within : output.length ≤ pEnd) :
    Holds pEnd (output ++ engine.polledText parts)
        (engine.processLoop p pEnd fuel (formatOf parts) curArg buffer) ↔
      RightFrom pEnd output.length (parts.map engine.shown) := by
  induction parts generalizing fuel curArg buffer output with
  | nil =>
    obtain ⟨after, ended, index, length, held⟩ := FmtBuffer.out_terminates filled.length
    rw [filled.index, Nat.min_eq_left within, filled.content] at held
    refine iff_of_true ⟨after, ?_, ?_, length, ?_⟩ trivial
    · cases fuel <;> exact ended
    · rw [index, filled.index]
      simp [polledText, shownText]
    · simpa [polledText, shownText, List.take_of_length_le within] using held
  | cons part rest ih =>
    have keeps (fuel curArg : Nat) (before after : FmtBuffer)
        (done : engine.processLoop p pEnd fuel (formatOf rest) curArg before = .ok after) :
        FmtBuffer.Kept pEnd before after :=
      processLoop_kept done
    have proper := shown_proper library part
    rw [List.map_cons]
    cases form : engine.shown part with
    | read piece =>
      obtain ⟨c, f, following, spelled, remaining, next⟩ := nextPolled_part pointers form
      have format : formatOf (part :: rest) = c :: (f ++ formatOf rest) := by
        rw [formatOf, List.flatMap_cons, spelled]
        rfl
      have text : engine.polledText (part :: rest) = piece.text ++ engine.polledText rest := by
        rw [polledText, List.map_cons, shownText_cons, form]
        rfl
      rw [format, List.length_cons, List.length_append] at fuelled
      obtain ⟨fuel, rfl⟩ : ∃ turns, fuel = turns + 1 := ⟨fuel - 1, by omega⟩
      rw [format, processLoop_next (next _), text]
      refine holds_read (keeps fuel following) (form ▸ proper) filled within
        (List.append_assoc ..).symm fun after done reached => ?_
      have enough : (formatOf rest).length ≤ fuel := by omega
      have later := ih enough remaining done (by rw [List.length_append]; exact reached)
      rwa [List.append_assoc, List.length_append] at later
    | unread letter number =>
      have text : engine.polledText (part :: rest) = number ++ engine.polledText rest := by
        rw [polledText, List.map_cons, shownText_cons, form]
        rfl
      obtain ⟨listed, pointer, rfl⟩ : ∃ listed pointer, part = .conversion listed pointer := by
        cases part with
        | literal c plain | percent => cases form
        | conversion listed pointer => exact ⟨listed, pointer, rfl⟩
      have spelled : 0 < (ascii listed.specifier).length := by cases listed <;> decide
      have format : formatOf (.conversion listed pointer :: rest) =
            37 :: (ascii listed.specifier ++ formatOf rest) :=
        rfl
      rw [format, List.length_cons, List.length_append] at fuelled
      obtain ⟨fuel, rfl⟩ : ∃ turns, fuel = turns + 1 + 1 := ⟨fuel - 2, by omega⟩
      rw [form] at proper
      rw [format, processLoop_next (nextPolled_unread form _), FmtBuffer.emit_nothing filled.length
          (by rw [filled.index]; exact within), ok_bind]
      have letterNext :=
        @processLoop_next pEnd engine p curArg letter (formatOf rest)
          (formatOf rest) (.piece (.literal letter)) curArg
          (nextPolled_literal proper.1 _) fuel buffer
      rw [proceed, if_neg Bool.false_ne_true, letterNext, text]
      exact holds_unread (keeps fuel curArg) proper filled within (List.append_assoc ..).symm

/--
The arguments of a format are in step exactly when there are fewer conversions
than pointers can be stored for, and every part is right where it is put out.
-/
theorem inStep_iff (library : engine.PrintsNumbers) (parts : List PolledPart) {dst : List UInt8}
    (room : 1 ≤ dst.length) :
    engine.InStep parts dst ↔ (pointersOf parts).length < pointersMax ∧
        RightFrom (dst.length - 1) 0 (parts.map engine.shown) := by
  have stored : printfP (formatOf parts) (pointersOf parts) =
        if (pointersOf parts).length < pointersMax then
          .ok { s := formatOf parts, p := pointersOf parts }
        else
          .error .fatal := by
    rw [printfP, printfPLoop_parts, List.length_nil, Nat.zero_add, List.nil_append]
    by_cases few : (pointersOf parts).length < pointersMax
    · rw [if_pos (.inr few), if_pos few]
      rfl
    · have some : (pointersOf parts).length ≠ 0 := by
        rw [pointersMax] at few
        omega
      rw [if_neg (by rw [not_or]; exact ⟨some, few⟩), if_neg few]
      rfl
  have inside : 0 + [(0 : UInt8)].length ≤ dst.length := room
  have filled : FmtBuffer.Filled ⟨splice dst 0 [0], 0⟩ (dst.length - 1) [] := by
    refine ⟨?_, rfl, rfl⟩
    change (splice dst 0 [0]).length = _
    rw [length_splice inside]
    omega
  have run :=
    processLoop_holds_iff (p := pointersOf parts) library parts
      (Nat.le_refl _) (List.drop_zero ..) filled (Nat.zero_le _)
  rw [List.nil_append, List.length_nil] at run
  rw [← run]
  have start : FmtBuffer.put ⟨dst, 0⟩ 0 [0] = .ok ⟨splice dst 0 [0], 0⟩ := FmtBuffer.put_eq inside
  have processed : engine.processFmtString
          { s := formatOf parts, p := pointersOf parts } dst =
        (do
          let buffer ← engine.processLoop (pointersOf parts) (dst.length - 1)
              (formatOf parts).length (formatOf parts) 0 ⟨splice dst 0 [0], 0⟩
          return (buffer.pDst, buffer.dst)) := by
    rw [processFmtString, if_neg (Nat.not_lt.mpr room), start]
    rfl
  constructor
  · rintro ⟨fs, after, printed, result, length, held⟩
    rw [stored] at printed
    split at printed
    case isFalse => cases printed
    case isTrue few =>
      cases printed
      rw [processed] at result
      obtain ⟨done, ended, same⟩ := bind_eq_ok.mp result
      obtain ⟨index, rfl⟩ := Prod.mk.inj (Except.ok.inj same)
      exact ⟨few, done, ended, index, by omega, held⟩
  · rintro ⟨few, done, ended, index, length, held⟩
    refine ⟨_, done.dst, by rw [stored, if_pos few], ?_, by omega, held⟩
    rw [processed, ended, ← index]
    rfl

def sampleEngine : PolledEngine where
  snprintf _ _ := ascii "7"
  memory :=
    { char := fun _ => 7
      int := fun _ => 7
      long := fun _ => 7
      float := fun _ => 0
      double := fun _ => 0
      longDouble := fun _ => Vector.replicate 10 0
      uint8 := fun _ => 7
      uint16 := fun _ => 7
      string := fun pointer =>
        if pointer = 1 then ⟨[7], by decide⟩ else ⟨ascii "hp", by decide⟩
      name := fun _ => ⟨ascii "hp", by decide⟩
      className := fun _ => ⟨ascii "hp", by decide⟩ }
  registered := []

theorem inStep_iff_string : sampleEngine.InStep
      [.conversion .s 3, .literal 58 (by decide), .conversion .u64 1]
      (List.replicate 16 0) := by
  have library : sampleEngine.PrintsNumbers := fun _ _ _ _ _ =>
    (by decide : 0 ∉ ascii "7" ∧ (ascii "7").length ≤ FmtPiece.intMax)
  refine (inStep_iff library _ (by decide)).mpr ⟨by decide, ?_⟩
  simp [RightFrom, shown, shownValue, sampleEngine, Shown.text,
    PolledPiece.text, FmtPiece.text, ascii, Shown.Read, FmtPiece.Defined,
    FmtPiece.intMax]

theorem long_shifts_pointers : ¬ sampleEngine.InStep
      [.conversion .ld 1, .literal 44 (by decide), .conversion .s 2]
      (List.replicate 16 0) := by
  rintro ⟨fs, after, printed, processed, _⟩
  have pointers : printfP (formatOf [.conversion .ld 1, .literal 44 (by decide), .conversion .s 2])
          (pointersOf [.conversion .ld 1, .literal 44 (by decide), .conversion .s 2]) =
        .ok { s := ascii "%ld,%s", p := [1, 2] } :=
    rfl
  have made : sampleEngine.processFmtString
          { s := ascii "%ld,%s", p := [1, 2] } (List.replicate 16 0) =
        .ok (3, 100 :: 44 :: 7 :: List.replicate 13 0) :=
    rfl
  rw [pointers] at printed
  cases printed
  -- three characters instead of the four of "7,hp"
  rw [made] at processed
  cases processed

end PolledEngine

end Agar.Core
