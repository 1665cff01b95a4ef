import Agar.Core.PrintfCapacity

namespace Agar.Core

open Agar.Lib

/-!
# What formatting leaves alone

Nothing that is in front of `pDst` is changed by what is put out next, but for
the terminator at the end of the buffer.  A string or a number that reaches
this end stores its own terminator in front of it.
-/

/-- A piece that `Strlcpy`, `Snprintf` or the functions for numbers write -/
def FmtPiece.StoresTerminator (piece : FmtPiece) : Prop :=
  (∃ s, piece = .copied s ∨ piece = .native s) ∨ piece.IsNumber

namespace FmtBuffer

/-- The bytes in front of `pDst` stay, and `pDst` does not go back. -/
structure Kept (pEnd : Nat) (before after : FmtBuffer) : Prop where
  length : after.dst.length = before.dst.length
  index : before.pDst ≤ after.pDst
  bytes : ∀ place < before.pDst, place < pEnd → after.dst[place]? = before.dst[place]?

variable {buffer after : FmtBuffer} {pEnd : Nat}

theorem Kept.refl (buffer : FmtBuffer) : Kept pEnd buffer buffer :=
  ⟨rfl, Nat.le_refl _, fun _ _ _ => rfl⟩

theorem Kept.trans {middle : FmtBuffer} (first : Kept pEnd buffer middle)
    (second : Kept pEnd middle after) : Kept pEnd buffer after where
  length := second.length.trans first.length
  index := first.index.trans second.index
  bytes place front inside := by
    rw [second.bytes place (front.trans_le first.index) inside, first.bytes place front inside]

theorem put_eq_ok {index : Nat} {bytes : List UInt8} : buffer.put index bytes = .ok after ↔
      index + bytes.length ≤ buffer.dst.length ∧
        { buffer with dst := splice buffer.dst index bytes } = after := by
  rw [put, bind_eq_ok]
  constructor
  · rintro ⟨dst, written, stored⟩
    obtain ⟨⟨_, inside⟩, rfl⟩ := memWrite_eq_ok.mp written
    exact ⟨by omega, Except.ok.inj stored⟩
  · rintro ⟨inside, rfl⟩
    exact ⟨_, memWrite_inside inside, rfl⟩

theorem put_kept {index : Nat} {bytes : List UInt8} (stored : buffer.put index bytes = .ok after)
    (behind : buffer.pDst ≤ index ∨ pEnd ≤ index) : Kept pEnd buffer after := by
  obtain ⟨inside, rfl⟩ := put_eq_ok.mp stored
  refine ⟨length_splice inside, Nat.le_refl _, fun place front before => ?_⟩
  rw [getElem?_splice inside, if_neg (by omega)]

variable {left : Bool}

theorem truncate_kept (truncated : buffer.truncate pEnd = .ok (left, after)) :
    Kept pEnd buffer after := by
  rw [truncate, bind_eq_ok] at truncated
  obtain ⟨cut, stored, ends⟩ := truncated
  cases ends
  exact put_kept stored (.inr (Nat.le_refl _))

variable {rv : Nat}

theorem advance_kept (advanced : buffer.advance pEnd rv = .ok (left, after)) :
    Kept pEnd buffer after := by
  have further : Kept pEnd buffer { buffer with pDst := buffer.pDst + rv } :=
    ⟨rfl, Nat.le_add_right _ _, fun _ _ _ => rfl⟩
  rw [advance] at advanced
  dsimp only at advanced
  split at advanced
  · exact further.trans (truncate_kept advanced)
  · cases advanced
    exact further

variable {s : List UInt8}

theorem copyTerminated_kept (copied : buffer.copyTerminated pEnd s = .ok after) :
    Kept pEnd buffer after := by
  rw [copyTerminated] at copied
  split at copied
  · cases copied
    exact .refl _
  · exact put_kept copied (.inl (Nat.le_refl _))

theorem putReversed_kept (stored : buffer.putReversed pEnd s = .ok (rv, after)) :
    Kept pEnd buffer after := by
  rw [putReversed] at stored
  split at stored
  · cases stored
    exact .refl _
  · split at stored
    all_goals
      obtain ⟨number, put, same⟩ := bind_eq_ok.mp stored
      cases same
      exact put_kept put (.inl (Nat.le_refl _))

theorem emit_kept {piece : FmtPiece} (emitted : buffer.emit pEnd piece = .ok (left, after)) :
    Kept pEnd buffer after := by
  cases piece with
  | literal c =>
    obtain ⟨stored, put, rest⟩ := bind_eq_ok.mp emitted
    have further : Kept pEnd stored { stored with pDst := stored.pDst + 1 } :=
      ⟨rfl, Nat.le_succ _, fun _ _ _ => rfl⟩
    have kept := (put_kept put (.inl (Nat.le_refl _))).trans further
    dsimp only at rest
    split at rest
    · exact kept.trans (truncate_kept rest)
    · cases rest
      exact kept
  | char c =>
    rw [emit] at emitted
    split at emitted
    · exact truncate_kept emitted
    · obtain ⟨stored, put, rest⟩ := bind_eq_ok.mp emitted
      exact (put_kept put (.inl (Nat.le_refl _))).trans (advance_kept rest)
  | copied s =>
    obtain ⟨stored, copied, rest⟩ := bind_eq_ok.mp emitted
    exact (copyTerminated_kept copied).trans (advance_kept rest)
  | native s =>
    rw [emit] at emitted
    split at emitted
    · cases emitted
    · obtain ⟨stored, copied, rest⟩ := bind_eq_ok.mp emitted
      exact (copyTerminated_kept copied).trans (advance_kept rest)
  | int value =>
    rw [emit] at emitted
    split at emitted
    · cases emitted
    · obtain ⟨⟨rv, stored⟩, put, rest⟩ := bind_eq_ok.mp emitted
      exact (putReversed_kept put).trans (advance_kept rest)
  | uint value =>
    obtain ⟨⟨rv, stored⟩, put, rest⟩ := bind_eq_ok.mp emitted
    exact (putReversed_kept put).trans (advance_kept rest)
  | raw s =>
    obtain ⟨stored, put, rest⟩ := bind_eq_ok.mp emitted
    exact (put_kept put (.inl (Nat.le_refl _))).trans (advance_kept rest)

theorem out_kept (ended : buffer.out pEnd = .ok after) : Kept pEnd buffer after := by
  rw [out] at ended
  split at ended
  · exact put_kept ended (.inl (Nat.le_refl _))
  · exact put_kept ended (.inr (Nat.le_refl _))

/-! ## The end of the buffer -/

theorem out_terminates (length : buffer.dst.length = pEnd + 1) : ∃ after,
      buffer.out pEnd = .ok after ∧ after.pDst = buffer.pDst ∧ after.dst.length = pEnd + 1 ∧
        buffer.dst.take (min buffer.pDst pEnd) ++ [0] <+: after.dst := by
  obtain ⟨dst, ended, sameLength, content⟩ := out_eq length
  refine ⟨_, ended, rfl, sameLength, ?_⟩
  rw [← content]
  exact List.take_prefix _ _

theorem copyTerminated_spoils (inside : buffer.pDst < pEnd)
    (reaches : pEnd ≤ buffer.pDst + s.length) (copied : buffer.copyTerminated pEnd s = .ok after) :
    after.pDst = buffer.pDst ∧ after.dst[pEnd - 1]? = some 0 := by
  rw [copyTerminated, if_neg (by omega)] at copied
  obtain ⟨room, rfl⟩ := put_eq_ok.mp copied
  have width : (s.take (pEnd - buffer.pDst - 1)).length = pEnd - 1 - buffer.pDst := by
    rw [List.length_take]
    omega
  rw [List.length_append, List.length_singleton, width] at room
  refine ⟨rfl, ?_⟩
  dsimp only
  rw [getElem?_splice (by
      rw [List.length_append, List.length_singleton, width]
      exact room),
    if_pos (by
      rw [List.length_append, List.length_singleton, width]
      omega),
    ← width, List.getElem?_concat_length]

theorem putReversed_spoils (inside : buffer.pDst < pEnd) (reaches : pEnd ≤ buffer.pDst + s.length)
    (stored : buffer.putReversed pEnd s = .ok (rv, after)) :
    after.pDst = buffer.pDst ∧ rv = pEnd - buffer.pDst + 1 ∧ after.dst[pEnd - 1]? = some 0 := by
  rw [putReversed, if_neg (by omega), if_pos (by omega)] at stored
  obtain ⟨number, put, same⟩ := bind_eq_ok.mp stored
  obtain ⟨room, rfl⟩ := put_eq_ok.mp put
  cases same
  have width : (s.take (pEnd - buffer.pDst - 1)).reverse.length = pEnd - 1 - buffer.pDst := by
    rw [List.length_reverse, List.length_take]
    omega
  rw [List.length_append, List.length_singleton, width] at room
  refine ⟨rfl, rfl, ?_⟩
  dsimp only
  rw [getElem?_splice (by
      rw [List.length_append, List.length_singleton, width]
      exact room),
    if_pos (by
      rw [List.length_append, List.length_singleton, width]
      omega),
    ← width, List.getElem?_concat_length]

theorem emit_spoils {piece : FmtPiece} (terminated : piece.StoresTerminator)
    (inside : buffer.pDst < pEnd) (reaches : pEnd ≤ buffer.pDst + piece.text.length)
    (emitted : buffer.emit pEnd piece = .ok (left, after)) :
    pEnd ≤ after.pDst ∧ after.dst[pEnd - 1]? = some 0 := by
  have advances {stored : FmtBuffer} {rv : Nat} (same : stored.pDst = buffer.pDst)
      (far : pEnd ≤ buffer.pDst + rv)
      (byte : stored.dst[pEnd - 1]? = some 0)
      (advanced : stored.advance pEnd rv = .ok (left, after)) :
      pEnd ≤ after.pDst ∧ after.dst[pEnd - 1]? = some 0 := by
    have further : Kept pEnd { stored with pDst := stored.pDst + rv } after := by
      rw [advance] at advanced
      dsimp only at advanced
      split at advanced
      · exact truncate_kept advanced
      · cases advanced
        exact .refl _
    have index : stored.pDst + rv ≤ after.pDst := further.index
    refine ⟨by omega, ?_⟩
    rw [further.bytes (pEnd - 1) (by dsimp only; omega) (by omega)]
    exact byte
  obtain ⟨s, rfl | rfl⟩ | ⟨value, rfl⟩ | ⟨value, rfl⟩ := terminated
  · obtain ⟨stored, copied, rest⟩ := bind_eq_ok.mp emitted
    obtain ⟨same, byte⟩ := copyTerminated_spoils inside reaches copied
    exact advances same reaches byte rest
  · rw [emit] at emitted
    split at emitted
    · cases emitted
    · obtain ⟨stored, copied, rest⟩ := bind_eq_ok.mp emitted
      obtain ⟨same, byte⟩ := copyTerminated_spoils inside reaches copied
      exact advances same reaches byte rest
  · rw [FmtPiece.text, List.length_reverse] at reaches
    rw [emit] at emitted
    split at emitted
    · cases emitted
    · obtain ⟨⟨rv, stored⟩, put, rest⟩ := bind_eq_ok.mp emitted
      obtain ⟨same, rfl, byte⟩ := putReversed_spoils inside reaches put
      exact advances same (by omega) byte rest
  · rw [FmtPiece.text, List.length_reverse] at reaches
    obtain ⟨⟨rv, stored⟩, put, rest⟩ := bind_eq_ok.mp emitted
    obtain ⟨same, rfl, byte⟩ := putReversed_spoils inside reaches put
    exact advances same (by omega) byte rest

end FmtBuffer

end Agar.Core
