import Agar.Core.PrintfComplete

namespace Agar.Core

open Agar.Lib

/-!
# `AG_Printf` and `AG_PrintfN`

The buffers that the loop at `restart:` tries, and the string that it returns.
-/

namespace FmtEngine

open FmtPiece FmtBuffer

/-! ## The loop at `restart:` -/

section Restart

variable {engine : FmtEngine} {allocation : Allocation} {fmt : List UInt8} {ap : List FmtArg}
  {pieces : List FmtPiece}

/-- What follows `AG_DoPrintf` at `restart:` -/
def regrow (engine : FmtEngine) (allocation : Allocation) (fmt : List UInt8) (ap : List FmtArg)
    (fuel : Nat) (after : FmtBuffer) : Except Stop (List UInt8) :=
  if after.pDst ≥ after.dst.length then
    match tryRealloc allocation after.dst (after.pDst + bufferGrow) with
    | none => .error .fatal
    | some dstNew => engine.restart allocation fmt ap fuel dstNew
  else .ok after.dst

theorem restart_eq {dst : List UInt8} {pEnd : Nat}
    (readable : engine.pieces fmt.length fmt ap = .ok pieces) (length : dst.length = pEnd + 1) :
    ∃ buffer : FmtBuffer, buffer.Filled pEnd [] ∧ ∀ fuel,
          engine.restart allocation fmt ap (fuel + 1) dst = emitAll pEnd pieces buffer >>=
              engine.regrow allocation fmt ap fuel := by
  have room {memory : List UInt8} (same : memory.length = pEnd + 1) :
      0 + [(0 : UInt8)].length ≤ memory.length := by
    rw [List.length_singleton, same]
    omega
  have stays := length_splice (room length)
  rw [length] at stays
  refine ⟨⟨splice (splice dst 0 [0]) 0 [0], 0⟩, ⟨?_, rfl, rfl⟩, fun fuel => ?_⟩
  · rw [length_splice (room stays), stays]
  · have first : memWrite dst 0 [0] = .ok (splice dst 0 [0]) :=
      @memWrite_inside dst [0] 0 (room length)
    rw [restart, first, ok_bind, doPrintf, if_neg (by omega),
      @put_eq ⟨splice dst 0 [0], 0⟩ 0 [0] (room stays), ok_bind, stays,
      Nat.add_sub_cancel, formatLoop_eq _ readable]
    rcases emitAll pEnd pieces ⟨splice (splice dst 0 [0]) 0 [0], 0⟩ with
      _ | after <;> rfl

theorem regrow_within {after : FmtBuffer} {pEnd : Nat} (length : after.dst.length = pEnd + 1)
    (within : after.pDst ≤ pEnd) (fuel : Nat) :
    engine.regrow allocation fmt ap fuel after = .ok after.dst := by
  rw [regrow, if_neg (by omega)]

theorem regrow_short {after : FmtBuffer} {pEnd fuel : Nat} {result : List UInt8}
    (length : after.dst.length = pEnd + 1) (short : pEnd < after.pDst) :
    engine.regrow allocation fmt ap fuel after = .ok result ↔ ∃ dst,
        tryRealloc allocation after.dst (after.pDst + bufferGrow) = some dst ∧
          engine.restart allocation fmt ap fuel dst = .ok result := by
  rw [regrow, if_pos (by omega)]
  rcases tryRealloc allocation after.dst (after.pDst + bufferGrow) with
    _ | dst <;> simp

/-- A buffer with a last index comes to hold the whole output. -/
def Restarts (engine : FmtEngine) (allocation : Allocation) (fmt : List UInt8) (ap : List FmtArg)
    (text : List UInt8) (fuel pEnd : Nat) (dst : List UInt8) : Prop :=
  dst.length = pEnd + 1 ∧ ∃ result, engine.restart allocation fmt ap fuel dst = .ok result ∧
        Complete text result

theorem length_of_tryRealloc {data memory : List UInt8} {length : Nat}
    (grown : tryRealloc allocation data (length + bufferGrow) = some memory) :
    memory.length = length + bufferGrow - 1 + 1 := by
  obtain ⟨-, rfl⟩ := tryRealloc_eq_some.mp grown
  rw [length_resize, bufferGrow]
  omega

variable {dst : List UInt8}

theorem Restarts.safe {fuel pEnd : Nat} (readable : engine.pieces fmt.length fmt ap = .ok pieces)
    (defined : ∀ piece ∈ pieces, piece.Defined) (inside : 0 < pEnd)
    (restarts : Restarts engine allocation fmt ap (textOf pieces) fuel pEnd dst) :
    SafeFrom pEnd 0 pieces ∧ ∀ length, beyond pEnd 0 pieces = some length → ∃ fuel dst,
          Restarts engine allocation fmt ap (textOf pieces) fuel (length + bufferGrow - 1) dst := by
  obtain ⟨dstLength, result, returned, complete⟩ := restarts
  cases fuel with
  | zero => cases returned
  | succ fuel =>
    obtain ⟨buffer, filled, same⟩ :=
      @restart_eq engine allocation fmt ap pieces dst pEnd readable dstLength
    obtain ⟨after, done, length, whole, lost⟩ := filled.emitAll inside defined
    rw [same, done, ok_bind] at returned
    by_cases within : after.pDst ≤ pEnd
    · rw [regrow_within length within] at returned
      obtain rfl := Except.ok.inj returned
      have safe : SafeFrom pEnd 0 pieces := not_not.mp fun notSafe => (lost notSafe).2 complete
      refine ⟨safe, fun reported short => ?_⟩
      have there := whole safe
      rw [List.length_nil, short] at there
      have bounds := beyond_bounds short
      omega
    · have safe : SafeFrom pEnd 0 pieces :=
        not_not.mp fun notSafe => within (lost notSafe).1
      refine ⟨safe, fun reported short => ?_⟩
      have there := whole safe
      rw [List.length_nil, short] at there
      rw [regrow_short length (Nat.not_le.mp within)] at returned
      obtain ⟨grown, granted, returned⟩ := returned
      rw [there] at granted
      exact ⟨fuel, grown, length_of_tryRealloc granted, result, returned, complete⟩

theorem Restarts.defined {fuel pEnd : Nat}
    (readable : engine.pieces fmt.length fmt ap = .ok pieces)
    (restarts : Restarts engine allocation fmt ap (textOf pieces) fuel pEnd dst) :
    ∀ piece ∈ pieces, piece.Defined := by
  induction fuel generalizing pEnd dst with
  | zero =>
    obtain ⟨-, result, returned, -⟩ := restarts
    cases returned
  | succ fuel ih =>
    obtain ⟨dstLength, result, returned, complete⟩ := restarts
    obtain ⟨buffer, filled, same⟩ :=
      @restart_eq engine allocation fmt ap pieces dst pEnd readable dstLength
    rw [same] at returned
    obtain ⟨after, done, returned⟩ := bind_eq_ok.mp returned
    have length : after.dst.length = pEnd + 1 := (emitAll_length done).trans filled.length
    by_cases within : after.pDst ≤ pEnd
    · rw [regrow_within length within] at returned
      obtain rfl := Except.ok.inj returned
      have fits : (textOf pieces).length ≤ pEnd :=
        not_lt.mp fun long => not_complete_of_long (by omega) complete
      by_contra undefined
      push Not at undefined
      rw [filled.emitAll_undefined (by simpa using fits) undefined] at done
      cases done
    · rw [regrow_short length (Nat.not_le.mp within)] at returned
      obtain ⟨grown, granted, returned⟩ := returned
      exact ih ⟨length_of_tryRealloc granted, result, returned, complete⟩

end Restart

/-! ## The string that is returned -/

section Printf

variable {engine : FmtEngine} {allocation : Allocation} {fmt : List UInt8} {ap : List FmtArg}
  {pieces : List FmtPiece}

variable {buffers : PrintBuffers}

end Printf

def plain : FmtEngine where
  snprintf _ _ := []
  extensions := []

end FmtEngine

end Agar.Core
