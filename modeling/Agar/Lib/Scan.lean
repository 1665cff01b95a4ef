import Mathlib.Data.Nat.Basic

namespace Agar.Lib

/-!
# Ends of a run

Positions of a text at which a run ends are given by a predicate, such as to
hold a separator.  A scan from a position to either side finds the start or the
end of the run that the position is in.
-/

section

variable {bound : Nat → Prop} {length pos start stop : Nat}

/-- The run before `pos` starts at `start`, behind a bound or at 0. -/
structure RunStart (bound : Nat → Prop) (pos start : Nat) : Prop where
  le : start ≤ pos
  clear : ∀ i, start ≤ i → i < pos → ¬ bound i
  edge : start = 0 ∨ bound (start - 1)

/-- The run from `pos` on ends at `stop`, at a bound or with the text. -/
structure RunEnd (bound : Nat → Prop) (length pos stop : Nat) : Prop where
  ge : pos ≤ stop
  inside : stop ≤ length
  clear : ∀ i, pos ≤ i → i < stop → ¬ bound i
  edge : stop = length ∨ bound stop

theorem RunStart.zero : RunStart bound 0 0 where
  le := Nat.le_refl 0
  clear _ _ below := absurd below (Nat.not_lt_zero _)
  edge := .inl rfl

theorem RunStart.behind (here : bound pos) : RunStart bound (pos + 1) (pos + 1) where
  le := Nat.le_refl _
  clear _ first below := absurd below (Nat.not_lt_of_le first)
  edge := .inr here

theorem RunStart.further (here : ¬ bound pos) (run : RunStart bound pos start) :
    RunStart bound (pos + 1) start where
  le := Nat.le_succ_of_le run.le
  clear i first below := by
    rcases Nat.lt_succ_iff_lt_or_eq.mp below with before | rfl
    · exact run.clear i first before
    · exact here
  edge := run.edge

theorem RunStart.eq_iff (run : RunStart bound (pos + 1) start) : start = pos + 1 ↔ bound pos := by
  constructor
  · intro empty
    rcases run.edge with zero | last
    · omega
    · rwa [empty] at last
  · intro here
    have le := run.le
    by_contra before
    exact run.clear pos (by omega) (by omega) here

theorem RunEnd.atEnd : RunEnd bound length length length where
  ge := Nat.le_refl _
  inside := Nat.le_refl _
  clear _ first below := absurd below (Nat.not_lt_of_le first)
  edge := .inl rfl

theorem RunEnd.here (inside : pos ≤ length) (here : bound pos) : RunEnd bound length pos pos where
  ge := Nat.le_refl _
  inside := inside
  clear _ first below := absurd below (Nat.not_lt_of_le first)
  edge := .inr here

theorem RunEnd.further (here : ¬ bound pos) (run : RunEnd bound length (pos + 1) stop) :
    RunEnd bound length pos stop where
  ge := Nat.le_of_succ_le run.ge
  inside := run.inside
  clear i first below := by
    rcases Nat.eq_or_lt_of_le first with rfl | behind
    · exact here
    · exact run.clear i behind below
  edge := run.edge

theorem RunEnd.eq_iff (run : RunEnd bound length pos stop) :
    stop = pos ↔ pos = length ∨ bound pos := by
  constructor
  · intro empty
    rw [← empty]
    exact run.edge
  · intro atEnd
    have ge := run.ge
    have inside := run.inside
    by_contra behind
    rcases atEnd with last | here
    · omega
    · exact run.clear pos (Nat.le_refl _) (by omega) here

end

end Agar.Lib
