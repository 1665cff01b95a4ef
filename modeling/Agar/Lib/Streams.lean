import Agar.Lib.Outcome

namespace Agar.Lib

/-!
# Programs that move over a stream

A program that reads or writes a stream is a state transformer that may fail.
How a state sees the stream is a relation: `Ahead state bytes` says what is
still to be read.  A reader is described by what it does with one record and any
bytes behind it (`Yields`).
-/

variable {σ ε α γ : Type}

/-- A program takes a record off the stream and gives a value. -/
def Yields (Ahead : σ → List γ → Prop) (program : StateT σ (Except ε) α) (record : List γ)
    (value : α) : Prop :=
  ∀ state rest, Ahead state (record ++ rest) →
      ∃ after, program state = .ok (value, after) ∧ Ahead after rest

end Agar.Lib
