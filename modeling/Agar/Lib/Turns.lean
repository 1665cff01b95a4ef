import Mathlib

namespace Agar.Lib

/-!
# Loops that may go on forever

One turn of a loop either goes on with another state or ends it with a result.
The turns are numbered, so that what the outside world does can differ from
turn to turn.  A loop ends when some number of turns ends it, and it does so
with one result only.
-/

/-- Where a loop stands after some turns. -/
inductive Progress (σ ρ : Type) where
  | running (state : σ)
  | ended (result : ρ)
  deriving DecidableEq

namespace Progress

variable {σ ρ : Type}

/-- The next turn of a loop, unless it has ended. -/
def next (turn : σ → Progress σ ρ) : Progress σ ρ → Progress σ ρ
  | running state => turn state
  | ended result => ended result

/-- Change what a loop stands in, or what it has ended with. -/
def map {τ υ : Type} (state : σ → τ) (outcome : ρ → υ) : Progress σ ρ → Progress τ υ
  | running start => running (state start)
  | ended result => ended (outcome result)

@[simp] theorem map_running {τ υ : Type} (state : σ → τ) (outcome : ρ → υ) (start : σ) :
    (running start).map state outcome = running (state start) :=
  rfl

@[simp] theorem map_ended {τ υ : Type} (state : σ → τ) (outcome : ρ → υ) (result : ρ) :
    (ended result : Progress σ ρ).map state outcome = ended (outcome result) :=
  rfl

@[simp] theorem next_running (turn : σ → Progress σ ρ) (state : σ) :
    (running state).next turn = turn state :=
  rfl

@[simp] theorem next_ended (turn : σ → Progress σ ρ) (result : ρ) :
    (ended result).next turn = ended result :=
  rfl

end Progress

section Loop

variable {σ ρ : Type} (turn : Nat → σ → Progress σ ρ) (start : σ)

/-- A loop after a number of turns. -/
def afterTurns : Nat → Progress σ ρ
  | 0 => .running start
  | count + 1 => (afterTurns count).next (turn count)

/-- A loop ends with a result. -/
def EndsWith (result : ρ) : Prop := ∃ count, afterTurns turn start count = .ended result

variable {turn start}

@[simp] theorem afterTurns_zero : afterTurns turn start 0 = .running start := rfl

@[simp] theorem afterTurns_succ (count : Nat) : afterTurns turn start (count + 1) =
      (afterTurns turn start count).next (turn count) :=
  rfl

theorem afterTurns_of_ended {count later : Nat} {result : ρ}
    (ended : afterTurns turn start count = .ended result) (after : count ≤ later) :
    afterTurns turn start later = .ended result := by
  induction later, after using Nat.le_induction with
  | base => exact ended
  | succ later _ ih => simp [ih]

theorem EndsWith.unique {first second : ρ} (early : EndsWith turn start first)
    (late : EndsWith turn start second) : first = second := by
  obtain ⟨count, ended⟩ := early
  obtain ⟨other, endedToo⟩ := late
  have here := afterTurns_of_ended ended (Nat.le_max_left count other)
  rw [afterTurns_of_ended endedToo (Nat.le_max_right count other)] at here
  simpa using here.symm

theorem running_induction {kept : Nat → σ → Prop} (initially : kept 0 start)
    (step : ∀ count state after, kept count state → turn count state = .running after →
        kept (count + 1) after) :
    ∀ {count state}, afterTurns turn start count = .running state → kept count state := by
  intro count
  induction count with
  | zero =>
    intro state reached
    cases reached
    exact initially
  | succ count ih =>
    intro state reached
    cases before : afterTurns turn start count with
    | running earlier =>
      simp only [afterTurns_succ, before, Progress.next_running] at reached
      exact step count earlier state (ih before) reached
    | ended result => simp [before] at reached

theorem EndsWith.last {result : ρ} (ends : EndsWith turn start result) : ∃ count state,
      afterTurns turn start count = .running state ∧ turn count state = .ended result := by
  obtain ⟨count, ended⟩ := ends
  induction count with
  | zero => simp at ended
  | succ count ih =>
    cases before : afterTurns turn start count with
    | running state =>
      simp only [afterTurns_succ, before, Progress.next_running] at ended
      exact ⟨count, state, before, ended⟩
    | ended earlier =>
      simp only [afterTurns_succ, before, Progress.next_ended] at ended
      exact ih (by rw [before, ended])

theorem endsWith_of_turn {count : Nat} {state : σ} {result : ρ}
    (reached : afterTurns turn start count = .running state)
    (last : turn count state = .ended result) : EndsWith turn start result :=
  ⟨count + 1, by simp [reached, last]⟩

end Loop

/-! ## Loops whose turns do not depend on their number -/

section Constant

variable {σ ρ : Type} {turn : σ → Progress σ ρ}

theorem afterTurns_first {start next : σ} (first : turn start = .running next) (count : Nat) :
    afterTurns (fun _ => turn) start (count + 1) = afterTurns (fun _ => turn) next count := by
  induction count with
  | zero => simp [first]
  | succ count ih => rw [afterTurns_succ, ih, afterTurns_succ]

theorem endsWith_first {start next : σ} (first : turn start = .running next) (result : ρ) :
    EndsWith (fun _ => turn) start result ↔ EndsWith (fun _ => turn) next result := by
  constructor
  · rintro ⟨count, ended⟩
    cases count with
    | zero => simp at ended
    | succ count => exact ⟨count, by rwa [afterTurns_first first] at ended⟩
  · rintro ⟨count, ended⟩
    exact ⟨count + 1, by rw [afterTurns_first first, ended]⟩

theorem endsWith_at_once {start : σ} {early : ρ} (first : turn start = .ended early) (result : ρ) :
    EndsWith (fun _ => turn) start result ↔ result = early := by
  have ends : EndsWith (fun _ => turn) start early := ⟨1, by simp [first]⟩
  constructor
  · exact fun other => other.unique ends
  · rintro rfl
    exact ends

theorem EndsWith.map {state : σ → σ} {outcome : ρ → ρ}
    (commutes : ∀ start, turn (state start) = (turn start).map state outcome) {start : σ}
    {result : ρ} (ended : EndsWith (fun _ => turn) start result) :
    EndsWith (fun _ => turn) (state start) (outcome result) := by
  obtain ⟨count, ended⟩ := ended
  refine ⟨count, ?_⟩
  have mapped : ∀ count, afterTurns (fun _ => turn) (state start) count =
        (afterTurns (fun _ => turn) start count).map state outcome := by
    intro count
    induction count with
    | zero => rfl
    | succ count ih =>
      rw [afterTurns_succ, afterTurns_succ, ih]
      cases afterTurns (fun _ => turn) start count with
      | running here => exact commutes here
      | ended result => rfl
  rw [mapped, ended, Progress.map_ended]

end Constant

end Agar.Lib
