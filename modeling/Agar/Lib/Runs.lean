import Mathlib

namespace Agar.Lib

/-!
# Runs of partial and lockstep machines

A partial machine takes a step only on the inputs it admits; a run is the fold
of its step over a list of inputs.  Two ways of speaking about whole runs are
provided: a state predicate that holds at every state a run passes through,
and a lockstep comparison of a concrete machine with an abstract one.

For both, the theorem of interest is an equivalence.  When one step from a
good state stays good exactly under a condition on that step, a run stays good
throughout exactly when each of its steps meets the condition.
-/

section Partial

variable {σ ι : Type} (step : σ → ι → Option σ)

/-- Take the steps of a list of inputs, in order. -/
def run : σ → List ι → Option σ
  | state, [] => some state
  | state, input :: rest => (step state input).bind fun next => run next rest

/-- A state predicate holds initially and after every step of the run. -/
def AlwaysAlong (good : σ → Prop) : σ → List ι → Prop
  | state, [] => good state
  | state, input :: rest =>
    good state ∧ ∀ next, step state input = some next → AlwaysAlong good next rest

/-- Every step of the run meets a condition on its state and its input. -/
def EachStep (condition : σ → ι → Prop) : σ → List ι → Prop
  | _, [] => True
  | state, input :: rest =>
    condition state input ∧ ∀ next, step state input = some next → EachStep condition next rest

variable {step}

@[simp] theorem run_nil (state : σ) : run step state [] = some state := rfl

theorem run_cons_some {state final : σ} {input : ι} {rest : List ι} :
    run step state (input :: rest) = some final ↔ ∃ next, step state input = some next ∧
        run step next rest = some final := by
  simp [run, Option.bind_eq_some_iff]

theorem EachStep.cons {condition : σ → ι → Prop} {state next : σ} {input : ι} {rest : List ι}
    (met : condition state input) (taken : step state input = some next)
    (later : EachStep step condition next rest) :
    EachStep step condition state (input :: rest) := by
  refine ⟨met, fun other otherTaken => ?_⟩
  rwa [← Option.some.inj (taken.symm.trans otherTaken)]

variable {inputs : List ι}

theorem AlwaysAlong.initially {good : σ → Prop} {state : σ}
    (along : AlwaysAlong step good state inputs) : good state := by
  cases inputs with
  | nil => exact along
  | cons input rest => exact along.1

variable {admitted condition : σ → ι → Prop}

theorem alwaysAlong_iff_eachStep (invariant : σ → Prop) {good : σ → Prop}
    (kept : ∀ state input next, invariant state → admitted state input →
        step state input = some next → invariant next)
    (exactStep : ∀ state input next, invariant state → good state → admitted state input →
        step state input = some next → (good next ↔ condition state input)) {state final : σ}
    (invariantInitially : invariant state) (goodInitially : good state)
    (admissible : EachStep step admitted state inputs)
    (completes : run step state inputs = some final) :
    AlwaysAlong step good state inputs ↔ EachStep step condition state inputs := by
  induction inputs generalizing state with
  | nil => exact ⟨fun _ => trivial, fun _ => goodInitially⟩
  | cons input rest ih =>
    obtain ⟨next, taken, later⟩ := run_cons_some.mp completes
    obtain ⟨inputAdmitted, restAdmissible⟩ := admissible
    have onlyNext {other : σ} (otherTaken : step state input = some other) : other = next :=
      Option.some.inj (otherTaken.symm.trans taken)
    have nextInvariant := kept state input next invariantInitially inputAdmitted taken
    have stepExact :=
      exactStep state input next invariantInitially goodInitially inputAdmitted taken
    constructor
    · rintro ⟨_, along⟩
      have goodNext : good next := (along next taken).initially
      refine ⟨stepExact.mp goodNext, fun other otherTaken => ?_⟩
      rw [onlyNext otherTaken]
      exact (ih nextInvariant goodNext (restAdmissible next taken) later).mp (along next taken)
    · rintro ⟨met, each⟩
      have goodNext : good next := stepExact.mpr met
      refine ⟨goodInitially, fun other otherTaken => ?_⟩
      rw [onlyNext otherTaken]
      exact (ih nextInvariant goodNext (restAdmissible next taken) later).mpr (each next taken)

/-- Every step of the run is defined, and a predicate holds throughout. -/
def RunsWell (step : σ → ι → Option σ) (good : σ → Prop) : σ → List ι → Prop
  | state, [] => good state
  | state, input :: rest =>
    good state ∧ ∃ next, step state input = some next ∧ RunsWell step good next rest

theorem RunsWell.initially {good : σ → Prop} {state : σ} (well : RunsWell step good state inputs) :
    good state := by
  cases inputs with
  | nil => exact well
  | cons input rest => exact well.1

theorem eachStep_true (state : σ) (inputs : List ι) :
    EachStep step (fun _ _ => True) state inputs := by
  induction inputs generalizing state with
  | nil => trivial
  | cons input rest ih => exact ⟨trivial, fun next _ => ih next⟩

theorem EachStep.and {first second : σ → ι → Prop} {state : σ}
    (each : EachStep step first state inputs) (eachToo : EachStep step second state inputs) :
    EachStep step (fun state input => first state input ∧ second state input) state inputs := by
  induction inputs generalizing state with
  | nil => trivial
  | cons input rest ih =>
    exact ⟨⟨each.1, eachToo.1⟩, fun next taken => ih (each.2 next taken) (eachToo.2 next taken)⟩

theorem EachStep.of_invariant (invariant : σ → Prop) {weaker : σ → ι → Prop}
    (kept : ∀ state input next, invariant state → admitted state input →
        step state input = some next → invariant next)
    (implied : ∀ state input, invariant state → admitted state input → condition state input →
        weaker state input) {state : σ} (initially : invariant state)
    (admissible : EachStep step admitted state inputs)
    (each : EachStep step condition state inputs) : EachStep step weaker state inputs := by
  induction inputs generalizing state with
  | nil => trivial
  | cons input rest ih =>
    obtain ⟨admits, laterAdmits⟩ := admissible
    obtain ⟨met, laterMet⟩ := each
    refine ⟨implied state input initially admits met, fun next taken => ?_⟩
    exact ih (kept state input next initially admits taken)
      (laterAdmits next taken) (laterMet next taken)

theorem AlwaysAlong.of_invariant (invariant : σ → Prop) {good : σ → Prop}
    (sound : ∀ state, invariant state → good state)
    (kept : ∀ state input next, invariant state → admitted state input →
        step state input = some next → invariant next) {state : σ} (initially : invariant state)
    (admissible : EachStep step admitted state inputs) : AlwaysAlong step good state inputs := by
  induction inputs generalizing state with
  | nil => exact sound state initially
  | cons input rest ih =>
    obtain ⟨admits, laterAdmits⟩ := admissible
    refine ⟨sound state initially, fun next taken => ?_⟩
    exact ih (kept state input next initially admits taken) (laterAdmits next taken)

theorem runsWell_iff_eachStep_of_admitted (invariant : σ → Prop) {good : σ → Prop}
    (sound : ∀ state, invariant state → good state)
    (kept : ∀ state input, invariant state → admitted state input → condition state input →
          ∃ next, step state input = some next ∧ invariant next)
    (necessary : ∀ state input next, invariant state → admitted state input →
        step state input = some next → good next →
        condition state input) {state : σ} (initially : invariant state)
    (admissible : EachStep step admitted state inputs) :
    RunsWell step good state inputs ↔ EachStep step condition state inputs := by
  induction inputs generalizing state with
  | nil => exact ⟨fun _ => trivial, fun _ => sound state initially⟩
  | cons input rest ih =>
    obtain ⟨admits, laterAdmits⟩ := admissible
    constructor
    · rintro ⟨_, next, taken, later⟩
      have met := necessary state input next initially admits taken later.initially
      refine ⟨met, fun other otherTaken => ?_⟩
      obtain ⟨following, followed, keeps⟩ := kept state input initially admits met
      obtain rfl : following = next := Option.some.inj (followed.symm.trans taken)
      obtain rfl : following = other := Option.some.inj (followed.symm.trans otherTaken)
      exact (ih keeps (laterAdmits _ taken)).mp later
    · rintro ⟨met, each⟩
      obtain ⟨next, taken, keeps⟩ := kept state input initially admits met
      exact ⟨sound state initially, next, taken, (ih keeps (laterAdmits next taken)).mpr
          (each next taken)⟩

theorem runsWell_iff_eachStep (invariant : σ → Prop) {good : σ → Prop}
    (sound : ∀ state, invariant state → good state)
    (kept : ∀ state input, invariant state → condition state input →
          ∃ next, step state input = some next ∧ invariant next)
    (necessary : ∀ state input next, invariant state → step state input = some next → good next →
        condition state input) {state : σ} (initially : invariant state) (inputs : List ι) :
    RunsWell step good state inputs ↔ EachStep step condition state inputs :=
  runsWell_iff_eachStep_of_admitted invariant sound
    (fun state input holds _ => kept state input holds)
    (fun state input next holds _ => necessary state input next holds)
    initially (eachStep_true state inputs)

end Partial

section Lockstep

variable {γ α ι ο : Type}
variable (concrete : γ → ι → Option (γ × ο))
variable (abstract : α → ι → α × ο)

/--
The concrete machine follows the abstract one: related states throughout,
equal outputs at every step, and no step that is undefined.
-/
def Follows (related : γ → α → Prop) : γ → α → List ι → Prop
  | state, ideal, [] => related state ideal
  | state, ideal, input :: rest =>
    related state ideal ∧ ∃ next, concrete state input = some (next, (abstract ideal input).2) ∧
          Follows related next (abstract ideal input).1 rest

/-- Every concrete step meets a condition on its state and its input. -/
def EachInput (condition : γ → ι → Prop) : γ → List ι → Prop
  | _, [] => True
  | state, input :: rest =>
    condition state input ∧ ∀ next output, concrete state input = some (next, output) →
          EachInput condition next rest

variable {concrete abstract}

theorem EachInput.cons {condition : γ → ι → Prop} {state next : γ} {output : ο} {input : ι}
    {rest : List ι} (taken : concrete state input = some (next, output))
    (met : condition state input) (later : EachInput concrete condition next rest) :
    EachInput concrete condition state (input :: rest) := by
  refine ⟨met, fun other otherOutput otherTaken => ?_⟩
  rw [taken, Option.some.injEq, Prod.mk.injEq] at otherTaken
  rwa [← otherTaken.1]

variable {related : γ → α → Prop} {state : γ} {ideal : α} {inputs : List ι}

theorem Follows.initially (follows : Follows concrete abstract related state ideal inputs) :
    related state ideal := by
  cases inputs with
  | nil => exact follows
  | cons input rest => exact follows.1

theorem follows_of_eachInput (invariant : γ → α → Prop) {condition : γ → ι → Prop}
    {admitted : ι → Prop} (sound : ∀ state ideal, invariant state ideal → related state ideal)
    (serves : ∀ state ideal input, invariant state ideal → admitted input → condition state input →
        ∃ next, concrete state input = some (next, (abstract ideal input).2) ∧
            invariant next (abstract ideal input).1) (initially : invariant state ideal)
    (admissible : ∀ input ∈ inputs, admitted input)
    (each : EachInput concrete condition state inputs) :
    Follows concrete abstract related state ideal inputs := by
  induction inputs generalizing state ideal with
  | nil => exact sound state ideal initially
  | cons input rest ih =>
    obtain ⟨met, later⟩ := each
    obtain ⟨inputAdmitted, restAdmissible⟩ := List.forall_mem_cons.mp admissible
    obtain ⟨next, taken, nextInvariant⟩ := serves state ideal input initially inputAdmitted met
    exact ⟨sound state ideal initially, next, taken, ih nextInvariant restAdmissible
        (later next _ taken)⟩

theorem follows_iff_eachInput (invariant : γ → α → Prop) {condition : γ → ι → Prop}
    {admitted : ι → Prop} (sound : ∀ state ideal, invariant state ideal → related state ideal)
    (serves : ∀ state ideal input, invariant state ideal → admitted input → condition state input →
        ∃ next, concrete state input = some (next, (abstract ideal input).2) ∧
            invariant next (abstract ideal input).1)
    (necessary : ∀ state ideal input next, invariant state ideal → admitted input →
        concrete state input = some (next, (abstract ideal input).2) →
        related next (abstract ideal input).1 →
        condition state input) (initially : invariant state ideal)
    (admissible : ∀ input ∈ inputs, admitted input) :
    Follows concrete abstract related state ideal inputs ↔
      EachInput concrete condition state inputs := by
  constructor
  · intro follows
    induction inputs generalizing state ideal with
    | nil => trivial
    | cons input rest ih =>
      obtain ⟨_, next, taken, follows⟩ := follows
      obtain ⟨inputAdmitted, restAdmissible⟩ := List.forall_mem_cons.mp admissible
      have met := necessary state ideal input next initially inputAdmitted taken follows.initially
      obtain ⟨served, servedTaken, servedInvariant⟩ :=
        serves state ideal input initially inputAdmitted met
      have sameServed : served = next := by simpa [taken, eq_comm] using servedTaken
      subst served
      refine ⟨met, fun other output otherTaken => ?_⟩
      have sameOther : other = next := by
        simpa [taken, eq_comm] using And.left (by
          simpa [taken] using otherTaken)
      subst other
      exact ih servedInvariant restAdmissible follows
  · exact follows_of_eachInput invariant sound serves initially admissible

end Lockstep

end Agar.Lib
