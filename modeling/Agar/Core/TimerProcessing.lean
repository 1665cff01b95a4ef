import Agar.Core.TimerQueue

namespace Agar.Core

open Agar.Lib

/-!
# Processing of due timers

`AG_ProcessTimeouts` calls the callbacks of the timers that are due and
restarts the timers whose callbacks return an interval.  A timer that is still
due when it has been restarted is met again by the scan that follows, so each
due timer is called exactly once exactly when every interval that a callback
returns ends after the time that is being processed.
-/

/--
What a run meets: the value that each call of a callback returns, and the
reading of `AG_GetTicks` when the timer is restarted after that call.
-/
structure Answers where
  returned : Nat → UInt32
  ticks : Nat → UInt32

/-- `(int)(tSched - t) > 0` -/
def isLater (t tSched : UInt32) : Bool := 0 < (tSched - t).toInt32

/-- The timers, and the calls that have been made of their callbacks. -/
structure Processing where
  timing : Timing
  calls : List TimerRef

namespace Timing

/-- One turn of the loop at `rescan:`, with the timers that remain to scan. -/
def visit (t : UInt32) (answers : Answers) (ob : ObjRef) (timer : TimerRef) (toNext : List TimerRef)
    (state : Processing) : Except Stop (List TimerRef × Processing) :=
  match state.timing.entries timer with
  | none => .error .undefined
  | some entry =>
    if isLater t entry.tSched then .ok (toNext, state)
    else
      match entry.fn with
      | none => .error .undefined
      | some _ =>
        let rv := answers.returned state.calls.length
        let calls := state.calls ++ [timer]
        if rv > 0 then do
          let ticks := answers.ticks state.calls.length
          let timing ← state.timing.resetTimer (some ob) timer ticks rv
          return (timing.timers ob, ⟨timing, calls⟩)
        else .ok (toNext, ⟨state.timing.delTimer (some ob) timer, calls⟩)

/-- The loop at `rescan:` over the timers of an object -/
def scanTimers (t : UInt32) (answers : Answers)
    (ob : ObjRef) : Nat → List TimerRef → Processing → Except Stop Processing
  | 0, _, _ => .error .outOfFuel
  | _ + 1, [], state => .ok state
  | fuel + 1, timer :: toNext, state => do
      let (remaining, next) ← visit t answers ob timer toNext state
      scanTimers t answers ob fuel remaining next

/--
The loop over `agTimerObjQ`.  The next object is read before an object is
processed, which takes no other object off the queue.
-/
def scanObjects (t : UInt32) (answers : Answers)
    (fuel : Nat) : List ObjRef → Processing → Except Stop Processing
  | [], state => .ok state
  | ob :: obNext, state => do
      let next ← scanTimers t answers ob fuel (state.timing.timers ob) state
      scanObjects t answers fuel obNext next

/-- `AG_ProcessTimeouts`, with the calls that it makes -/
def processTimeouts (timing : Timing) (t : UInt32) (answers : Answers)
    (fuel : Nat) : Except Stop Processing :=
  scanObjects t answers fuel timing.timerObjQ ⟨timing, []⟩

/-- A call returns 0 or an interval that ends after the time processed. -/
def AnswersLater (t : UInt32) (answers : Answers) (k : Nat) : Prop :=
  answers.returned k = 0 ∨ isLater t (answers.ticks k + answers.returned k)

/-- Whether a timer is due. -/
def isDue (timing : Timing) (t : UInt32) (timer : TimerRef) : Bool :=
  match timing.entries timer with
  | none => false
  | some entry => !isLater t entry.tSched

/-- The timers of some objects that are due, in the order of their queues. -/
def dueTimers (timing : Timing) (t : UInt32) (objs : List ObjRef) : List TimerRef :=
  objs.flatMap fun ob => (timing.timers ob).filter (timing.isDue t)

/--
The processing ends, calls once each queued timer that is due and no other,
and leaves in each queue the timers that are not due and those whose callback
returned an interval.
-/
def FiresDueOnce (timing : Timing) (t : UInt32) (answers : Answers) : Prop :=
  ∃ fuel after, timing.processTimeouts t answers fuel = .ok after ∧ (∀ ob timer,
      timer ∈ timing.timers ob →
      timing.isDue t timer →
      after.calls.count timer = 1) ∧
    (∀ timer ∈ after.calls, ∃ ob, timer ∈ timing.timers ob ∧ timing.isDue t timer) ∧
    ∀ ob timer, timer ∈ after.timing.timers ob ↔ timer ∈ timing.timers ob ∧ (timing.isDue t timer →
          ∃ k, after.calls[k]? = some timer ∧ answers.returned k ≠ 0)

/--
The callbacks of the timers that are due, called in turn, return 0 or an
interval that ends after the time that is processed.
-/
def RestartsLater (timing : Timing) (t : UInt32) (answers : Answers) : Prop :=
  ∀ k < (timing.dueTimers t timing.timerObjQ).length, AnswersLater t answers k

/-- The timers in the queues have a callback. -/
def HaveCallbacks (timing : Timing) : Prop :=
  ∀ ob, ∀ timer ∈ timing.timers ob,
    ∃ entry fn, timing.entries timer = some entry ∧ entry.fn = some fn

/-! ## Restarting and cancelling one timer -/

variable {timing : Timing}

theorem resetTimer_queued {ob : ObjRef} {timer : TimerRef} {entry : Timer}
    (known : timing.entries timer = some entry) (member : timer ∈ timing.timers ob)
    (ticks ival : UInt32) :
    ∃ next, timing.resetTimer (some ob) timer ticks ival = .ok next ∧ next.entries =
        Function.update timing.entries timer
          (some { entry with tSched := ticks + ival, ival := ival }) ∧
      (∀ other ≠ ob, next.timers other = timing.timers other) ∧
      ∃ key : TimerRef → Nat, next.timers ob =
          insertAfterEqual key timer ((timing.timers ob).erase timer) := by
  unfold resetTimer
  dsimp only [Option.getD_some]
  rw [known]
  dsimp only
  rw [if_pos member]
  refine ⟨_, rfl, rfl, ?_, ?_⟩
  · intro other different
    rw [setTimers_timers, setTimer_timers, Function.update_of_ne different]
  · rw [setTimers_timers, Function.update_self]
    exact ⟨_, rfl⟩

theorem delTimer_queued {ob : ObjRef} {timer : TimerRef} (member : timer ∈ timing.timers ob) :
    (∀ other ≠ timer, (timing.delTimer (some ob) timer).entries other = timing.entries other) ∧
    (∀ other ≠ ob, (timing.delTimer (some ob) timer).timers other = timing.timers other) ∧
    (timing.delTimer (some ob) timer).timers ob = (timing.timers ob).erase timer := by
  unfold delTimer
  dsimp only [Option.getD_some]
  rw [if_pos member]
  refine ⟨?_, ?_, ?_⟩
  · intro other different
    exact Function.update_of_ne different _ _
  · intro other different
    exact Function.update_of_ne different _ _
  · exact Function.update_self _ _ _

variable {next : Timing} {timer : TimerRef}

theorem isDue_congr (same : next.entries timer = timing.entries timer) (t : UInt32) :
    next.isDue t timer = timing.isDue t timer := by
  simp only [isDue, same]

/--
What a call of a callback keeps: the invariant of the queues, the callbacks,
the queues of the other objects and the structures of the other timers.
-/
structure Called (ob : ObjRef) (timer : TimerRef) (timing next : Timing) : Prop where
  invariant : next.QueueInvariant
  callbacks : next.HaveCallbacks
  elsewhere : ∀ other ≠ ob, next.timers other = timing.timers other
  structures : ∀ other ≠ timer, next.entries other = timing.entries other

theorem Called.resetTimer {ob : ObjRef} (invariant : timing.QueueInvariant)
    (callbacks : timing.HaveCallbacks) (member : timer ∈ timing.timers ob) (t ticks ival : UInt32) :
    ∃ next, timing.resetTimer (some ob) timer ticks ival = .ok next ∧ Called ob timer timing next ∧
      next.isDue t timer = !isLater t (ticks + ival) ∧ ∃ key : TimerRef → Nat, next.timers ob =
          insertAfterEqual key timer ((timing.timers ob).erase timer) := by
  obtain ⟨entry, fn, known, callback⟩ := callbacks ob timer member
  obtain ⟨next, done, entries, elsewhere, key, queue⟩ := resetTimer_queued known member ticks ival
  refine ⟨next, done, ⟨resetTimer_invariant invariant done, ?_, elsewhere, ?_⟩, ?_, key, queue⟩
  · intro other moved listed
    rw [entries]
    by_cases same : moved = timer
    · rw [same, Function.update_self]
      exact ⟨_, fn, rfl, callback⟩
    · rw [Function.update_of_ne same]
      by_cases here : other = ob
      · subst other
        have before : moved ∈ timing.timers ob := by
          rw [queue, mem_insertAfterEqual] at listed
          exact List.mem_of_mem_erase (listed.resolve_left same)
        exact callbacks ob moved before
      · rw [elsewhere other here] at listed
        exact callbacks other moved listed
  · intro other different
    rw [entries, Function.update_of_ne different]
  · simp only [isDue, entries, Function.update_self]

theorem Called.delTimer {ob : ObjRef} (invariant : timing.QueueInvariant)
    (callbacks : timing.HaveCallbacks) (member : timer ∈ timing.timers ob) :
    Called ob timer timing (timing.delTimer (some ob) timer) := by
  obtain ⟨structures, elsewhere, queue⟩ := delTimer_queued member
  refine ⟨delTimer_invariant invariant (some ob) timer, ?_, elsewhere,
    structures⟩
  intro other moved listed
  have owned := (invariant.linked ob timer).mpr member
  by_cases here : other = ob
  · subst other
    rw [queue, (invariant.nodup ob).mem_erase_iff] at listed
    rw [structures moved listed.1]
    exact callbacks ob moved listed.2
  · rw [elsewhere other here] at listed
    have different : moved ≠ timer := by
      intro same
      subst moved
      exact here (invariant.noOther ob other timer owned listed)
    rw [structures moved different]
    exact callbacks other moved listed

/-! ## One turn of the scan -/

/--
The scan of the timers of an object has come to some remaining timers, and
every timer of the object that is due is one of them.
-/
structure Scanning (t : UInt32) (ob : ObjRef) (toNext : List TimerRef)
    (timing : Timing) : Prop where
  invariant : timing.QueueInvariant
  callbacks : timing.HaveCallbacks
  within : toNext.Sublist (timing.timers ob)
  remaining : (timing.timers ob).filter (timing.isDue t) = toNext.filter (timing.isDue t)

theorem Scanning.start (invariant : timing.QueueInvariant) (callbacks : timing.HaveCallbacks)
    (t : UInt32) (ob : ObjRef) : Scanning t ob (timing.timers ob) timing :=
  ⟨invariant, callbacks, List.Sublist.refl _, rfl⟩

section Visit

variable {t : UInt32} {answers : Answers} {ob : ObjRef} {timer : TimerRef}
  {toNext : List TimerRef} {state : Processing}

theorem visit_of_not_due (scanning : Scanning t ob (timer :: toNext) state.timing)
    (notDue : state.timing.isDue t timer = false) :
    visit t answers ob timer toNext state = .ok (toNext, state) ∧
      Scanning t ob toNext state.timing := by
  obtain ⟨invariant, callbacks, within, remaining⟩ := scanning
  obtain ⟨entry, _, known, _⟩ := callbacks ob timer (within.subset List.mem_cons_self)
  refine ⟨?_, invariant, callbacks, (List.sublist_cons_self ..).trans within, ?_⟩
  · simp only [isDue, known, Bool.not_eq_false'] at notDue
    rw [visit, known]
    dsimp only
    rw [if_pos notDue]
  · rw [remaining, List.filter_cons_of_neg (by simp [notDue])]

theorem filter_erase_due {due : TimerRef → Bool} {queue : List TimerRef} (nodup : queue.Nodup)
    (remaining : queue.filter due = timer :: toNext) : (queue.erase timer).filter due = toNext := by
  rw [List.Nodup.erase_eq_filter nodup, List.filter_comm, remaining]
  have once : (timer :: toNext).Nodup := remaining ▸ nodup.filter due
  rw [← List.Nodup.erase_eq_filter once, List.erase_cons_head]

theorem Called.filter_due (called : Called ob timer timing next) {queue : List TimerRef}
    (absent : timer ∉ queue) (t : UInt32) :
    queue.filter (next.isDue t) = queue.filter (timing.isDue t) := by
  refine List.filter_congr fun other member => ?_
  exact isDue_congr (called.structures other (ne_of_mem_of_not_mem member absent)) t

theorem visit_of_due (scanning : Scanning t ob (timer :: toNext) state.timing)
    (due : state.timing.isDue t timer = true) :
    ∃ remaining next, visit t answers ob timer toNext state =
        .ok (remaining, ⟨next, state.calls ++ [timer]⟩) ∧
      Called ob timer state.timing next ∧ Scanning t ob remaining next ∧
      (∀ other, other ∈ next.timers ob ↔ other ∈ state.timing.timers ob ∧
          (other = timer → answers.returned state.calls.length ≠ 0)) ∧
      (AnswersLater t answers state.calls.length → remaining.filter (next.isDue t) =
          toNext.filter (state.timing.isDue t)) ∧
      (¬ AnswersLater t answers state.calls.length → timer ∈ remaining.filter (next.isDue t)) := by
  obtain ⟨invariant, callbacks, within, remaining⟩ := scanning
  have member : timer ∈ state.timing.timers ob := within.subset List.mem_cons_self
  have nodup := invariant.nodup ob
  have fresh : timer ∉ (state.timing.timers ob).erase timer := nodup.not_mem_erase
  have absent : timer ∉ toNext := (List.nodup_cons.mp (nodup.sublist within)).1
  rw [List.filter_cons_of_pos due] at remaining
  have others := filter_erase_due nodup remaining
  obtain ⟨entry, fn, known, callback⟩ := callbacks ob timer member
  have notLater : isLater t entry.tSched = false := by simpa [isDue, known] using due
  rw [visit, known]
  dsimp only
  rw [if_neg (by simp [notLater]), callback]
  dsimp only
  unfold AnswersLater
  generalize answers.returned state.calls.length = rv
  generalize answers.ticks state.calls.length = ticks
  by_cases cancelled : rv = 0
  case pos =>
    subst rv
    have called := Called.delTimer invariant callbacks member
    obtain ⟨_, _, queue⟩ := delTimer_queued member
    have leftDue := called.filter_due fresh t
    rw [← queue] at leftDue fresh
    refine ⟨toNext, _, if_neg (by decide), called,
      ⟨called.invariant, called.callbacks, ?_, ?_⟩, ?_, ?_, ?_⟩
    · have erased := within.erase timer
      rwa [List.erase_cons_head, ← queue] at erased
    · rw [leftDue, queue, others, called.filter_due absent]
    · intro other
      rw [queue, nodup.mem_erase_iff, and_comm]
      simp
    · intro _
      exact called.filter_due absent t
    · intro notLater
      exact absurd (.inl rfl) notLater
  case neg =>
    have positive : rv > 0 := by
      rw [gt_iff_lt, UInt32.lt_iff_toNat_lt]
      have nonzero : rv.toNat ≠ 0 := fun zero => cancelled (by
        rw [← UInt32.toNat_inj, zero]
        rfl)
      exact Nat.pos_of_ne_zero nonzero
    obtain ⟨next, reset, called, dueAgain, key, queue⟩ :=
      Called.resetTimer invariant callbacks member t ticks rv
    refine ⟨next.timers ob, next, ?_, called,
      .start called.invariant called.callbacks t ob, ?_, ?_, ?_⟩
    · rw [if_pos positive, reset]
      rfl
    · intro other
      rw [queue, mem_insertAfterEqual, nodup.mem_erase_iff]
      by_cases same : other = timer
      · simp [same, cancelled, member]
      · simp [same]
    · intro answersLater
      have later := answersLater.resolve_left cancelled
      rw [queue, insertAfterEqual_filter (by simp [dueAgain, later]),
        called.filter_due fresh, others]
    · intro notLater
      obtain ⟨_, dueStill⟩ := not_or.mp notLater
      rw [List.mem_filter, queue, mem_insertAfterEqual]
      exact ⟨.inl rfl, by simp [dueAgain, dueStill]⟩

end Visit

/-! ## The scan of an object -/

/--
What a part of the processing does: it calls the callbacks of some timers, in
order, which belong to some of the objects, and takes off its queue each
called timer whose callback returned 0.
-/
structure Fired (answers : Answers) (objs : List ObjRef) (fired : List TimerRef)
    (state after : Processing) : Prop where
  calls : after.calls = state.calls ++ fired
  invariant : after.timing.QueueInvariant
  callbacks : after.timing.HaveCallbacks
  elsewhere : ∀ other ∉ objs, after.timing.timers other = state.timing.timers other
  structures : ∀ timer ∉ fired, after.timing.entries timer = state.timing.entries timer
  queued : ∀ ob timer, timer ∈ after.timing.timers ob ↔ timer ∈ state.timing.timers ob ∧
        (timer ∈ fired → ∃ k, fired[k]? = some timer ∧
            answers.returned (state.calls.length + k) ≠ 0)

theorem Fired.none {answers : Answers} {state : Processing}
    (invariant : state.timing.QueueInvariant) (callbacks : state.timing.HaveCallbacks)
    (objs : List ObjRef) : Fired answers objs [] state state where
  calls := (List.append_nil _).symm
  invariant := invariant
  callbacks := callbacks
  elsewhere _ _ := rfl
  structures _ _ := rfl
  queued ob timer := by simp

theorem Fired.append {answers : Answers} {objs : List ObjRef} {front back : List TimerRef}
    {state between after : Processing} (first : Fired answers objs front state between)
    (second : Fired answers objs back between after) (different : front.Disjoint back) :
    Fired answers objs (front ++ back) state after where
  calls := by rw [second.calls, first.calls, List.append_assoc]
  invariant := second.invariant
  callbacks := second.callbacks
  elsewhere other outside := (second.elsewhere other outside).trans (first.elsewhere other outside)
  structures timer absent := by
    rw [List.mem_append, not_or] at absent
    rw [second.structures timer absent.2, first.structures timer absent.1]
  queued ob timer := by
    rw [second.queued, first.queued, and_assoc, first.calls, List.length_append, List.mem_append]
    refine and_congr_right fun _ => ?_
    by_cases inFront : timer ∈ front
    · have notBack : timer ∉ back := fun inBack => different inFront inBack
      simp only [inFront, notBack, false_implies, and_true, or_false, true_implies]
      constructor
      · rintro ⟨k, called, restarted⟩
        exact ⟨k, List.getElem?_append_left
          (List.getElem?_eq_some_iff.mp called).1 ▸ called, restarted⟩
      · rintro ⟨k, called, restarted⟩
        by_cases early : k < front.length
        · rw [List.getElem?_append_left early] at called
          exact ⟨k, called, restarted⟩
        · rw [List.getElem?_append_right (Nat.not_lt.mp early)] at called
          exact absurd (List.mem_of_getElem? called) notBack
    · simp only [inFront, false_implies, true_and, false_or]
      refine imp_congr_right fun inBack => ?_
      constructor
      · rintro ⟨k, called, restarted⟩
        refine ⟨front.length + k, ?_, by rwa [← Nat.add_assoc]⟩
        rwa [List.getElem?_append_right (Nat.le_add_right _ _), Nat.add_sub_cancel_left]
      · rintro ⟨k, called, restarted⟩
        by_cases early : k < front.length
        · rw [List.getElem?_append_left early] at called
          exact absurd (List.mem_of_getElem? called) inFront
        · rw [List.getElem?_append_right (Nat.not_lt.mp early)] at called
          refine ⟨k - front.length, called, ?_⟩
          rwa [Nat.add_assoc, Nat.add_sub_cancel' (Nat.not_lt.mp early)]

theorem Fired.mono {answers : Answers} {objs more : List ObjRef} {fired : List TimerRef}
    {state after : Processing} (part : Fired answers objs fired state after)
    (included : objs ⊆ more) : Fired answers more fired state after :=
  { part with
    elsewhere := fun other outside => part.elsewhere other fun member => outside (included member) }

section Scan

variable {t : UInt32} {answers : Answers} {ob : ObjRef} {timer : TimerRef}
  {toNext : List TimerRef} {state after : Processing} {fuel : Nat}

theorem Called.fired (called : Called ob timer state.timing next)
    (member : timer ∈ state.timing.timers ob) (invariant : state.timing.QueueInvariant)
    (queued : ∀ other, other ∈ next.timers ob ↔ other ∈ state.timing.timers ob ∧
          (other = timer → answers.returned state.calls.length ≠ 0)) :
    Fired answers [ob] [timer] state ⟨next, state.calls ++ [timer]⟩ where
  calls := rfl
  invariant := called.invariant
  callbacks := called.callbacks
  elsewhere other outside := called.elsewhere other (by simpa using outside)
  structures other absent := called.structures other (by simpa using absent)
  queued other moved := by
    have first : (∃ k, [timer][k]? = some moved ∧ answers.returned (state.calls.length + k) ≠ 0) ↔
          moved = timer ∧ answers.returned state.calls.length ≠ 0 := by
      constructor
      · rintro ⟨k, read, restarted⟩
        rw [List.getElem?_singleton] at read
        split at read
        case isTrue zero =>
          subst zero
          exact ⟨(Option.some.inj read).symm, restarted⟩
        case isFalse => cases read
      · rintro ⟨rfl, restarted⟩
        exact ⟨0, rfl, restarted⟩
    rw [first, List.mem_singleton]
    by_cases here : other = ob
    · subst other
      rw [queued]
      refine and_congr_right fun _ => imp_congr_right fun same => ?_
      simp [same]
    · rw [called.elsewhere other here]
      refine (and_iff_left_of_imp fun listed same => ?_).symm
      subst moved
      have owned := (invariant.linked ob timer).mpr member
      exact absurd (invariant.noOther ob other timer owned listed) here

theorem scanTimers_mono (scanned : scanTimers t answers ob fuel toNext state = .ok after)
    (more : Nat) : scanTimers t answers ob (fuel + more) toNext state = .ok after := by
  induction fuel generalizing toNext state with
  | zero => cases scanned
  | succ fuel ih =>
    rw [Nat.succ_add]
    cases toNext with
    | nil => exact scanned
    | cons timer toNext =>
      rw [scanTimers] at scanned ⊢
      obtain ⟨⟨remaining, next⟩, visited, later⟩ := bind_eq_ok.mp scanned
      exact bind_eq_ok.mpr ⟨(remaining, next), visited, ih later⟩

theorem scanTimers_past {front : List TimerRef}
    (scanning : Scanning t ob (front ++ toNext) state.timing)
    (notDue : ∀ other ∈ front, state.timing.isDue t other = false) :
    scanTimers t answers ob (fuel + front.length) (front ++ toNext) state =
        scanTimers t answers ob fuel toNext state ∧
      Scanning t ob toNext state.timing := by
  induction front with
  | nil => exact ⟨rfl, scanning⟩
  | cons other front ih =>
    obtain ⟨otherNotDue, frontNotDue⟩ := List.forall_mem_cons.mp notDue
    obtain ⟨visited, later⟩ :=
      @visit_of_not_due t answers ob other (front ++ toNext) state scanning otherNotDue
    obtain ⟨scanned, behind⟩ := ih later frontNotDue
    refine ⟨?_, behind⟩
    rw [List.length_cons, ← Nat.add_assoc, List.cons_append, scanTimers, visited]
    exact scanned

theorem scanTimers_completes {fired : List TimerRef} (scanning : Scanning t ob toNext state.timing)
    (due : toNext.filter (state.timing.isDue t) = fired)
    (later : ∀ k < fired.length, AnswersLater t answers (state.calls.length + k)) :
    ∃ fuel after, scanTimers t answers ob fuel toNext state = .ok after ∧
      Fired answers [ob] fired state after := by
  induction fired generalizing toNext state with
  | nil =>
    have notDue : ∀ other ∈ toNext, state.timing.isDue t other = false := by
      simpa [List.filter_eq_nil_iff] using due
    have past := @scanTimers_past t answers ob [] state 1 toNext (by rwa [List.append_nil]) notDue
    rw [List.append_nil] at past
    exact ⟨_, state, past.1, .none scanning.invariant scanning.callbacks _⟩
  | cons timer fired ih =>
    obtain ⟨front, back, rfl, notDue, dueFirst, dueBack⟩ := List.filter_eq_cons_iff.mp due
    have frontNotDue : ∀ other ∈ front, state.timing.isDue t other = false := by simpa using notDue
    have first : AnswersLater t answers state.calls.length := later 0 (Nat.succ_pos _)
    have once : (timer :: fired).Nodup := by
      rw [← due]
      exact ((scanning.invariant.nodup ob).sublist scanning.within).filter _
    obtain ⟨fresh, _⟩ := List.nodup_cons.mp once
    obtain ⟨_, reached⟩ :=
      @scanTimers_past t answers ob (timer :: back) state 0 front scanning frontNotDue
    obtain ⟨remaining, next, visited, called, again, queued, dueAfter, _⟩ :=
      @visit_of_due t answers ob timer back state reached dueFirst
    have part := called.fired (reached.within.subset List.mem_cons_self) reached.invariant queued
    obtain ⟨fuel, after, scanned, rest⟩ :=
      @ih remaining ⟨next, state.calls ++ [timer]⟩ again ((dueAfter first).trans dueBack) (by
          intro k small
          have answer := later (k + 1) (Nat.succ_lt_succ small)
          simpa [Nat.add_assoc, Nat.add_comm 1 k] using answer)
    refine ⟨fuel + 1 + front.length, after, ?_,
      part.append rest (List.singleton_disjoint.mpr fresh)⟩
    obtain ⟨past, _⟩ :=
      @scanTimers_past t answers ob (timer :: back) state (fuel + 1) front scanning frontNotDue
    rw [past, scanTimers, visited]
    exact scanned

theorem scanTimers_calls (scanning : Scanning t ob toNext state.timing)
    (scanned : scanTimers t answers ob fuel toNext state = .ok after) :
    ∃ fired, after.calls = state.calls ++ fired ∧ toNext.filter (state.timing.isDue t) ⊆ fired ∧
      after.timing.QueueInvariant ∧ after.timing.HaveCallbacks := by
  induction fuel generalizing toNext state with
  | zero => cases scanned
  | succ fuel ih =>
    cases toNext with
    | nil =>
      cases scanned
      exact ⟨[], (List.append_nil _).symm, List.Subset.refl _,
        scanning.invariant, scanning.callbacks⟩
    | cons timer toNext =>
      rw [scanTimers] at scanned
      obtain ⟨⟨remaining, next⟩, visited, later⟩ := bind_eq_ok.mp scanned
      by_cases due : state.timing.isDue t timer = true
      case neg =>
        rw [Bool.not_eq_true] at due
        obtain ⟨passed, behind⟩ := @visit_of_not_due t answers ob timer toNext state scanning due
        rw [passed] at visited
        cases visited
        rw [List.filter_cons_of_neg (by simp [due])]
        exact ih behind later
      case pos =>
        obtain ⟨again, timing, called, kept, rescan, queued, _⟩ :=
          @visit_of_due t answers ob timer toNext state scanning due
        rw [called] at visited
        cases visited
        obtain ⟨fired, calls, firedAgain, sound⟩ := ih rescan later
        refine ⟨timer :: fired, ?_, ?_, sound⟩
        · rw [calls, List.append_assoc, List.singleton_append]
        · intro other member
          by_cases same : other = timer
          · rw [same]
            exact List.mem_cons_self
          · obtain ⟨listed, dueOther⟩ := List.mem_filter.mp member
            refine List.mem_cons_of_mem _ (firedAgain ?_)
            rw [← rescan.remaining, List.mem_filter, queued,
              isDue_congr (kept.structures other same)]
            exact ⟨⟨scanning.within.subset listed, fun equal => absurd equal same⟩, dueOther⟩

theorem answersLater_of_scanTimers (scanning : Scanning t ob toNext state.timing)
    (scanned : scanTimers t answers ob fuel toNext state = .ok after) (once : after.calls.Nodup) :
    ∀ k < (toNext.filter (state.timing.isDue t)).length,
      AnswersLater t answers (state.calls.length + k) := by
  induction fuel generalizing toNext state with
  | zero => cases scanned
  | succ fuel ih =>
    cases toNext with
    | nil =>
      intro k small
      exact absurd small (Nat.not_lt_zero k)
    | cons timer toNext =>
      rw [scanTimers] at scanned
      obtain ⟨⟨remaining, next⟩, visited, later⟩ := bind_eq_ok.mp scanned
      by_cases due : state.timing.isDue t timer = true
      case neg =>
        rw [Bool.not_eq_true] at due
        obtain ⟨passed, behind⟩ := @visit_of_not_due t answers ob timer toNext state scanning due
        rw [passed] at visited
        cases visited
        rw [List.filter_cons_of_neg (by simp [due])]
        exact ih behind later
      case pos =>
        obtain ⟨again, timing, called, _, rescan, _, dueLater, dueStill⟩ :=
          @visit_of_due t answers ob timer toNext state scanning due
        rw [called] at visited
        cases visited
        -- A timer that is due again would be called a second time.
        have first : AnswersLater t answers state.calls.length := by
          by_contra notLater
          obtain ⟨fired, calls, firedAgain, _⟩ := scanTimers_calls rescan later
          rw [calls, List.append_assoc, List.singleton_append] at once
          have fresh := (List.nodup_cons.mp once.of_append_right).1
          exact fresh (firedAgain (dueStill notLater))
        rw [List.filter_cons_of_pos due, ← dueLater first]
        intro k small
        cases k with
        | zero => exact first
        | succ k =>
          have answer := ih rescan later k (Nat.lt_of_succ_lt_succ small)
          simpa [Nat.add_assoc, Nat.add_comm 1 k] using answer

theorem scanTimers_unique {other : Processing} {more : Nat}
    (scanned : scanTimers t answers ob fuel toNext state = .ok after)
    (again : scanTimers t answers ob more toNext state = .ok other) : after = other := by
  have first := scanTimers_mono scanned more
  have second := scanTimers_mono again fuel
  rw [Nat.add_comm] at second
  exact Except.ok.inj (first.symm.trans second)

end Scan

/-! ## The objects that have timers -/

section Objects

variable {t : UInt32} {answers : Answers} {ob : ObjRef}
  {objs : List ObjRef} {state after : Processing} {fuel : Nat}

theorem Fired.dueTimers {fired : List TimerRef} (first : Fired answers [ob] fired state after)
    (invariant : state.timing.QueueInvariant) (own : fired ⊆ state.timing.timers ob)
    (absent : ob ∉ objs) : after.timing.dueTimers t objs = state.timing.dueTimers t objs := by
  refine List.flatMap_congr fun other listed => ?_
  have different : other ≠ ob := ne_of_mem_of_not_mem listed absent
  rw [first.elsewhere other (by simpa using different)]
  refine List.filter_congr fun timer member => ?_
  refine isDue_congr (first.structures timer fun called => ?_) t
  have owned := (invariant.linked ob timer).mpr (own called)
  exact different (invariant.noOther ob other timer owned member)

theorem scanObjects_mono (scanned : scanObjects t answers fuel objs state = .ok after)
    (more : Nat) : scanObjects t answers (fuel + more) objs state = .ok after := by
  induction objs generalizing state with
  | nil => exact scanned
  | cons ob obNext ih =>
    rw [scanObjects] at scanned ⊢
    obtain ⟨next, first, rest⟩ := bind_eq_ok.mp scanned
    exact bind_eq_ok.mpr ⟨next, scanTimers_mono first more, ih rest⟩

theorem QueueInvariant.disjoint_dueTimers (invariant : timing.QueueInvariant) (absent : ob ∉ objs) :
    (timing.timers ob).Disjoint (timing.dueTimers t objs) := by
  intro timer member due
  obtain ⟨other, listed, selected⟩ := List.mem_flatMap.mp due
  have owned := (invariant.linked ob timer).mpr member
  have same := invariant.noOther ob other timer owned (List.mem_of_mem_filter selected)
  exact absent (same ▸ listed)

theorem answersLater_append {start first second : Nat} :
    (∀ k < first + second, AnswersLater t answers (start + k)) ↔
      (∀ k < first, AnswersLater t answers (start + k)) ∧
      ∀ k < second, AnswersLater t answers (start + first + k) := by
  constructor
  · intro all
    refine ⟨fun k small => all k (by omega), fun k small => ?_⟩
    rw [Nat.add_assoc]
    exact all (first + k) (by omega)
  · rintro ⟨early, late⟩ k small
    by_cases before : k < first
    · exact early k before
    · obtain ⟨rest, rfl⟩ := Nat.exists_eq_add_of_le (Nat.not_lt.mp before)
      rw [← Nat.add_assoc]
      exact late rest (by omega)

theorem scanObjects_completes (invariant : state.timing.QueueInvariant)
    (callbacks : state.timing.HaveCallbacks) (once : objs.Nodup)
    (later : ∀ k < (state.timing.dueTimers t objs).length,
        AnswersLater t answers (state.calls.length + k)) :
    ∃ fuel after, scanObjects t answers fuel objs state = .ok after ∧
      Fired answers objs (state.timing.dueTimers t objs) state after := by
  induction objs generalizing state with
  | nil => exact ⟨0, state, rfl, .none invariant callbacks []⟩
  | cons ob obNext ih =>
    obtain ⟨absent, onceNext⟩ := List.nodup_cons.mp once
    rw [dueTimers, List.flatMap_cons] at later ⊢
    rw [List.length_append, answersLater_append] at later
    obtain ⟨firstFuel, next, scanned, first⟩ :=
      scanTimers_completes (.start invariant callbacks t ob) rfl later.1
    have own : (state.timing.timers ob).filter (state.timing.isDue t) ⊆ state.timing.timers ob :=
      List.filter_sublist.subset
    have sameDue := @Fired.dueTimers t answers ob obNext state next _ first invariant own absent
    rw [← dueTimers, ← sameDue] at later
    rw [← dueTimers, ← sameDue]
    obtain ⟨fuel, after, rest, others⟩ :=
      ih first.invariant first.callbacks onceNext (by
        rw [first.calls, List.length_append]
        exact later.2)
    refine ⟨firstFuel + fuel, after, ?_, ?_⟩
    · rw [scanObjects]
      refine bind_eq_ok.mpr ⟨next, scanTimers_mono scanned fuel, ?_⟩
      rw [Nat.add_comm]
      exact scanObjects_mono rest firstFuel
    · refine (first.mono (by simp)).append (others.mono (List.subset_cons_self ..)) ?_
      intro timer called calledLater
      rw [sameDue] at calledLater
      exact invariant.disjoint_dueTimers absent (own called) calledLater

theorem scanObjects_calls (invariant : state.timing.QueueInvariant)
    (callbacks : state.timing.HaveCallbacks)
    (scanned : scanObjects t answers fuel objs state = .ok after) :
    state.calls <+: after.calls := by
  induction objs generalizing state with
  | nil =>
    cases scanned
    exact List.prefix_refl _
  | cons ob obNext ih =>
    rw [scanObjects] at scanned
    obtain ⟨next, first, rest⟩ := bind_eq_ok.mp scanned
    obtain ⟨fired, calls, _, kept, stillCallbacks⟩ :=
      scanTimers_calls (.start invariant callbacks t ob) first
    have later := ih kept stillCallbacks rest
    rw [calls] at later
    exact (List.prefix_append _ _).trans later

theorem scanObjects_sound (invariant : state.timing.QueueInvariant)
    (callbacks : state.timing.HaveCallbacks)
    (scanned : scanObjects t answers fuel objs state = .ok after) :
    after.timing.QueueInvariant ∧ after.timing.HaveCallbacks := by
  induction objs generalizing state with
  | nil =>
    cases scanned
    exact ⟨invariant, callbacks⟩
  | cons ob obNext ih =>
    rw [scanObjects] at scanned
    obtain ⟨next, first, rest⟩ := bind_eq_ok.mp scanned
    obtain ⟨_, _, _, kept, stillCallbacks⟩ :=
      scanTimers_calls (.start invariant callbacks t ob) first
    exact ih kept stillCallbacks rest

theorem answersLater_of_scanObjects (invariant : state.timing.QueueInvariant)
    (callbacks : state.timing.HaveCallbacks) (once : objs.Nodup)
    (scanned : scanObjects t answers fuel objs state = .ok after) (calledOnce : after.calls.Nodup) :
    ∀ k < (state.timing.dueTimers t objs).length,
      AnswersLater t answers (state.calls.length + k) := by
  induction objs generalizing state with
  | nil =>
    intro k small
    exact absurd small (Nat.not_lt_zero k)
  | cons ob obNext ih =>
    obtain ⟨absent, onceNext⟩ := List.nodup_cons.mp once
    rw [scanObjects] at scanned
    obtain ⟨next, first, rest⟩ := bind_eq_ok.mp scanned
    have start := Scanning.start invariant callbacks t ob
    obtain ⟨_, _, _, kept, stillCallbacks⟩ := scanTimers_calls start first
    have firstOnce : next.calls.Nodup :=
      calledOnce.sublist (scanObjects_calls kept stillCallbacks rest).sublist
    have firstLater := answersLater_of_scanTimers start first firstOnce
    obtain ⟨_, same, completed, fired⟩ := scanTimers_completes start rfl firstLater
    obtain rfl := scanTimers_unique completed first
    have own : (state.timing.timers ob).filter (state.timing.isDue t) ⊆ state.timing.timers ob :=
      List.filter_sublist.subset
    have sameDue := @Fired.dueTimers t answers ob obNext state same _ fired invariant own absent
    have restLater := ih kept stillCallbacks onceNext rest
    rw [fired.calls, List.length_append, sameDue] at restLater
    rw [dueTimers, List.flatMap_cons, List.length_append, answersLater_append]
    exact ⟨firstLater, restLater⟩

end Objects

/-! ## Due timers fire once -/

theorem QueueInvariant.mem_timerObjQ (invariant : timing.QueueInvariant) {ob : ObjRef}
    (member : timer ∈ timing.timers ob) : ob ∈ timing.timerObjQ := by
  rw [← List.count_pos_iff, invariant.queued, if_neg (List.ne_nil_of_mem member)]
  exact Nat.one_pos

theorem QueueInvariant.nodup_timerObjQ (invariant : timing.QueueInvariant) :
    timing.timerObjQ.Nodup := by
  rw [List.nodup_iff_count_le_one]
  intro ob
  rw [invariant.queued]
  split <;> decide

theorem QueueInvariant.mem_dueTimers (invariant : timing.QueueInvariant) {t : UInt32} :
    timer ∈ timing.dueTimers t timing.timerObjQ ↔
      ∃ ob, timer ∈ timing.timers ob ∧ timing.isDue t timer := by
  simp only [dueTimers, List.mem_flatMap, List.mem_filter]
  constructor
  · rintro ⟨ob, _, member, due⟩
    exact ⟨ob, member, due⟩
  · rintro ⟨ob, member, due⟩
    exact ⟨ob, invariant.mem_timerObjQ member, member, due⟩

theorem QueueInvariant.nodup_dueTimers (invariant : timing.QueueInvariant) (t : UInt32)
    {objs : List ObjRef} (once : objs.Nodup) : (timing.dueTimers t objs).Nodup := by
  induction objs with
  | nil => exact List.nodup_nil
  | cons ob obNext ih =>
    obtain ⟨absent, onceNext⟩ := List.nodup_cons.mp once
    rw [dueTimers, List.flatMap_cons, List.nodup_append']
    refine ⟨(invariant.nodup ob).filter _, ih onceNext, ?_⟩
    intro timer own others
    exact invariant.disjoint_dueTimers absent (List.mem_of_mem_filter own) others

/-! ## Queued timers have callbacks -/

theorem mem_of_mem_reinsert {other : TimerRef} {queue : List TimerRef} (nodup : queue.Nodup)
    (inserted : other ∈ timing.reinsert timer queue) : other = timer ∨ other ∈ queue := by
  cases scanned : timing.scan timer queue with
  | none =>
    rw [reinsert_of_met nodup scanned, mem_insertAfterEqual] at inserted
    exact inserted.imp_right List.mem_of_mem_erase
  | some placed =>
    rw [reinsert_of_placed scanned, (scan_perm scanned).mem_iff] at inserted
    exact List.mem_cons.mp inserted

theorem HaveCallbacks.delTimer (callbacks : timing.HaveCallbacks)
    (invariant : timing.QueueInvariant) (p : Option ObjRef) (timer : TimerRef) :
    (timing.delTimer p timer).HaveCallbacks := by
  by_cases member : timer ∈ timing.timers (p.getD agTimerMgr)
  · exact (Called.delTimer invariant callbacks member).callbacks
  · rw [Timing.delTimer, if_neg member]
    exact callbacks

theorem HaveCallbacks.delTimer_each (callbacks : timing.HaveCallbacks)
    (invariant : timing.QueueInvariant) (ob : ObjRef) (queue : List TimerRef) :
    (queue.foldl (fun timing timer => timing.delTimer (some ob) timer) timing).HaveCallbacks := by
  induction queue generalizing timing with
  | nil => exact callbacks
  | cons timer rest ih =>
    exact ih (callbacks.delTimer invariant (some ob) timer)
      (delTimer_invariant invariant (some ob) timer)

theorem HaveCallbacks.delTimers (callbacks : timing.HaveCallbacks)
    (invariant : timing.QueueInvariant) (ob : ObjRef) : (timing.delTimers ob).HaveCallbacks := by
  have emptied := (delTimers_loop invariant ob).2
  have looped := callbacks.delTimer_each invariant ob (timing.timers ob)
  rw [Timing.delTimers, setTimers]
  rwa [← emptied, Function.update_eq_self]

theorem HaveCallbacks.step {op : TimerOp} (callbacks : timing.HaveCallbacks)
    (invariant : timing.QueueInvariant) (taken : timing.step op = some next) :
    next.HaveCallbacks := by
  cases op with
  | initTimer timer name flags =>
    simp only [Timing.step] at taken
    split at taken
    case isFalse => cases taken
    case isTrue free =>
      cases taken
      intro ob other listed
      obtain ⟨entry, fn, known, callback⟩ := callbacks ob other listed
      have different : other ≠ timer := by
        intro same
        rw [same, free] at known
        cases known
      exact ⟨entry, fn, (Function.update_of_ne different _ _).trans known, callback⟩
  | addTimer p timer ticks ival fn =>
    obtain ⟨armedEntry, _, _, rfl⟩ := addTimer_cases (toOption_eq_some.mp taken)
    generalize p.getD agTimerMgr = ob
    intro other moved listed
    by_cases same : moved = timer
    · rw [same]
      exact ⟨_, fn, Function.update_self _ _ _, rfl⟩
    · have before : moved ∈ timing.timers other := by
        by_cases here : other = ob
        · subst other
          have inserted : moved ∈ Function.update timing.timers ob _ ob := listed
          rw [Function.update_self] at inserted
          exact (mem_of_mem_reinsert (invariant.nodup ob) inserted).resolve_left same
        · have kept : moved ∈ Function.update timing.timers ob _ other :=
            listed
          rwa [Function.update_of_ne here] at kept
      obtain ⟨entry, callback, known, stored⟩ := callbacks other moved before
      exact ⟨entry, callback, (Function.update_of_ne same _ _).trans known, stored⟩
  | resetTimer p timer ticks ival =>
    have reset := toOption_eq_some.mp taken
    by_cases member : timer ∈ timing.timers (p.getD agTimerMgr)
    · obtain ⟨other, done, called, _⟩ :=
        Called.resetTimer invariant callbacks member 0 ticks ival
      obtain rfl := Except.ok.inj (done.symm.trans reset)
      exact called.callbacks
    · rw [Timing.resetTimer] at reset
      dsimp only at reset
      split at reset
      · cases reset
      · rw [if_neg member] at reset
        cases reset
  | delTimer p timer =>
    cases taken
    exact callbacks.delTimer invariant p timer
  | delTimers ob =>
    cases taken
    exact callbacks.delTimers invariant ob

section Due

variable {timing : Timing} {t : UInt32} {answers : Answers}

theorem firesDueOnce_of_restartsLater (invariant : timing.QueueInvariant)
    (callbacks : timing.HaveCallbacks) (later : timing.RestartsLater t answers) :
    timing.FiresDueOnce t answers := by
  obtain ⟨fuel, after, processed, fired⟩ :=
    @scanObjects_completes t answers timing.timerObjQ ⟨timing, []⟩
      invariant callbacks invariant.nodup_timerObjQ
      (by simpa [RestartsLater] using later)
  have calls : after.calls = timing.dueTimers t timing.timerObjQ := fired.calls
  refine ⟨fuel, after, processed, ?_, ?_, ?_⟩
  · intro ob timer member due
    rw [calls]
    exact List.count_eq_one_of_mem (invariant.nodup_dueTimers t invariant.nodup_timerObjQ)
      (invariant.mem_dueTimers.mpr ⟨ob, member, due⟩)
  · intro timer called
    rw [calls] at called
    exact invariant.mem_dueTimers.mp called
  · intro ob timer
    rw [fired.queued, calls]
    refine and_congr_right fun member => ?_
    have isCalled : timer ∈ timing.dueTimers t timing.timerObjQ ↔ timing.isDue t timer = true := by
      rw [invariant.mem_dueTimers]
      exact ⟨fun ⟨_, _, due⟩ => due, fun due => ⟨ob, member, due⟩⟩
    rw [isCalled, List.length_nil]
    simp only [Nat.zero_add]

theorem restartsLater_of_firesDueOnce (invariant : timing.QueueInvariant)
    (callbacks : timing.HaveCallbacks) (firesOnce : timing.FiresDueOnce t answers) :
    timing.RestartsLater t answers := by
  obtain ⟨fuel, after, processed, dueOnce, onlyDue, _⟩ := firesOnce
  have calledOnce : after.calls.Nodup := by
    rw [List.nodup_iff_count_le_one]
    intro timer
    by_cases called : timer ∈ after.calls
    · obtain ⟨ob, member, due⟩ := onlyDue timer called
      exact Nat.le_of_eq (dueOnce ob timer member due)
    · rw [List.count_eq_zero_of_not_mem called]
      exact Nat.zero_le 1
  have later :=
    answersLater_of_scanObjects invariant callbacks invariant.nodup_timerObjQ processed calledOnce
  simpa [RestartsLater] using later

end Due

end Timing

/--
`AG_ProcessTimeouts` ends and fires each due timer once exactly when the
callback of each due timer, called in turn, returns 0 or an interval that ends
after the time processed.
-/
theorem processTimeouts_fires_iff {timing : Timing} (invariant : timing.QueueInvariant)
    (callbacks : timing.HaveCallbacks) (t : UInt32) (answers : Answers) :
    timing.FiresDueOnce t answers ↔ timing.RestartsLater t answers :=
  ⟨Timing.restartsLater_of_firesDueOnce invariant callbacks,
    Timing.firesDueOnce_of_restartsLater invariant callbacks⟩

def oneTimer : Timing :=
  Timing.initial.requeue 5 1
    { name := .strlcpy []
      id := 0
      obj := some 5
      flags := 0
      tSched := 10
      ival := 10
      fn := some 7 }

theorem oneTimer_sound : oneTimer.QueueInvariant ∧ oneTimer.HaveCallbacks := by
  refine ⟨Timing.QueueInvariant.initial.requeue 5 1 _ rfl (.inl rfl), ?_⟩
  intro ob timer listed
  obtain ⟨rfl, rfl⟩ : ob = 5 ∧ timer = 1 := by
    by_cases here : ob = 5
    · subst ob
      exact ⟨rfl, List.mem_singleton.mp listed⟩
    · have kept : timer ∈ Function.update Timing.initial.timers 5 _ ob :=
        listed
      rw [Function.update_of_ne here] at kept
      cases kept
  exact ⟨_, 7, rfl, rfl⟩

theorem processTimeouts_fires_iff_put_off :
    oneTimer.FiresDueOnce 10 ⟨fun _ => 20, fun _ => 12⟩ := by
  refine (processTimeouts_fires_iff oneTimer_sound.1 oneTimer_sound.2 10 _).mpr ?_
  intro k _
  have later : isLater 10 (12 + 20) = true := by decide
  exact .inr later

theorem processTimeouts_fires_again :
    ¬ oneTimer.FiresDueOnce 10 ⟨fun _ => 4294967295, fun _ => 10⟩ := by
  intro firesOnce
  have later := Timing.restartsLater_of_firesDueOnce oneTimer_sound.1 oneTimer_sound.2 firesOnce
  have first := later 0 (by decide)
  revert first
  unfold Timing.AnswersLater
  decide

/-! ## Whole runs -/

/-- What an application does with timers: an operation, or processing them -/
inductive SchedulerOp where
  | timer (op : TimerOp)
  | processTimeouts (t : UInt32) (answers : Answers) (fuel : Nat)

namespace Timing

/-- Take one step, where it is defined. -/
def schedulerStep (timing : Timing) : SchedulerOp → Option Timing
  | .timer op => timing.step op
  | .processTimeouts t answers fuel =>
    (timing.processTimeouts t answers fuel).toOption.map Processing.timing

/--
The queues are sound, and at any time processing them ends and fires each due
timer once exactly if the callbacks answer later.
-/
structure Schedules (timing : Timing) : Prop where
  invariant : timing.QueueInvariant
  callbacks : timing.HaveCallbacks
  fires : ∀ t answers, timing.FiresDueOnce t answers ↔ timing.RestartsLater t answers

theorem Schedules.of_sound {timing : Timing} (invariant : timing.QueueInvariant)
    (callbacks : timing.HaveCallbacks) : timing.Schedules :=
  ⟨invariant, callbacks, fun _ _ => ⟨restartsLater_of_firesDueOnce invariant callbacks,
    firesDueOnce_of_restartsLater invariant callbacks⟩⟩

/-- A timer that is added while it is running passes no entry. -/
def StaysInPlace (timing : Timing) : SchedulerOp → Prop
  | .timer op => timing.RearmsInPlace op
  | .processTimeouts .. => True

theorem Schedules.step {timing next : Timing} {op : SchedulerOp} (schedules : timing.Schedules)
    (taken : timing.schedulerStep op = some next) : next.Schedules ↔ timing.StaysInPlace op := by
  cases op with
  | timer op =>
    have exactStep := step_exact schedules.invariant taken
    exact ⟨fun schedulesNext => exactStep.mp schedulesNext.invariant, fun inPlace =>
      .of_sound (exactStep.mpr inPlace) (schedules.callbacks.step schedules.invariant taken)⟩
  | processTimeouts t answers fuel =>
    obtain ⟨after, processed, rfl⟩ := Option.map_eq_some_iff.mp taken
    obtain ⟨invariant, callbacks⟩ :=
      scanObjects_sound schedules.invariant schedules.callbacks (toOption_eq_some.mp processed)
    exact iff_of_true (.of_sound invariant callbacks) trivial

end Timing

end Agar.Core
