import Agar.Core.Timeout
import Agar.Lib.Outcome
import Agar.Lib.Runs

namespace Agar.Core

open Agar.Lib

/-!
# The timer queue invariant

What the timer lists and `agTimerObjQ` should look like in every state that a
sequence of timer operations reaches, and the sequences for which they do.
All operations keep the invariant but one: `AG_AddTimer` on a timer that is
already running links it a second time when an entry ahead of it expires later
than its new time.
-/

/-- One timer operation. -/
inductive TimerOp where
  | initTimer (timer : TimerRef) (name : List UInt8) (flags : UInt32)
  | addTimer (p : Option ObjRef) (timer : TimerRef) (ticks ival : UInt32)
      (fn : TimerFn)
  | resetTimer (p : Option ObjRef) (timer : TimerRef) (ticks ival : UInt32)
  | delTimer (p : Option ObjRef) (timer : TimerRef)
  | delTimers (ob : ObjRef)
  deriving Repr, DecidableEq

namespace Timing

/--
Take one operation.  A structure is initialised before its first use and not
while it is in use; an operation without a defined result, or that ends the
program, is no step.
-/
def step (timing : Timing) : TimerOp → Option Timing
  | .initTimer timer name flags =>
    if timing.entries timer = none then some (timing.initTimer timer name flags) else none
  | .addTimer p timer ticks ival fn => (timing.addTimer p timer ticks ival fn).toOption
  | .resetTimer p timer ticks ival => (timing.resetTimer p timer ticks ival).toOption
  | .delTimer p timer => some (timing.delTimer p timer)
  | .delTimers ob => some (timing.delTimers ob)

/-- The object that a timer structure names as its own. -/
def objOf (timing : Timing) (timer : TimerRef) : Option ObjRef :=
  (timing.entries timer).bind Timer.obj

/--
Every timer is in the list of its object, once, and in no other; every list is
ordered by expiration time; and `agTimerObjQ` holds once each object that has
a timer, and no other.
-/
structure QueueInvariant (timing : Timing) : Prop where
  linked : ∀ ob timer, timing.objOf timer = some ob ↔ timer ∈ timing.timers ob
  once : ∀ ob timer, timing.objOf timer = some ob → (timing.timers ob).count timer = 1
  noOther : ∀ ob other timer, timing.objOf timer = some ob → timer ∈ timing.timers other →
      other = ob
  ordered : ∀ ob, (timing.timers ob).Pairwise
        fun first second => timing.tSched first ≤ timing.tSched second
  queued : ∀ ob, timing.timerObjQ.count ob = if timing.timers ob = [] then 0 else 1

/--
The operation does not re-arm a running timer to expire before an entry that
is ahead of it in its list.
-/
def RearmsInPlace (timing : Timing) : TimerOp → Prop
  | .addTimer p timer ticks ival _ =>
    timer ∈ timing.timers (p.getD agTimerMgr) →
    ∀ ahead ∈ (timing.timers (p.getD agTimerMgr)).takeWhile (· ≠ timer),
      timing.tSched ahead ≤ (ticks + ival).toNat
  | _ => True

/-! ## What the operations store -/

variable (timing : Timing) (timer : TimerRef)

@[simp] theorem setTimer_timers (entry : Option Timer) :
    (timing.setTimer timer entry).timers = timing.timers :=
  rfl

@[simp] theorem setTimer_timerObjQ (entry : Option Timer) :
    (timing.setTimer timer entry).timerObjQ = timing.timerObjQ :=
  rfl

@[simp] theorem setTimers_entries (ob : ObjRef) (queue : List TimerRef) :
    (timing.setTimers ob queue).entries = timing.entries :=
  rfl

@[simp] theorem setTimers_timers (ob : ObjRef) (queue : List TimerRef) :
    (timing.setTimers ob queue).timers = Function.update timing.timers ob queue :=
  rfl

theorem objOf_setTimer (other : TimerRef) (entry : Option Timer) :
    (timing.setTimer timer entry).objOf other =
      if other = timer then entry.bind Timer.obj else timing.objOf other := by
  unfold objOf setTimer
  by_cases same : other = timer
  · simp [same]
  · simp [same]

theorem tSched_setTimer_of_ne {timing : Timing} {timer other : TimerRef} {entry : Option Timer}
    (different : other ≠ timer) :
    (timing.setTimer timer entry).tSched other = timing.tSched other := by
  simp [tSched, setTimer, Function.update_of_ne different]

theorem tSched_setTimer_self (entry : Timer) : (timing.setTimer timer (some entry)).tSched timer =
      entry.tSched.toNat := by
  simp [tSched, setTimer]

variable {queue : List TimerRef}

theorem ordered_setTimer {timing : Timing} {timer : TimerRef} {entry : Option Timer}
    (absent : timer ∉ queue)
    (ordered : queue.Pairwise fun first second => timing.tSched first ≤ timing.tSched second) :
    queue.Pairwise fun first second =>
      (timing.setTimer timer entry).tSched first ≤ (timing.setTimer timer entry).tSched second := by
  refine ordered.imp_of_mem ?_
  intro first second firstMember secondMember earlier
  rwa [tSched_setTimer_of_ne (ne_of_mem_of_not_mem firstMember absent),
    tSched_setTimer_of_ne (ne_of_mem_of_not_mem secondMember absent)]

/-! ## The invariant -/

theorem QueueInvariant.of_nodup {timing : Timing}
    (linked : ∀ ob timer, timing.objOf timer = some ob ↔ timer ∈ timing.timers ob)
    (nodup : ∀ ob, (timing.timers ob).Nodup) (ordered : ∀ ob, (timing.timers ob).Pairwise
          fun first second => timing.tSched first ≤ timing.tSched second)
    (queued : ∀ ob, timing.timerObjQ.count ob = if timing.timers ob = [] then 0 else 1) :
    timing.QueueInvariant where
  linked := linked
  once ob timer owned := List.count_eq_one_of_mem (nodup ob) ((linked ob timer).mp owned)
  noOther _ other timer owned member :=
    Option.some.inj (((linked other timer).mpr member).symm.trans owned)
  ordered := ordered
  queued := queued

theorem QueueInvariant.nodup {timing : Timing} (invariant : timing.QueueInvariant) (ob : ObjRef) :
    (timing.timers ob).Nodup := by
  rw [List.nodup_iff_count_le_one]
  intro timer
  by_cases member : timer ∈ timing.timers ob
  · exact Nat.le_of_eq (invariant.once ob timer ((invariant.linked ob timer).mpr member))
  · rw [List.count_eq_zero_of_not_mem member]
    exact Nat.zero_le 1

theorem QueueInvariant.initial : Timing.initial.QueueInvariant := by
  refine .of_nodup ?_ ?_ ?_ ?_ <;>
    simp [Timing.initial, objOf]

theorem QueueInvariant.setTimer_unowned {timing : Timing} (invariant : timing.QueueInvariant)
    {timer : TimerRef} {entry : Option Timer} (unowned : timing.objOf timer = none)
    (entryUnowned : entry.bind Timer.obj = none) :
    (timing.setTimer timer entry).QueueInvariant := by
  have sameObj : (timing.setTimer timer entry).objOf = timing.objOf := by
    funext other
    rw [objOf_setTimer]
    split
    case isTrue same => rw [same, unowned, entryUnowned]
    case isFalse => rfl
  refine .of_nodup ?_ invariant.nodup ?_ invariant.queued
  · rw [sameObj]
    exact invariant.linked
  · intro ob
    refine ordered_setTimer ?_ (invariant.ordered ob)
    intro member
    rw [(invariant.linked ob timer).mpr member] at unowned
    cases unowned

/-- Move a timer to its place in the list of an object. -/
def requeue (timing : Timing) (ob : ObjRef) (timer : TimerRef) (entry : Timer) : Timing :=
  let scheduled := timing.setTimer timer (some entry)
  { scheduled.setTimers ob (insertAfterEqual scheduled.tSched timer
        ((timing.timers ob).erase timer)) with
    timerObjQ :=
      if (timing.timers ob).isEmpty then timing.timerObjQ ++ [ob] else timing.timerObjQ }

theorem QueueInvariant.requeue {timing : Timing} (invariant : timing.QueueInvariant) (ob : ObjRef)
    (timer : TimerRef) (entry : Timer) (owner : entry.obj = some ob)
    (movable : timing.objOf timer = none ∨ timing.objOf timer = some ob) :
    (timing.requeue ob timer entry).QueueInvariant := by
  have elsewhere {other : ObjRef} (different : other ≠ ob) : timer ∉ timing.timers other := by
    intro member
    have owned := (invariant.linked other timer).mpr member
    rcases movable with unowned | ownedHere
    · rw [unowned] at owned
      cases owned
    · exact different (Option.some.inj (owned.symm.trans ownedHere))
  have absent : timer ∉ (timing.timers ob).erase timer := (invariant.nodup ob).not_mem_erase
  refine .of_nodup ?_ ?_ ?_ ?_
  · intro other moved
    change (timing.setTimer timer (some entry)).objOf moved = some other ↔
        moved ∈ Function.update timing.timers ob _ other
    rw [objOf_setTimer]
    by_cases here : other = ob
    · subst other
      rw [Function.update_self, mem_insertAfterEqual, (invariant.nodup ob).mem_erase_iff]
      by_cases same : moved = timer
      · simp [same, owner]
      · simp [same, invariant.linked]
    · rw [Function.update_of_ne here, ← invariant.linked]
      by_cases same : moved = timer
      · have notThere : timing.objOf timer ≠ some other :=
          fun owned => elsewhere here ((invariant.linked _ _).mp owned)
        simp [same, owner, notThere, Ne.symm here]
      · simp [same]
  · intro other
    change (Function.update timing.timers ob _ other).Nodup
    by_cases here : other = ob
    · subst other
      rw [Function.update_self]
      exact insertAfterEqual_nodup absent ((invariant.nodup ob).erase timer)
    · rw [Function.update_of_ne here]
      exact invariant.nodup other
  · intro other
    change (Function.update timing.timers ob _ other).Pairwise _
    by_cases here : other = ob
    · subst other
      rw [Function.update_self]
      exact insertAfterEqual_ordered (ordered_setTimer absent
          ((invariant.ordered ob).sublist List.erase_sublist))
    · rw [Function.update_of_ne here]
      exact ordered_setTimer (elsewhere here) (invariant.ordered other)
  · intro other
    change (if (timing.timers ob).isEmpty then timing.timerObjQ ++ [ob]
        else timing.timerObjQ).count other =
        if Function.update timing.timers ob _ other = [] then 0 else 1
    have before := invariant.queued other
    by_cases here : other = ob
    · subst other
      rw [Function.update_self, if_neg (insertAfterEqual_ne_nil _ _ _)]
      by_cases empty : timing.timers ob = []
      · simp [empty, before]
      · simp [empty, before]
    · rw [Function.update_of_ne here, ← before]
      split
      · simp [List.count_append, Ne.symm here]
      · rfl

/-! ## The insertion loop -/

theorem scan_of_not_mem {timing : Timing} {timer : TimerRef} (absent : timer ∉ queue) :
    timing.scan timer queue = some (insertAfterEqual timing.tSched timer queue) := by
  induction queue with
  | nil => rfl
  | cons toOther rest ih =>
    obtain ⟨different, restAbsent⟩ : timer ≠ toOther ∧ timer ∉ rest := by simpa using absent
    rw [scan, if_neg (Ne.symm different), insertAfterEqual]
    split
    · rfl
    · rw [ih restAbsent]
      rfl

theorem scan_perm {timing : Timing} {timer : TimerRef} {inserted : List TimerRef}
    (placed : timing.scan timer queue = some inserted) : inserted.Perm (timer :: queue) := by
  induction queue generalizing inserted with
  | nil =>
    cases placed
    exact List.Perm.refl _
  | cons toOther rest ih =>
    rw [scan] at placed
    split at placed
    · cases placed
    · split at placed
      · cases placed
        exact List.Perm.refl _
      · obtain ⟨restInserted, restPlaced, rfl⟩ :=
          Option.map_eq_some_iff.mp placed
        exact ((ih restPlaced).cons toOther).trans (List.Perm.swap timer toOther rest)

theorem scan_eq_none_iff {timing : Timing} {timer : TimerRef} (member : timer ∈ queue) :
    timing.scan timer queue = none ↔ ∀ ahead ∈ queue.takeWhile (· ≠ timer),
        timing.tSched ahead ≤ timing.tSched timer := by
  induction queue with
  | nil => cases member
  | cons toOther rest ih =>
    by_cases same : toOther = timer
    · simp [scan, same]
    · have inRest : timer ∈ rest :=
        (List.mem_cons.mp member).resolve_left (Ne.symm same)
      rw [scan, if_neg same, List.takeWhile_cons_of_pos (by simpa using same),
        List.forall_mem_cons, ← ih inRest]
      split
      case isTrue earlier => simp [Nat.not_le.mpr earlier]
      case isFalse notEarlier => simp [Nat.not_lt.mp notEarlier]

theorem reinsert_of_not_mem {timing : Timing} {timer : TimerRef} (absent : timer ∉ queue) :
    timing.reinsert timer queue = insertAfterEqual timing.tSched timer queue := by
  rw [reinsert]
  split
  case h_1 placed =>
    rw [scan_of_not_mem absent] at placed
    exact (Option.some.inj placed).symm
  case h_2 met => exact absurd (mem_of_scan_none met) absent

theorem reinsert_of_met {timing : Timing} {timer : TimerRef} (nodup : queue.Nodup)
    (met : timing.scan timer queue = none) :
    timing.reinsert timer queue = insertAfterEqual timing.tSched timer (queue.erase timer) := by
  rw [reinsert]
  split
  case h_1 placed =>
    rw [met] at placed
    cases placed
  case h_2 => exact reinsert_of_not_mem nodup.not_mem_erase

theorem reinsert_of_placed {timing : Timing} {timer : TimerRef} {inserted : List TimerRef}
    (placed : timing.scan timer queue = some inserted) :
    timing.reinsert timer queue = inserted := by
  rw [reinsert]
  split
  case h_1 samePlaced => exact Option.some.inj (samePlaced.symm.trans placed)
  case h_2 met =>
    rw [placed] at met
    cases met

/-! ## Steps -/

/-- The structure that `AG_AddTimer` stores. -/
def armed (entry : Timer) (ob : ObjRef) (ticks ival : UInt32) (fn : TimerFn) : Timer :=
  { entry with obj := some ob, tSched := ticks + ival, ival := ival, id := 0, fn := some fn }

variable {next : Timing} {p : Option ObjRef} {ticks ival : UInt32}

theorem addTimer_cases {timing : Timing} {timer : TimerRef} {fn : TimerFn}
    (taken : timing.addTimer p timer ticks ival fn = .ok next) :
    ∃ entry, timing.entries timer = some entry ∧
      (entry.obj = none ∨ entry.obj = some (p.getD agTimerMgr)) ∧
      next =
        { (timing.setTimer timer (some (armed entry (p.getD agTimerMgr) ticks ival fn))).setTimers
            (p.getD agTimerMgr)
            ((timing.setTimer timer (some (armed entry (p.getD agTimerMgr) ticks ival fn))).reinsert
              timer (timing.timers (p.getD agTimerMgr))) with
          timerObjQ :=
            if (timing.timers (p.getD agTimerMgr)).isEmpty then
              timing.timerObjQ ++ [p.getD agTimerMgr]
            else
              timing.timerObjQ } := by
  unfold addTimer at taken
  dsimp only at taken
  split at taken
  case h_1 => cases taken
  case h_2 entry known =>
    split at taken
    case isTrue => cases taken
    case isFalse allowed =>
      refine ⟨entry, known, ?_, ?_⟩
      · by_cases unowned : entry.obj = none
        · exact .inl unowned
        · exact .inr (by simpa [unowned] using allowed)
      · cases taken
        rfl

theorem addTimer_exact {timing : Timing} {timer : TimerRef} {fn : TimerFn}
    (invariant : timing.QueueInvariant) (taken : timing.addTimer p timer ticks ival fn = .ok next) :
    next.QueueInvariant ↔ timing.RearmsInPlace (.addTimer p timer ticks ival fn) := by
  obtain ⟨entry, known, movable, rfl⟩ := addTimer_cases taken
  simp only [RearmsInPlace]
  generalize p.getD agTimerMgr = ob at movable ⊢
  have objOf : timing.objOf timer = entry.obj := by simp [Timing.objOf, known]
  rw [← objOf] at movable
  have moved := invariant.requeue ob timer (armed entry ob ticks ival fn) rfl movable
  have nodup := invariant.nodup ob
  generalize armedEntry : armed entry ob ticks ival fn = stored at moved ⊢
  have newTime : (timing.setTimer timer (some stored)).tSched timer = (ticks + ival).toNat := by
    rw [tSched_setTimer_self, ← armedEntry]
    rfl
  by_cases member : timer ∈ timing.timers ob
  · have inPlace : (timing.setTimer timer (some stored)).scan timer (timing.timers ob) = none ↔
          ∀ ahead ∈ (timing.timers ob).takeWhile (· ≠ timer),
            timing.tSched ahead ≤ (ticks + ival).toNat := by
      rw [scan_eq_none_iff member, newTime]
      refine forall₂_congr fun ahead aheadMember => ?_
      have different : ahead ≠ timer := by simpa using List.mem_takeWhile_imp aheadMember
      rw [tSched_setTimer_of_ne different]
    rw [← inPlace]
    cases scanned : (timing.setTimer timer (some stored)).scan timer (timing.timers ob) with
    | none =>
      rw [reinsert_of_met nodup scanned]
      exact iff_of_true moved fun _ => rfl
    | some inserted =>
      rw [reinsert_of_placed scanned]
      refine iff_of_false (fun broken => ?_) (by simp [member])
      -- The timer occurs both at its old place and at its new one.
      have twice : inserted.Nodup := by
        have listed := broken.nodup ob
        simpa using listed
      rw [(scan_perm scanned).nodup_iff, List.nodup_cons] at twice
      exact twice.1 member
  · rw [reinsert_of_not_mem member]
    rw [Timing.requeue, List.erase_of_not_mem member] at moved
    exact iff_of_true moved fun inList => absurd inList member

theorem resetTimer_invariant {timing : Timing} {timer : TimerRef}
    (invariant : timing.QueueInvariant) (taken : timing.resetTimer p timer ticks ival = .ok next) :
    next.QueueInvariant := by
  unfold resetTimer at taken
  dsimp only at taken
  generalize p.getD agTimerMgr = ob at taken
  split at taken
  case h_1 => cases taken
  case h_2 entry known =>
    split at taken
    case isFalse => cases taken
    case isTrue member =>
      cases taken
      have owned := (invariant.linked ob timer).mpr member
      have owner : entry.obj = some ob := by simpa [objOf, known] using owned
      have moved :=
        invariant.requeue ob timer
          { entry with tSched := ticks + ival, ival := ival }
          owner (.inr owned)
      rwa [Timing.requeue, if_neg] at moved
      simpa using List.ne_nil_of_mem member

theorem delTimer_invariant {timing : Timing} (invariant : timing.QueueInvariant) (p : Option ObjRef)
    (timer : TimerRef) : (timing.delTimer p timer).QueueInvariant := by
  unfold delTimer
  dsimp only
  generalize p.getD agTimerMgr = ob
  split
  case isFalse => exact invariant
  case isTrue member =>
    generalize entryAfter : ((timing.entries timer).bind fun entry =>
          if entry.flags &&& timerAutoFree ≠ 0 then none
          else some { entry with id := -1, obj := none }) = stored
    have storedUnowned : stored.bind Timer.obj = none := by
      rw [← entryAfter, Option.bind_assoc]
      cases timing.entries timer with
      | none => rfl
      | some entry =>
        rw [Option.bind_some]
        split <;> rfl
    have owned := (invariant.linked ob timer).mpr member
    have nodup := invariant.nodup ob
    refine .of_nodup ?_ ?_ ?_ ?_
    · intro other moved
      change (timing.setTimer timer stored).objOf moved = some other ↔
          moved ∈ Function.update timing.timers ob _ other
      rw [objOf_setTimer]
      by_cases same : moved = timer
      · subst moved
        rw [if_pos rfl, storedUnowned]
        refine iff_of_false (by simp) fun inList => ?_
        by_cases here : other = ob
        · subst other
          rw [Function.update_self] at inList
          exact nodup.not_mem_erase inList
        · rw [Function.update_of_ne here] at inList
          exact here (invariant.noOther ob other timer owned inList)
      · rw [if_neg same, invariant.linked]
        by_cases here : other = ob
        · subst other
          rw [Function.update_self, nodup.mem_erase_iff]
          simp [same]
        · rw [Function.update_of_ne here]
    · intro other
      change (Function.update timing.timers ob _ other).Nodup
      by_cases here : other = ob
      · subst other
        rw [Function.update_self]
        exact nodup.erase timer
      · rw [Function.update_of_ne here]
        exact invariant.nodup other
    · intro other
      change (Function.update timing.timers ob _ other).Pairwise _
      by_cases here : other = ob
      · subst other
        rw [Function.update_self]
        exact ordered_setTimer nodup.not_mem_erase
          ((invariant.ordered ob).sublist List.erase_sublist)
      · rw [Function.update_of_ne here]
        exact ordered_setTimer (fun inList => here (invariant.noOther ob other timer owned inList))
          (invariant.ordered other)
    · intro other
      change (if ((timing.timers ob).erase timer).isEmpty then
            timing.timerObjQ.erase ob
          else timing.timerObjQ).count other =
          if Function.update timing.timers ob _ other = [] then 0 else 1
      have before := invariant.queued other
      by_cases here : other = ob
      · subst other
        rw [if_neg (List.ne_nil_of_mem member)] at before
        rw [Function.update_self]
        split
        case isTrue empty =>
          rw [List.isEmpty_iff] at empty
          rw [if_pos empty, List.count_erase_self, before]
        case isFalse nonempty =>
          rw [List.isEmpty_iff] at nonempty
          rw [if_neg nonempty, before]
      · rw [Function.update_of_ne here, ← before]
        split
        · exact List.count_erase_of_ne here
        · rfl

theorem delTimer_timers {timing : Timing} {ob : ObjRef} {timer : TimerRef} {rest : List TimerRef}
    (first : timing.timers ob = timer :: rest) :
    (timing.delTimer (some ob) timer).timers ob = rest := by
  simp [delTimer, first]

theorem delTimers_loop {timing : Timing} (invariant : timing.QueueInvariant) (ob : ObjRef) :
    ((timing.timers ob).foldl (fun timing timer => timing.delTimer (some ob) timer)
        timing).QueueInvariant ∧
      ((timing.timers ob).foldl (fun timing timer => timing.delTimer (some ob) timer)
        timing).timers ob = [] := by
  generalize listed : timing.timers ob = queue
  induction queue generalizing timing with
  | nil => exact ⟨invariant, listed⟩
  | cons timer rest ih =>
    rw [List.foldl_cons]
    exact ih (delTimer_invariant invariant (some ob) timer) (delTimer_timers listed)

theorem delTimers_invariant {timing : Timing} (invariant : timing.QueueInvariant) (ob : ObjRef) :
    (timing.delTimers ob).QueueInvariant := by
  obtain ⟨looped, emptied⟩ := delTimers_loop invariant ob
  rw [delTimers, setTimers]
  rwa [← emptied, Function.update_eq_self]

theorem step_exact {timing : Timing} {op : TimerOp} (invariant : timing.QueueInvariant)
    (taken : timing.step op = some next) : next.QueueInvariant ↔ timing.RearmsInPlace op := by
  cases op with
  | initTimer timer name flags =>
    simp only [step] at taken
    split at taken
    case isTrue free =>
      cases taken
      refine iff_of_true (invariant.setTimer_unowned ?_ rfl) trivial
      simp [objOf, free]
    case isFalse => cases taken
  | addTimer p timer ticks ival fn => exact addTimer_exact invariant (toOption_eq_some.mp taken)
  | resetTimer p timer ticks ival =>
    exact iff_of_true (resetTimer_invariant invariant (toOption_eq_some.mp taken)) trivial
  | delTimer p timer =>
    cases taken
    exact iff_of_true (delTimer_invariant invariant p timer) trivial
  | delTimers ob =>
    cases taken
    exact iff_of_true (delTimers_invariant invariant ob) trivial

end Timing

/--
A sequence of timer operations keeps the queue invariant in every state it
reaches exactly when each `AG_AddTimer` of a running timer gives it a time at
which no entry ahead of it is still to expire.
-/
theorem timerQueue_invariant_iff {ops : List TimerOp} {final : Timing}
    (completes : run Timing.step .initial ops = some final) :
    AlwaysAlong Timing.step Timing.QueueInvariant .initial ops ↔
      EachStep Timing.step Timing.RearmsInPlace .initial ops := by
  refine alwaysAlong_iff_eachStep (fun _ => True)
    (fun _ _ _ _ _ _ => trivial) ?_ trivial Timing.QueueInvariant.initial
    (eachStep_true _ ops) completes
  intro timing op next _ invariant _ taken
  exact Timing.step_exact invariant taken

theorem timerQueue_invariant_iff_postponed : AlwaysAlong Timing.step Timing.QueueInvariant .initial
      [.initTimer 1 [] 0, .initTimer 2 [] 0,
        .addTimer (some 5) 1 100 10 0, .addTimer (some 5) 2 100 20 0,
        .addTimer (some 5) 2 100 15 0] := by
  have completes : (run Timing.step .initial [.initTimer 1 [] 0, .initTimer 2 [] 0,
          .addTimer (some 5) 1 100 10 0, .addTimer (some 5) 2 100 20 0,
          .addTimer (some 5) 2 100 15 0]).isSome :=
    rfl
  obtain ⟨final, reached⟩ := Option.isSome_iff_exists.mp completes
  refine (timerQueue_invariant_iff reached).mpr ?_
  refine ⟨trivial, fun _ taken => ?_⟩
  cases taken
  refine ⟨trivial, fun _ taken => ?_⟩
  cases taken
  refine ⟨?_, fun _ taken => ?_⟩
  · simp [Timing.RearmsInPlace, Timing.initTimer, Timing.initial]
  cases taken
  refine ⟨?_, fun _ taken => ?_⟩
  · simp [Timing.RearmsInPlace, Timing.initTimer, Timing.initial,
      Timing.reinsert_of_not_mem, insertAfterEqual]
  cases taken
  refine ⟨?_, fun _ _ => trivial⟩
  simp [Timing.RearmsInPlace, Timing.initTimer, Timing.initial,
    Timing.setTimer, Timing.setTimers, Timing.reinsert_of_not_mem,
    insertAfterEqual, Timing.tSched]

theorem timerQueue_links_twice : ¬ AlwaysAlong Timing.step Timing.QueueInvariant .initial
      [.initTimer 1 [] 0, .initTimer 2 [] 0,
        .addTimer (some 5) 1 100 10 0, .addTimer (some 5) 2 100 20 0,
        .addTimer (some 5) 2 100 5 0] := by
  intro along
  have reached := ((((along.2 _ rfl).2 _ rfl).2 _ rfl).2 _ rfl).2 _ rfl
  have once := reached.once 5 2 rfl
  simp [Timing.initTimer, Timing.initial, Timing.setTimer, Timing.setTimers,
    Timing.reinsert, Timing.scan, Timing.tSched] at once

end Agar.Core
