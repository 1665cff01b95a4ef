import Agar.Core.Variable
import Agar.Lib.OrderedInsert

namespace Agar.Core

open Agar.Lib

/-!
# Timers

The software timers: every object has a list of running timers, ordered by
expiration time, and `agTimerObjQ` lists the objects that have any.  The event
source provides no timers of its own (`caps[AG_SINK_TIMER]` is 0 and
`addTimerFn` and `delTimerFn` are `NULL`), so these lists are all there is.

A timer that is inserted while it is still linked occurs twice in the list
here; the list that the source then links is no longer a list.
-/

/-- An `AG_Timer *` -/
abbrev TimerRef := Nat

/-- An `AG_TimerFn` -/
abbrev TimerFn := Nat

/-- `AG_TIMER_AUTO_FREE` -/
def timerAutoFree : UInt32 := 0x02

/-- `AG_TIMER_NAME_MAX` -/
abbrev timerNameMax : Nat := 16

instance : NeZero timerNameMax := ⟨by decide⟩

/-- `struct ag_timer`, without the arguments of its callback -/
structure Timer where
  name : CString timerNameMax
  id : Int
  obj : Option ObjRef
  flags : UInt32
  tSched : UInt32
  ival : UInt32
  fn : Option TimerFn
  deriving DecidableEq

/-- `&agTimerMgr` -/
def agTimerMgr : ObjRef := 0

/--
The timers: the allocated `AG_Timer` structures, the list `timers` of every
object, and `agTimerObjQ`.
-/
structure Timing where
  entries : TimerRef → Option Timer
  timers : ObjRef → List TimerRef
  timerObjQ : List ObjRef

/-- No timer is allocated and no object has any. -/
def Timing.initial : Timing where
  entries _ := none
  timers _ := []
  timerObjQ := []

namespace Timing

/-- The expiration time of a timer. -/
def tSched (timing : Timing) (timer : TimerRef) : Nat :=
  match timing.entries timer with
  | none => 0
  | some entry => entry.tSched.toNat

/-- Store an `AG_Timer` structure. -/
def setTimer (timing : Timing) (timer : TimerRef) (entry : Option Timer) : Timing :=
  { timing with entries := Function.update timing.entries timer entry }

/-- Store the list of running timers of an object. -/
def setTimers (timing : Timing) (ob : ObjRef) (queue : List TimerRef) : Timing :=
  { timing with timers := Function.update timing.timers ob queue }

/-- `AG_InitTimer` -/
def initTimer (timing : Timing) (timer : TimerRef) (name : List UInt8) (flags : UInt32) : Timing :=
  timing.setTimer timer <| some
    { name := .strlcpy name
      id := -1
      obj := none
      flags := flags
      tSched := 0
      ival := 0
      fn := none }

/--
One pass of the insertion loop of `AG_AddTimer`: `none` when it meets the
timer itself before a place for it.
-/
def scan (timing : Timing) (timer : TimerRef) : List TimerRef → Option (List TimerRef)
  | [] => some [timer]
  | toOther :: rest =>
    if toOther = timer then none
    else if timing.tSched timer < timing.tSched toOther then some (timer :: toOther :: rest)
    else (timing.scan timer rest).map (toOther :: ·)

theorem mem_of_scan_none {timing : Timing} {timer : TimerRef} {queue : List TimerRef}
    (met : timing.scan timer queue = none) : timer ∈ queue := by
  induction queue with
  | nil => cases met
  | cons toOther rest ih =>
    rw [scan] at met
    split at met
    case isTrue same =>
      rw [same]
      exact List.mem_cons_self
    case isFalse =>
      split at met
      · cases met
      · exact List.mem_cons_of_mem _ (ih (Option.map_eq_none_iff.mp met))

/-- The loop `reinsert:` of `AG_AddTimer` -/
def reinsert (timing : Timing) (timer : TimerRef) (queue : List TimerRef) : List TimerRef :=
  match _ : timing.scan timer queue with
  | some inserted => inserted
  | none => timing.reinsert timer (queue.erase timer)
termination_by queue.length
decreasing_by
  have member : timer ∈ queue := mem_of_scan_none ‹_›
  have positive := List.length_pos_of_mem member
  rw [List.length_erase_of_mem member]
  omega

/-- `AG_AddTimer`, at a given reading of `AG_GetTicks` -/
def addTimer (timing : Timing) (p : Option ObjRef) (timer : TimerRef) (ticks ival : UInt32)
    (fn : TimerFn) : Except Stop Timing :=
  let ob := p.getD agTimerMgr
  match timing.entries timer with
  | none => .error .undefined
  | some entry =>
    if entry.obj ≠ none ∧ entry.obj ≠ some ob then .error .fatal
    else
      let timerObjQ :=
        if (timing.timers ob).isEmpty then timing.timerObjQ ++ [ob] else timing.timerObjQ
      let scheduled := timing.setTimer timer <| some
        { entry with obj := some ob, tSched := ticks + ival, ival := ival, id := 0, fn := some fn }
      let queue := scheduled.reinsert timer (timing.timers ob)
      .ok { scheduled.setTimers ob queue with timerObjQ := timerObjQ }

/--
`AG_ResetTimer`, at a given reading of `AG_GetTicks`.  The timer must be
running, since it is unlinked from the list of the object unchecked.
-/
def resetTimer (timing : Timing) (p : Option ObjRef) (timer : TimerRef)
    (ticks ival : UInt32) : Except Stop Timing :=
  let ob := p.getD agTimerMgr
  match timing.entries timer with
  | none => .error .undefined
  | some entry =>
    if timer ∈ timing.timers ob then
      let scheduled := timing.setTimer timer <| some
        { entry with tSched := ticks + ival, ival := ival }
      let queue := insertAfterEqual scheduled.tSched timer ((timing.timers ob).erase timer)
      .ok (scheduled.setTimers ob queue)
    else .error .undefined

/-- `AG_DelTimer` -/
def delTimer (timing : Timing) (p : Option ObjRef) (timer : TimerRef) : Timing :=
  let ob := p.getD agTimerMgr
  if timer ∈ timing.timers ob then
    let queue := (timing.timers ob).erase timer
    let entry := (timing.entries timer).bind fun entry =>
      if entry.flags &&& timerAutoFree ≠ 0 then none else some { entry with id := -1, obj := none }
    { (timing.setTimer timer entry).setTimers ob queue with
      timerObjQ :=
        if queue.isEmpty then timing.timerObjQ.erase ob else timing.timerObjQ }
  else timing

/-- `AG_DelTimers` -/
def delTimers (timing : Timing) (ob : ObjRef) : Timing :=
  ((timing.timers ob).foldl
      (fun timing timer => timing.delTimer (some ob) timer) timing).setTimers ob []

end Timing

end Agar.Core
