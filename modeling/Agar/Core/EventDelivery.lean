import Agar.Core.Object

namespace Agar.Core

open Agar.Lib

/-!
# Delivery of events

What posting, scheduling, forwarding and propagating an event asks for: calls
of handler functions, threads, and the propagation to the children of an
object.  Carrying out everything that is asked for gives the calls in the
order in which they are made; the calls of a thread are listed where the
thread is created.

What the handler functions do is code of the application; the handlers and
the tree stay as they are while an event is delivered.
-/

/--
What reading a member of `union ag_variable_data` gives where another kind of
member was stored last.
-/
structure Punning where
  pointer : Data → Pointer
  text : Data → Option (List UInt8)

/-- An `AG_Event` on the list of an object -/
structure HandlerRef where
  object : ObjRef
  index : Nat
  deriving Repr, DecidableEq

/-- What the functions of this module ask for. -/
inductive Service where
  /-- Call a handler function with an event. -/
  | call (handler : HandlerRef) (fn : FnRef) (ev : Event)
  /-- Start `EventThread` with an event. -/
  | thread (handler : HandlerRef) (ev : Event)
  /-- `PropagateEvent` -/
  | propagate (sndr rcvr : ObjRef) (ev : Event)
  deriving DecidableEq

/-- A call of a handler function. -/
structure Invocation where
  handler : HandlerRef
  fn : FnRef
  ev : Event
  deriving DecidableEq

/-- The `AG_TimerFn` that is `EventTimeout` -/
def eventTimeoutFn : TimerFn := 0

/-- Call a handler function, if there is one. -/
def invoke (handler : HandlerRef) (fn : Option FnRef) (ev : Event) : List Service :=
  match fn with
  | none => []
  | some fn => [.call handler fn ev]

/-- `PropagateEvent` for every child of an object -/
def propagateTo (children : List ObjRef) (rcvr : ObjRef) (ev : Event) : List Service :=
  children.map fun chld => .propagate rcvr chld ev

/-- The handlers that an event name selects, with their places on the list. -/
def handlersNamed (evname : List UInt8) (events : List Event) : List (Event × Nat) :=
  events.zipIdx.filter fun (ev, _) => ev.name.bytes = evname

theorem getElem?_of_handlersNamed {evname : List UInt8} {events : List Event}
    {handler : Event × Nat} (listed : handler ∈ handlersNamed evname events) :
    events[handler.2]? = some handler.1 ∧ handler.1.name.bytes = evname := by
  obtain ⟨member, named⟩ := List.mem_filter.mp listed
  exact ⟨List.mem_zipIdx_iff_getElem?.mp member, by simpa using named⟩

/--
What `AG_PostEvent` does at a handler for the event, with the event that the
handler gets.
-/
def servePosted (build : Build) (rcvr : ObjRef) (children : List ObjRef) (propagated : Bool)
    (handler : Event × Nat) (tmpev : Event) : List Service :=
  if handler.1.async build then
    let evNew :=
      if propagated || tmpev.propagate then
        { tmpev with flags := tmpev.flags &&& ~~~eventPropagate }
      else tmpev
    [.thread ⟨rcvr, handler.2⟩ evNew]
  else
    let forwarded :=
      if tmpev.propagate && !propagated then propagateTo children rcvr tmpev else []
    forwarded ++ invoke ⟨rcvr, handler.2⟩ tmpev.fn tmpev

/-- The loop of `AG_PostEvent` over the handlers for the event -/
def postTo (build : Build) (sndr : Pointer) (rcvr : ObjRef) (children : List ObjRef)
    (fmt : Option (List UInt8)) (ap : List VaArg)
    (propagated : Bool) : List (Event × Nat) → Except Stop (List Service)
  | [] => return []
  | handler :: rest => do
      let given ← handler.1.getArgs build fmt ap
      let tmpev ← given.initPointerArg given.argc sndr
      let later ← postTo build sndr rcvr children fmt ap (propagated || tmpev.propagate) rest
      return servePosted build rcvr children propagated handler tmpev ++ later

/-- The turn of the loop of `AG_ForwardEvent` at a handler for the event -/
def forwardTo (build : Build) (sndr rcvr : ObjRef) (children : List ObjRef) (event : Event)
    (handler : Event × Nat) : Except Stop (List Service) := do
  let (ev, index) := handler
  if ev.async build then
    let evNew ← ev.initPointerArg 0 (some rcvr)
    let evNew ← evNew.initPointerArg evNew.argc (some sndr)
    return [.thread ⟨rcvr, index⟩ evNew]
  else
    let tmpev ← event.initPointerArg 0 (some rcvr)
    let tmpev ← tmpev.initPointerArg tmpev.argc (some sndr)
    let forwarded :=
      if ev.propagate then propagateTo children rcvr ev else []
    return forwarded ++ invoke ⟨rcvr, index⟩ ev.fn tmpev

/-- `AG_PTR` -/
def argPtr (build : Build) (punning : Punning) (arg : Arg) : Except Stop Pointer :=
  if build.debug ∧ arg.type ≠ .pointer then .error .fatal
  else
    match arg.data with
    | .p pointer | .Cp pointer => .ok pointer
    | other => .ok (punning.pointer other)

/-- `AG_STRING` -/
def argString (build : Build) (punning : Punning) (arg : Arg) : Except Stop (Option (List UInt8)) :=
  if build.debug ∧ arg.type ≠ .string then .error .fatal
  else
    match arg.data with
    | .s text | .Cs text => .ok text
    | other => .ok (punning.text other)

/--
The loop of `EventTimeout`: the first handler with a name.  Nothing is
compared where there are no handlers.
-/
def firstHandler (eventName : Option (List UInt8))
    (events : List Event) : Except Stop (Option (Event × Nat)) :=
  match events, eventName with
  | [], _ => .ok none
  | _, none => .error .undefined
  | events, some evname => .ok (handlersNamed evname events).head?

/--
What `AG_AddTimer` stores in `to->fnEvent`, where the memory held some event
before.
-/
def addTimerEvent (build : Build) (memory : Event) (ob : ObjRef) (fmt : Option (List UInt8))
    (ap : List VaArg) : Except Stop Event := do
  let initialised ← memory.initEvent none
  let ev ← (initialised.setSelf (some ob)).getArgs build fmt ap
  return { ev with argc0 := ev.argc }

namespace World

/-- `AG_PostEvent` -/
def postEvent (w : World) (build : Build) (sndr : Pointer) (rcvr : ObjRef) (evname : List UInt8)
    (fmt : Option (List UInt8)) (ap : List VaArg) : Except Stop (List Service) := do
  let entry ← w.object rcvr
  postTo build sndr rcvr entry.children fmt ap false (handlersNamed evname entry.events)

/-- `AG_ForwardEvent` -/
def forwardEvent (w : World) (build : Build) (sndr rcvr : ObjRef)
    (event : Event) : Except Stop (List Service) := do
  let entry ← w.object rcvr
  collect (forwardTo build sndr rcvr entry.children event)
    (handlersNamed event.name.bytes entry.events)

/-- `PropagateEvent` -/
def propagateEvent (w : World) (build : Build) (sndr rcvr : ObjRef)
    (ev : Event) : Except Stop (List Service) := do
  let entry ← w.object rcvr
  let forwarded ← w.forwardEvent build sndr rcvr ev
  return propagateTo entry.children rcvr ev ++ forwarded

/-- `EventThread` -/
def eventThread (w : World) (handler : HandlerRef) (eev : Event) : Except Stop (List Service) := do
  if eev.propagate then
    match eev.self.data with
    | .p (some rcvr) => do
        let entry ← w.object rcvr
        return propagateTo entry.children rcvr eev ++ invoke handler eev.fn eev
    | _ => .error .undefined
  else return invoke handler eev.fn eev

/--
`AG_SchedEvent`, at a given reading of `AG_GetTicks`; `allocated` is the memory
for the timer, with what it held before.
-/
def schedEvent (w : World) (build : Build) (allocated : Option (TimerRef × Event)) (now : UInt32)
    (sndr : Pointer) (rcvr : ObjRef) (ticks : UInt32) (evname : List UInt8)
    (fmt : Option (List UInt8)) (ap : List VaArg) : Except Stop (Int × World) :=
  match allocated with
  | none => return (-1, w)
  | some (timer, memory) => do
      let initialised := w.timing.initTimer timer evname timerAutoFree
      let timing ← initialised.addTimer (some rcvr) timer now ticks eventTimeoutFn
      let added ← addTimerEvent build memory rcvr (some (ascii "%p,%s"))
        [.pointer sndr, .string (some evname)]
      let initialised ← added.initEvent none
      let ev ← (initialised.setSelf (some rcvr)).getArgs build fmt ap
      return (0,
        { w with
          timing := timing
          fnEvents := Function.update w.fnEvents timer (some { ev with argc0 := ev.argc }) })

/--
`EventTimeout`: the world with the sender stored in the handler, and what is
asked for.  It returns 0 in every case.
-/
def eventTimeout (w : World) (build : Build) (punning : Punning)
    (event : Event) : Except Stop (World × List Service) := do
  let self ← argPtr build punning event.self.arg
  let obSender ← argPtr build punning event.argv[1].arg
  let eventName ← argString build punning event.argv[2].arg
  match self with
  | none => .error .undefined
  | some ob => do
      let entry ← w.object ob
      match ← firstHandler eventName entry.events with
      | none => return (w, [])
      | some (handler, index) => do
          let ev ← handler.initPointerArg handler.argc obSender
          let forwarded :=
            if ev.propagate then propagateTo entry.children ob ev else []
          return (w.setObject ob
              { entry with events := entry.events.set index ev },
            forwarded ++ invoke ⟨ob, index⟩ ev.fn ev)

/-- A timer expires: its callback is called with its arguments. -/
def expire (w : World) (build : Build) (punning : Punning)
    (timer : TimerRef) : Except Stop (World × List Service) :=
  match (w.timing.entries timer).bind Timer.fn, w.fnEvents timer with
  | some fn, some event =>
    if fn = eventTimeoutFn then w.eventTimeout build punning event else .error .undefined
  | _, _ => .error .undefined

/-- Carry out what is asked for: the calls that are made. -/
def carryOut (w : World) (build : Build) : Nat → Service → Except Stop (List Invocation)
  | _, .call handler fn ev => return [⟨handler, fn, ev⟩]
  | 0, _ => .error .outOfFuel
  | fuel + 1, .thread handler ev => do
      collect (w.carryOut build fuel) (← w.eventThread handler ev)
  | fuel + 1, .propagate sndr rcvr ev => do
      collect (w.carryOut build fuel) (← w.propagateEvent build sndr rcvr ev)

end World

/-! ## The event that a handler gets -/

/-- The event of a handler, with the posted arguments after its own. -/
structure PostedTo (ev : Event) (posted : List Arg) (tmpev : Event) : Prop where
  name : tmpev.name = ev.name
  propagate : tmpev.propagate = ev.propagate
  fn : tmpev.fn = ev.fn
  argc : tmpev.argc = ev.argc + posted.length
  args : tmpev.args = ev.args ++ posted

variable {fmt : Option (List UInt8)} {ap : List VaArg} {posted : List Arg}

theorem postTo_cons {build : Build} {sndr : Pointer} {rcvr : ObjRef} {children : List ObjRef}
    {propagated : Bool} {handler : Event × Nat} {rest : List (Event × Nat)}
    {services : List Service} (described : Event.described fmt ap = .ok posted)
    (asked : postTo build sndr rcvr children fmt ap propagated (handler :: rest) = .ok services) :
    ∃ tmpev later, PostedTo handler.1 posted tmpev ∧ postTo build sndr rcvr children fmt ap
        (propagated || handler.1.propagate) rest = .ok later ∧
      services = servePosted build rcvr children propagated handler tmpev ++ later := by
  obtain ⟨given, pushed, afterPushed⟩ := bind_eq_ok.mp asked
  obtain ⟨tmpev, sender, afterSender⟩ := bind_eq_ok.mp afterPushed
  obtain ⟨later, askedRest, joined⟩ := bind_eq_ok.mp afterSender
  obtain ⟨_, same, pushed⟩ := Event.getArgs_given pushed
  cases described.symm.trans same
  obtain ⟨readdressed, _⟩ := Event.initPointerArg_sender sender
  have isPosted : PostedTo handler.1 posted tmpev :=
    { name := readdressed.name.trans pushed.name
      propagate := by rw [Event.propagate, readdressed.flags, pushed.flags, Event.propagate]
      fn := readdressed.fn.trans pushed.fn
      argc := readdressed.argc.trans pushed.argc
      args := readdressed.args.trans pushed.args }
  rw [isPosted.propagate] at askedRest
  exact ⟨tmpev, later, isPosted, askedRest, (pure_eq_ok.mp joined).symm⟩

theorem postTo_of_fits {handlers : List (Event × Nat)}
    (described : Event.described fmt ap = .ok posted) (build : Build) (sndr : Pointer)
    (rcvr : ObjRef) (children : List ObjRef) (propagated : Bool)
    (fit : ∀ handler ∈ handlers, handler.1.argc + posted.length < eventArgsMax) :
    ∃ services, postTo build sndr rcvr children fmt ap propagated handlers = .ok services := by
  induction handlers generalizing propagated with
  | nil => exact ⟨[], rfl⟩
  | cons handler rest ih =>
    have fitHere := fit handler List.mem_cons_self
    obtain ⟨given, pushed⟩ := Event.getArgs_of_fits described build fitHere
    obtain ⟨_, same, isGiven⟩ := Event.getArgs_given pushed
    cases described.symm.trans same
    rw [← isGiven.argc] at fitHere
    have sender := Event.initPointerArg_of_inside fitHere given sndr
    obtain ⟨later, askedRest⟩ := ih _ fun other listed => fit other (List.mem_cons_of_mem _ listed)
    exact ⟨_, bind_eq_ok.mpr ⟨given, pushed, bind_eq_ok.mpr
      ⟨_, sender, bind_eq_ok.mpr ⟨later, askedRest, rfl⟩⟩⟩⟩

theorem postEvent_of_fits {w : World} {rcvr : ObjRef} {entry : Object}
    (described : Event.described fmt ap = .ok posted) (build : Build) (sndr : Pointer)
    (stored : w.objects rcvr = some entry) (evname : List UInt8)
    (fit : ∀ handler ∈ handlersNamed evname entry.events,
        handler.1.argc + posted.length < eventArgsMax) :
    ∃ services, w.postEvent build sndr rcvr evname fmt ap = .ok services := by
  obtain ⟨services, asked⟩ := postTo_of_fits described build sndr rcvr entry.children false fit
  exact ⟨services, bind_eq_ok.mpr ⟨entry, World.object_eq_ok.mpr stored, asked⟩⟩

end Agar.Core
