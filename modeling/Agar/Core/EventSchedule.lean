import Agar.Core.EventPropagation

namespace Agar.Core

open Agar.Lib

/-!
# Scheduled events

Whether the timer of `AG_SchedEvent` asks, when it expires, for what
`AG_PostEvent` with the same arguments would ask for then.

The timer keeps the arguments that are given with the event where
`EventTimeout` expects the sender and the name of the event.  `EventTimeout`
gives them to no handler, serves the first handler for the event only, and
never in a thread.
-/

/-- A handler that asks for nothing. -/
structure Idle (build : Build) (children : List ObjRef) (propagated : Bool)
    (ev : Event) : Prop where
  sync : ev.async build = false
  noFn : ev.fn = none
  quiet : ev.propagate = true → propagated = true ∨ children = []

/--
The events that a timer delivers as a post would.  Without arguments, the
first handler for the event runs in no thread and the others ask for nothing.
With arguments, a post asks for nothing, and neither does the handler that the
timer finds: it takes the first argument for the sender and the second for the
name of the event.
-/
def DelayedFaithfully (build : Build) (punning : Punning) (entry : Object)
    (evname : List UInt8) : List Arg → Prop
  | [] =>
    ∀ first others, handlersNamed evname entry.events = first :: others →
      first.1.async build = false ∧ ∀ other ∈ others,
          Idle build entry.children first.1.propagate other.1
  | first :: others =>
    (∀ handler ∈ handlersNamed evname entry.events, Idle build entry.children false handler.1) ∧
    ∃ sender name found, argPtr build punning first = .ok sender ∧ argString build punning
        (others.headD ⟨emptyName, .string, .s (some evname)⟩) = .ok name ∧
      firstHandler name entry.events = .ok found ∧
      ∀ handler, found = some handler → handler.1.argc < eventArgsMax ∧ handler.1.fn = none ∧
          (handler.1.propagate = true → entry.children = [])

/-! ## The event of the timer -/

/-- The arguments that `AG_SchedEvent` gives to its timer. -/
def timerArgs (sndr : Pointer) (evname : List UInt8) : List Arg :=
  [⟨emptyName, .pointer, .p sndr⟩, ⟨emptyName, .string, .s (some evname)⟩]

theorem described_timerArgs (sndr : Pointer) (evname : List UInt8) :
    Event.described (some (ascii "%p,%s"))
      [.pointer sndr, .string (some evname)] = .ok (timerArgs sndr evname) := by
  have percent : Event.nextConversion (ascii "%p,%s") = some (.skip, ascii "p,%s") := by decide
  have pointer : Event.nextConversion (ascii "p,%s") = some (.p, ascii ",%s") := by decide
  have comma : Event.nextConversion (ascii ",%s") = some (.skip, ascii "%s") := by decide
  have percentAgain : Event.nextConversion (ascii "%s") = some (.skip, ascii "s") := by decide
  have string : Event.nextConversion (ascii "s") = some (.s, []) := by decide
  have none : Event.describedFrom [] [] = .ok [] := by rw [Event.describedFrom]
  have afterComma : Event.describedFrom (ascii "s") [.string (some evname)] =
        .ok [⟨emptyName, .string, .s (some evname)⟩] :=
    (Event.describedFrom_cons string _).trans
      (bind_eq_ok.mpr ⟨_, rfl, bind_eq_ok.mpr ⟨_, none, rfl⟩⟩)
  have fromComma : Event.describedFrom (ascii ",%s") [.string (some evname)] =
        .ok [⟨emptyName, .string, .s (some evname)⟩] := by
    refine (Event.describedFrom_cons comma _).trans ?_
    exact (Event.describedFrom_cons percentAgain _).trans afterComma
  refine (Event.describedFrom_cons percent _).trans ?_
  exact (Event.describedFrom_cons pointer _).trans
    (bind_eq_ok.mpr ⟨_, rfl, bind_eq_ok.mpr ⟨_, fromComma, rfl⟩⟩)

variable {build : Build} {fmt : Option (List UInt8)} {ap : List VaArg}

theorem setUp_argv {memory initialised ev : Event} {p ob : Pointer} {given : List Arg}
    (isInitialised : memory.initEvent p = .ok initialised)
    (described : Event.described fmt ap = .ok given)
    (pushed : (initialised.setSelf ob).getArgs build fmt ap = .ok ev) :
    ev.self.arg = ⟨emptyName, .pointer, .p ob⟩ ∧ ∀ index, (ev.argv[index + 1]?).map Variable.arg =
          if index < given.length then given[index]?
          else
            (memory.argv[index + 1]?).map Variable.arg := by
  obtain ⟨_, same, pushed⟩ := Event.getArgs_given pushed
  cases described.symm.trans same
  obtain ⟨one, first, kept⟩ := Event.initEvent_eq_ok isInitialised
  obtain ⟨self, others⟩ := Event.setSelf_argv initialised ob
  have oneAgain : (initialised.setSelf ob).argc = 1 := one
  constructor
  · have sameSelf := pushed.kept 0 (.inl (by omega))
    have inside : 0 < eventArgsMax := by decide
    rw [Vector.getElem?_eq_getElem inside, Vector.getElem?_eq_getElem inside,
      Option.some_inj] at sameSelf
    rw [Event.self, sameSelf, self, first]
  · intro index
    split
    case isTrue inside => rw [← pushed.added index inside, oneAgain, Nat.add_comm]
    case isFalse outside =>
      rw [pushed.kept _ (.inr (by omega)), others _ (Nat.succ_pos index),
        kept _ (Nat.succ_pos index)]

variable {timer : TimerRef}

theorem addTimer_fn {timing added : Timing} {p : Option ObjRef} {now ticks : UInt32}
    {fn : TimerFn} (isAdded : timing.addTimer p timer now ticks fn = .ok added) :
    (added.entries timer).bind Timer.fn = some fn := by
  unfold Timing.addTimer at isAdded
  dsimp only at isAdded
  split at isAdded
  · cases isAdded
  · split at isAdded
    · cases isAdded
    · cases isAdded
      simp [Timing.setTimers, Timing.setTimer]

theorem schedEvent_fnEvents {w after : World} {memory : Event} {now ticks : UInt32}
    {sndr : Pointer} {rcvr : ObjRef} {evname : List UInt8} {posted : List Arg} {code : Int}
    (described : Event.described fmt ap = .ok posted)
    (scheduled : w.schedEvent build (some (timer, memory)) now sndr rcvr ticks evname fmt
        ap = .ok (code, after)) :
    (after.timing.entries timer).bind Timer.fn = some eventTimeoutFn ∧ ∃ event,
        after.fnEvents timer = some event ∧ event.self.arg = ⟨emptyName, .pointer, .p (some rcvr)⟩ ∧
        event.argv[1].arg = posted.headD ⟨emptyName, .pointer, .p sndr⟩ ∧
        event.argv[2].arg = posted.tail.headD ⟨emptyName, .string, .s (some evname)⟩ := by
  obtain ⟨timing, added, afterTiming⟩ := bind_eq_ok.mp scheduled
  obtain ⟨addedEvent, timerAdded, afterAdded⟩ := bind_eq_ok.mp afterTiming
  obtain ⟨again, initialised, afterInit⟩ := bind_eq_ok.mp afterAdded
  obtain ⟨event, pushed, finished⟩ := bind_eq_ok.mp afterInit
  obtain ⟨first, isFirst, afterFirst⟩ := bind_eq_ok.mp timerAdded
  obtain ⟨beforeArgc, given, isAddedEvent⟩ := bind_eq_ok.mp afterFirst
  cases isAddedEvent
  cases finished
  refine ⟨addTimer_fn added, _, Function.update_self .., ?_⟩
  obtain ⟨_, under⟩ := setUp_argv isFirst (described_timerArgs sndr evname) given
  obtain ⟨self, args⟩ := setUp_argv initialised described pushed
  have atIndex (index : Nat) (inside : index + 1 < eventArgsMax)
      (inTimer : index < (timerArgs sndr evname).length) :
      some event.argv[index + 1].arg = if index < posted.length then
          posted[index]?
        else
          (timerArgs sndr evname)[index]? := by
    have found := args index
    rw [Vector.getElem?_eq_getElem inside] at found
    refine found.trans ?_
    rw [under index, if_pos inTimer]
  have first := atIndex 0 (by decide) Nat.two_pos
  have second := atIndex 1 (by decide) Nat.one_lt_two
  refine ⟨self, Option.some.inj (first.trans ?_), Option.some.inj (second.trans ?_)⟩
  · cases posted <;> rfl
  · rcases posted with _ | ⟨sender, _ | ⟨name, others⟩⟩ <;> simp [timerArgs]

theorem setUp_of_fits {given : List Arg} (described : Event.described fmt ap = .ok given)
    (build : Build) (memory : Event) (p ob : Pointer) (fit : given.length + 1 < eventArgsMax) :
    ∃ initialised ev, memory.initEvent p = .ok initialised ∧
      (initialised.setSelf ob).getArgs build fmt ap = .ok ev := by
  obtain ⟨initialised, isInitialised⟩ := Event.exists_initEvent memory p
  have one : (initialised.setSelf ob).argc = 1 := (Event.initEvent_eq_ok isInitialised).1
  obtain ⟨ev, pushed⟩ := Event.getArgs_of_fits described build
    (show (initialised.setSelf ob).argc + given.length < eventArgsMax by omega)
  exact ⟨initialised, ev, isInitialised, pushed⟩

theorem schedEvent_of_fits {posted : List Arg} (described : Event.described fmt ap = .ok posted)
    (fit : posted.length + 1 < eventArgsMax) (w : World) (build : Build) (timer : TimerRef)
    (memory : Event) (now ticks : UInt32) (sndr : Pointer) (rcvr : ObjRef) (evname : List UInt8) :
    ∃ after, w.schedEvent build (some (timer, memory)) now sndr rcvr ticks evname fmt
          ap = .ok (0, after) ∧
        after.objects = w.objects := by
  obtain ⟨timing, added⟩ : ∃ timing,
        (w.timing.initTimer timer evname timerAutoFree).addTimer (some rcvr)
          timer now ticks eventTimeoutFn = .ok timing := by
    simp [Timing.addTimer, Timing.initTimer, Timing.setTimer]
  have timerFits : (timerArgs sndr evname).length + 1 < eventArgsMax := by
    change 3 < 16
    decide
  obtain ⟨first, stored, isFirst, given⟩ :=
    setUp_of_fits (described_timerArgs sndr evname) build memory none (some rcvr) timerFits
  obtain ⟨second, event, isSecond, pushed⟩ :=
    setUp_of_fits described build { stored with argc0 := stored.argc } none (some rcvr) fit
  exact ⟨_, bind_eq_ok.mpr ⟨timing, added, bind_eq_ok.mpr
    ⟨_, bind_eq_ok.mpr ⟨first, isFirst, bind_eq_ok.mpr ⟨stored, given, rfl⟩⟩,
      bind_eq_ok.mpr ⟨second, isSecond, bind_eq_ok.mpr ⟨event, pushed, rfl⟩⟩⟩⟩,
    rfl⟩

/-! ## What a post asks for -/

/-- The event of a service. -/
def Service.event : Service → Event
  | .call _ _ ev => ev
  | .thread _ ev => ev
  | .propagate _ _ ev => ev

section Posting

variable {build : Build} {sndr : Pointer} {rcvr : ObjRef}
  {children : List ObjRef} {fmt : Option (List UInt8)} {ap : List VaArg}
  {posted : List Arg} {propagated : Bool} {handlers : List (Event × Nat)}
  {services : List Service}

theorem servePosted_eq_nil_iff {handler : Event × Nat} {tmpev : Event}
    (isPosted : PostedTo handler.1 posted tmpev) :
    servePosted build rcvr children propagated handler tmpev = [] ↔
      Idle build children propagated handler.1 := by
  unfold servePosted
  rw [isPosted.propagate, isPosted.fn]
  constructor
  · intro nothing
    split at nothing
    case isTrue => cases nothing
    case isFalse sync =>
      obtain ⟨noRelay, noCall⟩ := List.append_eq_nil_iff.mp nothing
      refine ⟨Bool.not_eq_true _ ▸ sync, ?_, fun propagates => ?_⟩
      · cases fn : handler.1.fn with
        | none => rfl
        | some fn =>
          rw [fn] at noCall
          cases noCall
      · rw [propagates, Bool.true_and] at noRelay
        cases propagated with
        | true => exact .inl rfl
        | false => exact .inr (List.map_eq_nil_iff.mp noRelay)
  · rintro ⟨sync, noFn, quiet⟩
    rw [if_neg (by rw [sync]; decide), noFn]
    refine List.append_eq_nil_iff.mpr ⟨?_, rfl⟩
    split
    case isTrue relays =>
      obtain ⟨propagates, notPropagated⟩ := Bool.and_eq_true_iff.mp relays
      rcases quiet propagates with already | childless
      · rw [already] at notPropagated
        cases notPropagated
      · rw [childless]
        rfl
    case isFalse => rfl

theorem Idle.after {ev other : Event} (idle : Idle build children propagated ev) :
    Idle build children (propagated || ev.propagate) other ↔
      Idle build children propagated other := by
  have sameQuiet : ((propagated || ev.propagate) = true ∨ children = []) ↔
        (propagated = true ∨ children = []) := by
    cases propagates : ev.propagate with
    | true =>
      have settled := idle.quiet propagates
      simp [settled]
    | false => rw [Bool.or_false]
  constructor
  · rintro ⟨sync, noFn, quiet⟩
    exact ⟨sync, noFn, fun propagates => sameQuiet.mp (quiet propagates)⟩
  · rintro ⟨sync, noFn, quiet⟩
    exact ⟨sync, noFn, fun propagates => sameQuiet.mpr (quiet propagates)⟩

theorem postTo_eq_nil_iff (described : Event.described fmt ap = .ok posted)
    (asked : postTo build sndr rcvr children fmt ap propagated handlers = .ok services) :
    services = [] ↔ ∀ handler ∈ handlers, Idle build children propagated handler.1 := by
  induction handlers generalizing propagated services with
  | nil =>
    cases asked
    simp
  | cons handler rest ih =>
    obtain ⟨tmpev, later, isPosted, askedRest, rfl⟩ := postTo_cons described asked
    rw [List.append_eq_nil_iff, servePosted_eq_nil_iff isPosted, ih askedRest, List.forall_mem_cons]
    refine and_congr_right fun idle => ?_
    simp only [idle.after]

theorem postTo_event (described : Event.described fmt ap = .ok posted)
    (asked : postTo build sndr rcvr children fmt ap propagated handlers = .ok services)
    {service : Service} (member : service ∈ services) :
    ∃ handler ∈ handlers, service.event.name = handler.1.name ∧
      service.event.argc = handler.1.argc + posted.length ∧
      ∀ place fn ev, service = .call place fn ev → place = ⟨rcvr, handler.2⟩ := by
  induction handlers generalizing propagated services with
  | nil =>
    cases asked
    cases member
  | cons handler rest ih =>
    obtain ⟨tmpev, later, isPosted, askedRest, rfl⟩ := postTo_cons described asked
    rcases List.mem_append.mp member with inServed | inLater
    · refine ⟨handler, List.mem_cons_self, ?_⟩
      unfold servePosted at inServed
      split at inServed
      · rw [List.mem_singleton.mp inServed]
        refine ⟨?_, ?_, ?_⟩
        · rw [← isPosted.name, Service.event]
          split <;> rfl
        · rw [← isPosted.argc, Service.event]
          split <;> rfl
        · intro _ _ _ same
          cases same
      · rcases List.mem_append.mp inServed with relay | call
        · split at relay
          · obtain ⟨chld, _, rfl⟩ := List.mem_map.mp relay
            refine ⟨isPosted.name, isPosted.argc, ?_⟩
            intro _ _ _ same
            cases same
          · cases relay
        · cases fn : tmpev.fn with
          | none =>
            rw [fn] at call
            cases call
          | some fn =>
            rw [fn] at call
            rw [List.mem_singleton.mp call]
            refine ⟨isPosted.name, isPosted.argc, ?_⟩
            intro _ _ _ same
            cases same
            rfl
    · obtain ⟨other, listed, found⟩ := ih askedRest inLater
      exact ⟨other, List.mem_cons_of_mem _ listed, found⟩

end Posting

/-! ## What the timer asks for -/

/-- What `EventTimeout` asks for at the handler that it finds. -/
def serveTimeout (rcvr : ObjRef) (children : List ObjRef) (index : Nat)
    (ev : Event) : List Service :=
  (if ev.propagate then propagateTo children rcvr ev else []) ++ invoke ⟨rcvr, index⟩ ev.fn ev

theorem expire_eq_ok {w : World} {punning : Punning} {event : Event} {rcvr : ObjRef}
    {entry : Object} {asked : List Service}
    (isTimeout : (w.timing.entries timer).bind Timer.fn = some eventTimeoutFn)
    (hasEvent : w.fnEvents timer = some event)
    (self : event.self.arg = ⟨emptyName, .pointer, .p (some rcvr)⟩)
    (stored : w.objects rcvr = some entry) :
    (∃ after, w.expire build punning timer = .ok (after, asked)) ↔ ∃ sender name found,
        argPtr build punning event.argv[1].arg = .ok sender ∧
        argString build punning event.argv[2].arg = .ok name ∧
        firstHandler name entry.events = .ok found ∧
        match found with
        | none => asked = []
        | some handler =>
          ∃ ev, handler.1.initPointerArg handler.1.argc sender = .ok ev ∧
            asked = serveTimeout rcvr entry.children handler.2 ev := by
  have isSelf : argPtr build punning event.self.arg = .ok (some rcvr) := by
    rw [self]
    simp [argPtr]
  have found : w.object rcvr = .ok entry := World.object_eq_ok.mpr stored
  unfold World.expire
  rw [isTimeout, hasEvent]
  simp only [if_true]
  unfold World.eventTimeout
  rw [isSelf]
  constructor
  · rintro ⟨after, expired⟩
    obtain ⟨_, same, afterSelf⟩ := bind_eq_ok.mp expired
    cases same
    obtain ⟨sender, isSender, afterSender⟩ := bind_eq_ok.mp afterSelf
    obtain ⟨name, isName, afterName⟩ := bind_eq_ok.mp afterSender
    obtain ⟨again, storedAgain, afterObject⟩ := bind_eq_ok.mp afterName
    cases found.symm.trans storedAgain
    obtain ⟨handler, isFirst, finished⟩ := bind_eq_ok.mp afterObject
    refine ⟨sender, name, handler, isSender, isName, isFirst, ?_⟩
    cases handler with
    | none =>
      cases finished
      rfl
    | some handler =>
      obtain ⟨ev, addressed, returned⟩ := bind_eq_ok.mp finished
      cases returned
      exact ⟨ev, addressed, rfl⟩
  · rintro ⟨sender, name, handler, isSender, isName, isFirst, served⟩
    cases handler with
    | none =>
      refine ⟨w, bind_eq_ok.mpr ⟨_, rfl, bind_eq_ok.mpr ⟨_, isSender, ?_⟩⟩⟩
      refine bind_eq_ok.mpr ⟨_, isName, bind_eq_ok.mpr ⟨_, found, ?_⟩⟩
      exact bind_eq_ok.mpr ⟨_, isFirst, by rw [served]; rfl⟩
    | some handler =>
      obtain ⟨ev, addressed, rfl⟩ := served
      refine ⟨w.setObject rcvr
          { entry with events := entry.events.set handler.2 ev },
        bind_eq_ok.mpr ⟨_, rfl, bind_eq_ok.mpr ⟨_, isSender, ?_⟩⟩⟩
      refine bind_eq_ok.mpr ⟨_, isName, bind_eq_ok.mpr ⟨_, found, ?_⟩⟩
      exact bind_eq_ok.mpr ⟨_, isFirst, bind_eq_ok.mpr ⟨ev, addressed, rfl⟩⟩

theorem not_thread_of_serveTimeout {rcvr : ObjRef} {children : List ObjRef} {index : Nat}
    {ev event : Event} {handler : HandlerRef} :
    .thread handler event ∉ serveTimeout rcvr children index ev := by
  intro member
  rcases List.mem_append.mp member with relay | call
  · split at relay
    · obtain ⟨_, _, same⟩ := List.mem_map.mp relay
      cases same
    · cases relay
  · cases fn : ev.fn with
    | none =>
      rw [fn] at call
      cases call
    | some fn =>
      rw [fn] at call
      cases List.mem_singleton.mp call

theorem serveTimeout_eq_nil_iff {rcvr : ObjRef} {children : List ObjRef} {index : Nat}
    {ev : Event} :
    serveTimeout rcvr children index ev = [] ↔
      ev.fn = none ∧ (ev.propagate = true → children = []) := by
  unfold serveTimeout
  rw [List.append_eq_nil_iff, and_comm]
  refine and_congr ?_ ?_
  · cases ev.fn <;> simp [invoke]
  · cases ev.propagate <;> simp [propagateTo]

theorem firstHandler_some (evname : List UInt8) (events : List Event) :
    firstHandler (some evname) events = .ok (handlersNamed evname events).head? := by
  cases events <;> rfl

theorem argPtr_pointer (build : Build) (punning : Punning) (name : CString variableNameMax)
    (pointer : Pointer) : argPtr build punning ⟨name, .pointer, .p pointer⟩ = .ok pointer := by
  simp [argPtr]

theorem argString_string (build : Build) (punning : Punning) (name : CString variableNameMax)
    (text : Option (List UInt8)) : argString build punning ⟨name, .string, .s text⟩ = .ok text := by
  simp [argString]

theorem firstHandler_mem {name : Option (List UInt8)} {events : List Event} {handler : Event × Nat}
    (found : firstHandler name events = .ok (some handler)) :
    ∃ evname, name = some evname ∧ (handlersNamed evname events).head? = some handler := by
  cases name with
  | none => cases events <;> cases found
  | some evname =>
    rw [firstHandler_some] at found
    exact ⟨evname, rfl, Except.ok.inj found⟩

section Comparison

variable {build : Build} {punning : Punning} {sndr : Pointer} {rcvr : ObjRef}
  {entry : Object} {evname : List UInt8} {fmt : Option (List UInt8)}
  {ap : List VaArg} {posted : List Arg} {services : List Service}

theorem serveTimeout_eq_services_iff {first : Event × Nat} {others : List (Event × Nat)}
    {ev : Event} (described : Event.described fmt ap = .ok [])
    (addressed : first.1.initPointerArg first.1.argc sndr = .ok ev)
    (asked : postTo build sndr rcvr entry.children fmt ap false (first :: others) = .ok services) :
    services = serveTimeout rcvr entry.children first.2 ev ↔ first.1.async build = false ∧
        ∀ other ∈ others, Idle build entry.children first.1.propagate other.1 := by
  obtain ⟨given, pushed, afterPushed⟩ := bind_eq_ok.mp asked
  rw [Event.getArgs_of_described_nil described] at pushed
  cases pushed
  obtain ⟨again, sender, afterSender⟩ := bind_eq_ok.mp afterPushed
  cases addressed.symm.trans sender
  obtain ⟨later, askedRest, joined⟩ := bind_eq_ok.mp afterSender
  cases joined
  have samePropagate : ev.propagate = first.1.propagate := by
    rw [Event.propagate, (Event.initPointerArg_sender sender).1.flags, Event.propagate]
  rw [Bool.false_or, samePropagate] at askedRest
  rw [← postTo_eq_nil_iff described askedRest]
  unfold servePosted
  split
  case isTrue async =>
    constructor
    · intro same
      have thread := List.mem_append_left later (List.mem_singleton_self
        (Service.thread ⟨rcvr, first.2⟩ (if false || ev.propagate then
            { ev with flags := ev.flags &&& ~~~eventPropagate }
          else ev)))
      rw [same] at thread
      exact absurd thread not_thread_of_serveTimeout
    · rintro ⟨sync, _⟩
      rw [sync] at async
      cases async
  case isFalse sync =>
    rw [Bool.not_false, Bool.and_true]
    constructor
    · intro same
      exact ⟨Bool.not_eq_true _ ▸ sync, List.append_right_eq_self.mp same⟩
    · rintro ⟨_, nothing⟩
      rw [nothing, List.append_nil]
      rfl

theorem services_eq_nil_of_serveTimeout {handler : Event × Nat} {name : List UInt8}
    {sender : Pointer} {ev : Event} (described : Event.described fmt ap = .ok posted)
    (given : posted ≠ []) (isFirst : (handlersNamed name entry.events).head? = some handler)
    (addressed : handler.1.initPointerArg handler.1.argc sender = .ok ev)
    (asked : postTo build sndr rcvr entry.children fmt ap false
        (handlersNamed evname entry.events) = .ok services)
    (same : services = serveTimeout rcvr entry.children handler.2 ev) : services = [] := by
  obtain ⟨readdressed, _⟩ := Event.initPointerArg_sender addressed
  have positive := List.length_pos_of_ne_nil given
  have listed := List.mem_of_mem_head? (Option.mem_def.mpr isFirst)
  cases relays : (if ev.propagate then
      propagateTo entry.children rcvr ev
    else
      []) with
  | nil =>
    rw [serveTimeout, relays, List.nil_append] at same
    cases hasFn : ev.fn with
    | none =>
      rw [same, hasFn]
      rfl
    | some fn =>
      -- The call has the place of the handler, but more arguments.
      rw [hasFn] at same
      have called : Service.call ⟨rcvr, handler.2⟩ fn ev ∈ services := by
        rw [same]
        exact List.mem_singleton_self _
      obtain ⟨other, otherListed, _, argc, place⟩ := postTo_event described asked called
      have samePlace : handler.2 = other.2 := congrArg HandlerRef.index (place _ _ _ rfl)
      have atPlace := (getElem?_of_handlersNamed listed).1
      have atOther := (getElem?_of_handlersNamed otherListed).1
      rw [← samePlace, atPlace, Option.some_inj] at atOther
      rw [Service.event, readdressed.argc, ← atOther] at argc
      omega
  | cons relay relayed =>
    have propagates : ev.propagate = true := by
      rw [← Bool.not_eq_false]
      intro quiet
      rw [quiet] at relays
      cases relays
    rw [if_pos propagates] at relays
    obtain ⟨chld, rest, children, rfl, _⟩ := List.map_eq_cons_iff.mp relays
    rw [serveTimeout, if_pos propagates, propagateTo, children] at same
    have asks : Service.propagate rcvr chld ev ∈ services := by
      rw [same]
      exact List.mem_cons_self
    -- The event has the name that was posted, so its handler is the first.
    obtain ⟨other, otherListed, sameName, _⟩ := postTo_event described asked asks
    have named : name = evname := by
      rw [← (getElem?_of_handlersNamed listed).2,
        ← (getElem?_of_handlersNamed otherListed).2, ← sameName,
        Service.event, readdressed.name]
    subst named
    obtain ⟨others, handlers⟩ := List.head?_eq_some_iff.mp isFirst
    rw [handlers] at asked
    obtain ⟨tmpev, later, isPosted, _, joined⟩ := postTo_cons described asked
    have handlerPropagates : handler.1.propagate = true := by
      rw [Event.propagate, ← readdressed.flags]
      exact propagates
    rw [same] at joined
    unfold servePosted at joined
    split at joined
    · cases joined
    · rw [isPosted.propagate, handlerPropagates, Bool.not_false, Bool.and_true,
        if_pos rfl, propagateTo, children] at joined
      obtain ⟨sameEvent, _⟩ := List.cons.inj joined
      cases sameEvent
      have argc := isPosted.argc
      rw [readdressed.argc] at argc
      omega

end Comparison

/--
A timer that expires asks for what a post of the same event would ask for then
exactly when the event has no arguments, its first handler runs in no thread
and the others ask for nothing, or when both ask for nothing.
-/
theorem expire_eq_postEvent_iff {before after later : World} {build : Build} {punning : Punning}
    {timer : TimerRef} {memory : Event} {now ticks : UInt32} {sndr : Pointer} {rcvr : ObjRef}
    {entry : Object} {evname : List UInt8} {fmt : Option (List UInt8)} {ap : List VaArg}
    {posted : List Arg} {services : List Service} {code : Int}
    (described : Event.described fmt ap = .ok posted)
    (scheduled : before.schedEvent build (some (timer, memory)) now sndr rcvr ticks evname
        fmt ap = .ok (code, after))
    (sameTimer : later.timing.entries timer = after.timing.entries timer)
    (sameEvent : later.fnEvents timer = after.fnEvents timer)
    (stored : later.objects rcvr = some entry)
    (asked : later.postEvent build sndr rcvr evname fmt ap = .ok services) :
    (∃ world, later.expire build punning timer = .ok (world, services)) ↔
      DelayedFaithfully build punning entry evname posted := by
  obtain ⟨isTimeout, event, hasEvent, self, firstArg, secondArg⟩ :=
    schedEvent_fnEvents described scheduled
  rw [← sameTimer] at isTimeout
  rw [← sameEvent] at hasEvent
  obtain ⟨again, storedAgain, asked⟩ := bind_eq_ok.mp asked
  cases stored.symm.trans (World.object_eq_ok.mp storedAgain)
  rw [expire_eq_ok isTimeout hasEvent self stored, firstArg, secondArg]
  cases posted with
  | nil =>
    constructor
    · rintro ⟨_, _, _, isSender, isName, isFirst, served⟩ first others handlers
      cases (argPtr_pointer ..).symm.trans isSender
      cases (argString_string ..).symm.trans isName
      cases (firstHandler_some ..).symm.trans isFirst
      rw [handlers] at served asked
      obtain ⟨ev, addressed, same⟩ := served
      exact (serveTimeout_eq_services_iff described addressed asked).mp same
    · intro faithful
      refine ⟨sndr, some evname, _, argPtr_pointer .., argString_string ..,
        firstHandler_some .., ?_⟩
      cases handlers : handlersNamed evname entry.events with
      | nil =>
        rw [handlers] at asked
        cases asked
        rfl
      | cons first others =>
        rw [handlers] at asked
        obtain ⟨given, pushed, afterPushed⟩ := bind_eq_ok.mp asked
        rw [Event.getArgs_of_described_nil described] at pushed
        cases pushed
        obtain ⟨ev, addressed, _⟩ := bind_eq_ok.mp afterPushed
        exact ⟨ev, addressed, (serveTimeout_eq_services_iff described addressed asked).mpr
            (faithful first others handlers)⟩
  | cons sender others =>
    constructor
    · rintro ⟨pointer, name, found, isSender, isName, isFirst, served⟩
      have nothing : services = [] := by
        cases found with
        | none => exact served
        | some handler =>
          obtain ⟨ev, addressed, same⟩ := served
          obtain ⟨text, _, isHead⟩ := firstHandler_mem isFirst
          exact services_eq_nil_of_serveTimeout described
            (List.cons_ne_nil _ _) isHead addressed asked same
      refine ⟨(postTo_eq_nil_iff described asked).mp nothing,
        pointer, name, found, isSender, isName, isFirst, ?_⟩
      rintro handler rfl
      obtain ⟨ev, addressed, same⟩ := served
      obtain ⟨inside, _⟩ := Event.initPointerArg_eq_ok.mp addressed
      obtain ⟨readdressed, _⟩ := Event.initPointerArg_sender addressed
      obtain ⟨noFn, quiet⟩ := serveTimeout_eq_nil_iff.mp (same.symm.trans nothing)
      refine ⟨inside, readdressed.fn.symm.trans noFn, fun propagates => ?_⟩
      refine quiet ?_
      rw [Event.propagate, readdressed.flags]
      exact propagates
    · rintro ⟨idle, pointer, name, found, isSender, isName, isFirst, served⟩
      refine ⟨pointer, name, found, isSender, isName, isFirst, ?_⟩
      have nothing := (postTo_eq_nil_iff described asked).mpr idle
      cases found with
      | none => exact nothing
      | some handler =>
        obtain ⟨inside, noFn, quiet⟩ := served handler rfl
        refine ⟨_, Event.initPointerArg_eq_ok.mpr ⟨inside, rfl⟩, ?_⟩
        refine nothing.trans (Eq.symm ?_)
        exact serveTimeout_eq_nil_iff.mpr ⟨noFn, quiet⟩

theorem expire_eq_postEvent_iff_child : ∃ after services,
      (parentAndChild none).schedEvent ⟨true, true⟩
          (some (0, resizeHandler 0 0 0 none)) 100 (some 0) 1 10
          (ascii "resize") none [] = .ok (0, after) ∧
        after.postEvent ⟨true, true⟩ (some 0) 1 (ascii "resize") none [] = .ok services ∧
        ((∃ world, after.expire ⟨true, true⟩ ⟨fun _ => none, fun _ => none⟩ 0 =
              .ok (world, services)) ↔
          DelayedFaithfully ⟨true, true⟩ ⟨fun _ => none, fun _ => none⟩
            (withHandler (resizeHandler 1 0 8 none) (some 0) [])
            (ascii "resize") []) := by
  have described : Event.described none [] = .ok [] := rfl
  obtain ⟨after, scheduled, same⟩ := schedEvent_of_fits described (by decide)
    (parentAndChild none) ⟨true, true⟩ 0 (resizeHandler 0 0 0 none) 100 10
    (some 0) 1 (ascii "resize")
  have stored : after.objects 1 = some (withHandler (resizeHandler 1 0 8 none) (some 0) []) := by
    rw [same]
    rfl
  obtain ⟨services, asked⟩ := postEvent_of_fits described ⟨true, true⟩ (some 0)
    stored (ascii "resize") (by decide)
  exact ⟨after, services, scheduled, asked,
    expire_eq_postEvent_iff described scheduled rfl rfl stored asked⟩

theorem expire_loses_argument : ∃ after services, (parentAndChild none).schedEvent ⟨false, false⟩
          (some (0, resizeHandler 0 0 0 none)) 100 (some 0) 1 10
          (ascii "resize") (some (ascii "i")) [.int 5] = .ok (0, after) ∧
        after.postEvent ⟨false, false⟩ (some 0) 1 (ascii "resize")
          (some (ascii "i")) [.int 5] = .ok services ∧
        ¬ ∃ world, after.expire ⟨false, false⟩ ⟨fun _ => none, fun _ => none⟩ 0 =
            .ok (world, services) := by
  have described := Event.described_int 5
  obtain ⟨after, scheduled, same⟩ := schedEvent_of_fits described (by decide)
    (parentAndChild none) ⟨false, false⟩ 0 (resizeHandler 0 0 0 none) 100 10
    (some 0) 1 (ascii "resize")
  have stored : after.objects 1 = some (withHandler (resizeHandler 1 0 8 none) (some 0) []) := by
    rw [same]
    rfl
  obtain ⟨services, asked⟩ := postEvent_of_fits described ⟨false, false⟩
    (some 0) stored (ascii "resize") (by decide)
  refine ⟨after, services, scheduled, asked, fun expires => ?_⟩
  obtain ⟨isTimeout, event, hasEvent, self, _, _⟩ := schedEvent_fnEvents described scheduled
  obtain ⟨_, name, found, _, _, isFirst, served⟩ :=
    (expire_eq_ok isTimeout hasEvent self stored).mp expires
  obtain ⟨again, storedAgain, asked⟩ := bind_eq_ok.mp asked
  cases stored.symm.trans (World.object_eq_ok.mp storedAgain)
  have nothing : services = [] := by
    cases found with
    | none => exact served
    | some handler =>
      obtain ⟨ev, addressed, same⟩ := served
      obtain ⟨text, _, isHead⟩ := firstHandler_mem isFirst
      exact services_eq_nil_of_serveTimeout described
        (List.cons_ne_nil _ _) isHead addressed asked same
  have idle := (postTo_eq_nil_iff described asked).mp nothing
    (resizeHandler 1 0 8 none, 0) (by decide)
  cases idle.noFn

end Agar.Core
