import Agar.Core.EventPropagation

namespace Agar.Core

open Agar.Lib

/-!
# Room for the arguments of an event

The arguments of a handler are stored in two stages: those of `AG_SetEvent` or
`AG_AddEvent` first, those of `AG_PostEvent` behind them, and the sender last.
The array has sixteen elements, and only debug builds compare the count with
that before they store an argument.
-/

namespace Event

/-! ## What a format asks for -/

/--
The arguments that a format asks for, and whether it ends without a specifier
that is unknown.
-/
@[ext] structure Asked where
  count : Nat
  ends : Bool
  deriving Repr, DecidableEq

/-- One more argument is asked for. -/
def Asked.more (asked : Asked) : Asked := { asked with count := asked.count + 1 }

/-- The specifiers of a format, up to one that is unknown -/
def askedFrom (fmt : List UInt8) : Asked :=
  match fmt with
  | [] => ⟨0, true⟩
  | first :: more =>
    match _ : nextConversion (first :: more) with
    | none => ⟨0, false⟩
    | some (conversion, rest) =>
      if conversion = .skip then askedFrom rest else (askedFrom (nextName rest).2).more
termination_by fmt.length
decreasing_by
  · exact nextConversion_shorter ‹_›
  · exact Nat.lt_of_le_of_lt (nextName_length_le rest) (nextConversion_shorter ‹_›)

/-- The arguments that are asked for along with an event. -/
def asked : Option (List UInt8) → Asked
  | none => ⟨0, true⟩
  | some fmt => askedFrom fmt

theorem askedFrom_cons {first : UInt8} {more rest : List UInt8} {conversion : Conversion}
    (found : nextConversion (first :: more) = some (conversion, rest)) :
    askedFrom (first :: more) = if conversion = .skip then
        askedFrom rest
      else
        (askedFrom (nextName rest).2).more := by
  rw [askedFrom]
  split
  · simp_all
  case h_2 same =>
    cases found.symm.trans same
    rfl

theorem Conversion.fetch_outcome {conversion : Conversion} {ap : List VaArg}
    (matching : conversion.fetch ap ≠ .error .undefined) :
    (conversion = .skip ∧ conversion.fetch ap = .ok (none, ap)) ∨ (conversion ≠ .skip ∧
        ∃ arg later, conversion.fetch ap = .ok (some arg, later)) := by
  cases conversion
  case skip => exact .inl ⟨rfl, rfl⟩
  all_goals
    refine .inr ⟨Conversion.noConfusion, ?_⟩
    rcases ap with _ | ⟨_ | _, _⟩
  all_goals first
    | exact ⟨_, _, rfl⟩
    | exact absurd rfl matching

/-! ## Storing arguments -/

/-- How many arguments a build stores, the object among them. -/
def room (build : Build) : Nat :=
  if build.debug then eventArgsMax - 1 else eventArgsMax

/-- How a build stops when there is no room for an argument. -/
def overflow (build : Build) : Stop :=
  if build.debug then .fatal else .undefined

theorem room_cases (build : Build) : (build.debug = true ∧ room build + 1 = eventArgsMax ∧
        overflow build = .fatal) ∨
      (build.debug = false ∧ room build = eventArgsMax ∧ overflow build = .undefined) := by
  unfold room overflow
  cases build.debug with
  | false => exact .inr ⟨rfl, rfl, rfl⟩
  | true => exact .inl ⟨rfl, rfl, rfl⟩

variable {build : Build} {ev : Event}

theorem pushArg_of_room (available : ev.argc + 1 ≤ room build) (arg : Arg) : ∃ pushed,
      ev.pushArg build arg = .ok pushed ∧ pushed.argc = ev.argc + 1 := by
  have inside : ev.argc < eventArgsMax := by
    obtain ⟨_, size, _⟩ | ⟨_, size, _⟩ := room_cases build <;> omega
  have unchecked : ¬(build.debug ∧ ev.argc ≥ eventArgsMax - 1) := by
    rintro ⟨isDebug, full⟩
    rw [room, if_pos isDebug] at available
    omega
  unfold pushArg
  rw [if_neg unchecked, dif_pos inside]
  exact ⟨_, rfl, rfl⟩

theorem pushArg_of_full (full : room build < ev.argc + 1) (arg : Arg) :
    ev.pushArg build arg = .error (overflow build) := by
  unfold pushArg
  obtain ⟨isDebug, size, stop⟩ | ⟨notDebug, size, stop⟩ := room_cases build
  · rw [stop, if_pos ⟨isDebug, by omega⟩]
  · rw [stop, notDebug, if_neg (fun both => Bool.false_ne_true both.1), dif_neg (by omega)]

/--
What comes of pushing the arguments that a format asks for: all are stored, or
the format is refused, or there is no room for one of them.
-/
def Taken (build : Build) (ev : Event) (asked : Asked) (result : Except Stop Event) : Prop :=
  if ev.argc + asked.count ≤ room build then
    if asked.ends then ∃ after, result = .ok after ∧ after.argc = ev.argc + asked.count
    else result = .error .fatal
  else result = .error (overflow build)

theorem taken_nothing (within : ev.argc ≤ room build) : ev.Taken build ⟨0, true⟩ (.ok ev) := by
  unfold Taken
  rw [if_pos (show ev.argc + 0 ≤ room build from within), if_pos rfl]
  exact ⟨ev, rfl, rfl⟩

theorem taken_unknown (within : ev.argc ≤ room build) :
    ev.Taken build ⟨0, false⟩ (.error .fatal) := by
  unfold Taken
  rw [if_pos (show ev.argc + 0 ≤ room build from within), if_neg Bool.false_ne_true]

theorem Taken.more {pushed : Event} {asked : Asked} {result : Except Stop Event}
    (argc : pushed.argc = ev.argc + 1) (taken : pushed.Taken build asked result) :
    ev.Taken build asked.more result := by
  have sameCount : ev.argc + asked.more.count = pushed.argc + asked.count := by
    rw [argc]
    exact Nat.add_right_comm ev.argc asked.count 1
  unfold Taken at taken ⊢
  rwa [sameCount]

private theorem getArgsFrom_taken (build : Build) {fmt : List UInt8} {ap : List VaArg}
    (matching : describedFrom fmt ap ≠ .error .undefined) (within : ev.argc ≤ room build) :
    ev.Taken build (askedFrom fmt) (ev.getArgsFrom build fmt ap) := by
  induction ev, fmt, ap using getArgsFrom.induct with
  | case1 ev ap =>
    rw [getArgsFrom, askedFrom]
    exact taken_nothing within
  | case2 ev ap first more unknown =>
    have isUnknown : askedFrom (first :: more) = ⟨0, false⟩ := by
      rw [askedFrom]
      split <;> simp_all
    have isRefused : ev.getArgsFrom build (first :: more) ap = .error .fatal := by
      rw [getArgsFrom]
      split <;> simp_all
    rw [isUnknown, isRefused]
    exact taken_unknown within
  | case3 ev ap first more conversion rest found skipped named =>
    rw [describedFrom_cons found] at matching
    rw [getArgsFrom_cons found, askedFrom_cons found]
    have fetches : conversion.fetch ap ≠ .error .undefined := by
      intro failed
      rw [failed] at matching
      exact matching rfl
    obtain ⟨isSkip, fetched⟩ | ⟨notSkip, arg, later, fetched⟩ := Conversion.fetch_outcome fetches
    · rw [fetched] at matching ⊢
      rw [if_pos isSkip]
      exact skipped ap matching within
    · rw [fetched] at matching ⊢
      rw [if_neg notSkip]
      have laterMatching : describedFrom (nextName rest).2 later ≠ .error .undefined := by
        intro failed
        refine matching ?_
        change (describedFrom (nextName rest).2 later >>= _) = _
        rw [failed]
        rfl
      by_cases available : ev.argc + 1 ≤ room build
      · obtain ⟨pushed, stored, argc⟩ := pushArg_of_room available ⟨(nextName rest).1, arg.1, arg.2⟩
        refine Taken.more argc ?_
        change pushed.Taken build _ (ev.pushArg build _ >>= _)
        rw [stored]
        exact named later pushed laterMatching (argc ▸ available)
      · have full := Nat.lt_of_not_le available
        have noRoom : ¬ ev.argc + (askedFrom (nextName rest).2).more.count ≤ room build := by
          intro fits
          refine available (Nat.le_trans ?_ fits)
          exact Nat.add_le_add_left (Nat.le_add_left 1 _) ev.argc
        rw [Taken, if_neg noRoom]
        change (ev.pushArg build _ >>= _) = _
        rw [pushArg_of_full full]
        rfl

theorem getArgs_taken (build : Build) {fmt : Option (List UInt8)} {ap : List VaArg}
    (matching : described fmt ap ≠ .error .undefined) (within : ev.argc ≤ room build) :
    ev.Taken build (asked fmt) (ev.getArgs build fmt ap) := by
  cases fmt with
  | none => exact taken_nothing within
  | some fmt => exact getArgsFrom_taken build matching within

/-- `AG_EVENT_GET_ARGS`, and what is left of the handler's own arguments -/
def storeArgs (build : Build) (ev : Event) (fmt : Option (List UInt8))
    (ap : List VaArg) : Except Stop Event := do
  let ev ← ev.getArgs build fmt ap
  return { ev with argc0 := ev.argc }

theorem one_le_eventArgsMax : 1 ≤ eventArgsMax := by decide

end Event

/-! ## The handlers of an object -/

/--
`AG_SetEvent`, where the memory for a new handler held some event before.
`AG_SetVoidFn` and its like do the same without a name.
-/
def setEvent (build : Build) (events : List Event) (memory : Event) (ob : ObjRef)
    (name : Option (List UInt8)) (fn : Option FnRef) (fmt : Option (List UInt8))
    (ap : List VaArg) : Except Stop (List Event) :=
  match name.bind fun name => (handlersNamed name events).head? with
  | none => do
      let ev ← memory.initEvent (some ob)
      let named := { ev with name := name.elim emptyName .strlcpy }
      let ev ← named.initPointerArg 0 (some ob)
      let ev ← Event.storeArgs build { ev with fn := fn } fmt ap
      return events ++ [ev]
  | some (found, index) => do
      let emptied :=
        { found with
          argc := 1
          argc0 := 1
          hasSelf := Nat.one_pos
          fits := Event.one_le_eventArgsMax }
      let ev ← Event.initPointerArg emptied 0 (some ob)
      let ev ← Event.storeArgs build { ev with fn := fn } fmt ap
      return events.set index ev

/-- `AG_AddEvent`, where the memory for the handler held some event before -/
def addEvent (build : Build) (events : List Event) (memory : Event) (ob : ObjRef)
    (name : Option (List UInt8)) (fn : Option FnRef) (fmt : Option (List UInt8))
    (ap : List VaArg) : Except Stop (List Event) := do
  let ev ← memory.initEvent (some ob)
  let evOther := name.bind fun name => (handlersNamed name events).head?
  let flagged :=
    { ev with
      name := name.elim emptyName .strlcpy
      flags := evOther.elim ev.flags fun evOther => evOther.1.flags
      fn := fn }
  let ev ← Event.storeArgs build flagged fmt ap
  return events ++ [ev]

/-- `AG_UnsetEvent` -/
def unsetEvent (name : List UInt8) (events : List Event) : List Event :=
  match (handlersNamed name events).head? with
  | none => events
  | some (_, index) => events.eraseIdx index

/--
The handlers that an object can have: none at first, then those that are set,
added, unset, or given other flags.
-/
inductive Configured (build : Build) : List Event → Prop where
  | initial : Configured build []
  | set
      {events after : List Event}
      {memory : Event}
      {ob : ObjRef}
      {name : Option (List UInt8)}
      {fn : Option FnRef}
      {fmt : Option (List UInt8)}
      {ap : List VaArg}
      (configured : Configured build events)
      (sets : setEvent build events memory ob name fn fmt ap = .ok after) :
      Configured build after
  | add
      {events after : List Event}
      {memory : Event}
      {ob : ObjRef}
      {name : Option (List UInt8)}
      {fn : Option FnRef}
      {fmt : Option (List UInt8)}
      {ap : List VaArg}
      (configured : Configured build events)
      (adds : addEvent build events memory ob name fn fmt ap = .ok after) :
      Configured build after
  | unset
      {events : List Event}
      (name : List UInt8)
      (configured : Configured build events) :
      Configured build (unsetEvent name events)
  | flag
      {events : List Event}
      {ev : Event}
      (index : Nat)
      (flags : UInt32)
      (configured : Configured build events)
      (listed : ev ∈ events) :
      Configured build (events.set index { ev with flags := flags })

/--
A handler with no argument but its object is given those of a format, and takes
its place among the others.
-/
def Stores (build : Build) (events : List Event) (fmt : Option (List UInt8)) (ap : List VaArg)
    (result : Except Stop (List Event)) : Prop :=
  ∃ (ev : Event) (place : Event → List Event), ev.argc = 1 ∧
    result = ev.storeArgs build fmt ap >>= (fun stored => pure (place stored)) ∧
    ∀ stored, ∀ other ∈ place stored, other = stored ∨ other ∈ events

variable {build : Build}

variable {fmt : Option (List UInt8)} {ap : List VaArg}

theorem stores_last {events : List Event} {ev : Event} (single : ev.argc = 1) :
    Stores build events fmt ap (ev.storeArgs build fmt ap >>= fun stored =>
        pure (events ++ [stored])) := by
  refine ⟨ev, fun stored => events ++ [stored], single, rfl, ?_⟩
  intro stored other listed
  obtain earlier | last := List.mem_append.mp listed
  · exact .inr earlier
  · exact .inl (List.mem_singleton.mp last)

theorem setEvent_stores (build : Build) (events : List Event) (memory : Event) (ob : ObjRef)
    (name : Option (List UInt8)) (fn : Option FnRef) (fmt : Option (List UInt8)) (ap : List VaArg) :
    Stores build events fmt ap (setEvent build events memory ob name fn fmt ap) := by
  unfold setEvent
  split
  · obtain ⟨ev, initialised⟩ := Event.exists_initEvent memory (some ob)
    have single := (Event.initEvent_eq_ok initialised).1
    rw [initialised]
    exact stores_last single
  case h_2 found index _ =>
    refine ⟨_, fun stored => events.set index stored, ?_, rfl, ?_⟩
    · rfl
    · intro stored other listed
      obtain earlier | placed := List.mem_or_eq_of_mem_set listed
      · exact .inr earlier
      · exact .inl placed

theorem addEvent_stores (build : Build) (events : List Event) (memory : Event) (ob : ObjRef)
    (name : Option (List UInt8)) (fn : Option FnRef) (fmt : Option (List UInt8)) (ap : List VaArg) :
    Stores build events fmt ap (addEvent build events memory ob name fn fmt ap) := by
  obtain ⟨ev, initialised⟩ := Event.exists_initEvent memory (some ob)
  have single := (Event.initEvent_eq_ok initialised).1
  unfold addEvent
  rw [initialised]
  exact stores_last single

theorem Event.storeArgs_argc {ev stored : Event} (within : ev.argc ≤ room build)
    (stores : ev.storeArgs build fmt ap = .ok stored) : stored.argc ≤ room build := by
  obtain ⟨after, pushed, same⟩ := bind_eq_ok.mp stores
  obtain ⟨given, isDescribed, _⟩ := getArgs_given pushed
  have matching : described fmt ap ≠ .error .undefined := by
    rw [isDescribed]
    intro failed
    cases failed
  have taken := getArgs_taken build matching within
  rw [pushed, Taken] at taken
  cases same
  split_ifs at taken with fits ends
  obtain ⟨_, same, argc⟩ := taken
  cases same
  exact argc ▸ fits

theorem one_le_room (build : Build) : 1 ≤ Event.room build := by
  unfold Event.room
  split <;> decide

theorem Stores.within {events after : List Event}
    (stores : Stores build events fmt ap (.ok after))
    (within : ∀ ev ∈ events, ev.argc ≤ Event.room build) :
    ∀ ev ∈ after, ev.argc ≤ Event.room build := by
  obtain ⟨ev, place, single, same, placed⟩ := stores
  obtain ⟨stored, storesArgs, isPlaced⟩ := bind_eq_ok.mp same.symm
  cases isPlaced
  intro other listed
  obtain rfl | earlier := placed stored other listed
  · exact Event.storeArgs_argc (single ▸ one_le_room build) storesArgs
  · exact within other earlier

theorem Configured.within {events : List Event} (configured : Configured build events) :
    ∀ ev ∈ events, ev.argc ≤ Event.room build := by
  induction configured with
  | initial =>
    intro ev listed
    cases listed
  | set configured sets ih => exact (sets ▸ setEvent_stores ..).within ih
  | add configured adds ih => exact (adds ▸ addEvent_stores ..).within ih
  | unset name configured ih =>
    intro ev listed
    unfold unsetEvent at listed
    split at listed
    · exact ih ev listed
    · exact ih ev (List.mem_of_mem_eraseIdx listed)
  | flag index flags configured flagged ih =>
    intro ev listed
    obtain earlier | rfl := List.mem_or_eq_of_mem_set listed
    · exact ih ev earlier
    · have unchanged := ih _ flagged
      exact unchanged

/-! ## Staying in bounds -/

/--
The arguments that a format asks for fit behind those of the handlers, with the
sender.  A format with an unknown specifier is refused at the first handler.
-/
def Event.Asked.Fits (asked : Event.Asked) (handlers : List (Event × Nat)) : Prop :=
  if asked.ends then ∀ handler ∈ handlers, handler.1.argc + asked.count < eventArgsMax
  else ∀ handler ∈ handlers.head?, handler.1.argc + asked.count ≤ eventArgsMax

abbrev ints (count : Nat) : List UInt8 := List.replicate count 105

variable (count : Nat)

end Agar.Core
