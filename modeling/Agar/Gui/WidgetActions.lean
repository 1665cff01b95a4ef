import Agar.Lib.CString

namespace Agar.Gui.Actions

open Agar.Lib

/-!
# Actions of widgets

An action of a widget calls a function or changes a variable.  Events are tied
to it by its name, those of keys and those of mouse buttons in two lists, each
with a function of its own that executes what is tied to an event.
-/

/-! ## The data model -/

/-- `AG_ActionType` -/
inductive ActionType where
  | fn
  | setInt
  | toggleInt
  | setFlag
  | toggleFlag
  deriving Repr, DecidableEq

/-- An `int` or a `Uint` in memory -/
abbrev VarRef := Nat

/-- The `AG_Event` of a function, with the arguments that it was given -/
structure Callback where
  fn : Nat
  fnArgs : List Int
  deriving Repr, DecidableEq

/-- `AG_Action` -/
structure Action where
  type : ActionType
  fn : Option Callback
  p : VarRef
  val : BitVec 32
  bitmask : BitVec 32
  deriving Repr, DecidableEq

/-- `AG_ActionEventType` -/
inductive ActionEventType where
  | onButtonDown
  | onButtonUp
  | onKeyDown
  | onKeyUp
  | onKeyRepeat
  deriving Repr, DecidableEq

/-- The `AG_ActionTie` of a mouse button -/
structure ButtonTie where
  type : ActionEventType
  button : Nat
  action : CString 64
  deriving DecidableEq

/-- The `AG_ActionTie` of a key, with whether its timer is running -/
structure KeyTie where
  type : ActionEventType
  sym : Nat
  mod : BitVec 32
  toRepeat : Bool
  action : CString 64
  deriving DecidableEq

/-- A widget, as far as its actions go; a name is in `actions` once at most -/
structure Widget where
  actions : List (List UInt8 × Action)
  mouseActions : List ButtonTie
  keyActions : List KeyTie
  deriving DecidableEq

/-- A call of a function, with the arguments that were added to its own -/
structure Call where
  callback : Callback
  added : List Int
  deriving Repr, DecidableEq

/-- What actions change: the variables, and the calls that were made -/
structure World where
  vars : VarRef → BitVec 32
  calls : List Call

/-! ## Defining actions -/

/-- `AG_ActionFn`, in the memory that `Malloc` returns -/
def actionFn (a : Action) (fn : Callback) : Action := { a with type := .fn, fn := some fn }

/-- `AG_ActionSetInt` -/
def actionSetInt (a : Action) (p : VarRef) (val : BitVec 32) : Action :=
  { a with type := .setInt, fn := none, p := p, val := val }

/-- `AG_ActionToggleInt` -/
def actionToggleInt (a : Action) (p : VarRef) : Action :=
  { a with type := .toggleInt, fn := none, p := p }

/-- `AG_ActionSetFlag`, which stores the type of `AG_ActionSetInt` -/
def actionSetFlag (a : Action) (p : VarRef) (bitmask val : BitVec 32) : Action :=
  { a with type := .setInt, fn := none, p := p, bitmask := bitmask, val := val }

/-- `AG_ActionToggleFlag` -/
def actionToggleFlag (a : Action) (p : VarRef) (bitmask : BitVec 32) : Action :=
  { a with type := .toggleFlag, fn := none, p := p, bitmask := bitmask }

/-- An action as it is defined -/
inductive Definition where
  | fn
      (callback : Callback)
  | setInt
      (p : VarRef)
      (val : BitVec 32)
  | toggleInt
      (p : VarRef)
  | setFlag
      (p : VarRef)
      (bitmask val : BitVec 32)
  | toggleFlag
      (p : VarRef)
      (bitmask : BitVec 32)
  deriving Repr, DecidableEq

/-- The action that a definition makes of new memory -/
def Definition.action (definition : Definition) (a : Action) : Action :=
  match definition with
  | .fn callback => actionFn a callback
  | .setInt p val => actionSetInt a p val
  | .toggleInt p => actionToggleInt a p
  | .setFlag p bitmask val => actionSetFlag a p bitmask val
  | .toggleFlag p bitmask => actionToggleFlag a p bitmask

namespace Widget

/-- `AG_TblInsertPointer`, which leaves an action of that name in place -/
def insertAction (wid : Widget) (name : List UInt8) (a : Action) : Widget :=
  if wid.actions.any (·.1 = name) then wid else { wid with actions := wid.actions ++ [(name, a)] }

/-- `AG_TblLookupPointer` -/
def lookupAction (wid : Widget) (name : List UInt8) : Option Action :=
  (wid.actions.find? (·.1 = name)).map Prod.snd

/-! ## Tying events to actions -/

/-- `AG_ActionOnButtonDown` and `AG_ActionOnButtonUp` -/
def actionOnButton (wid : Widget) (type : ActionEventType) (button : Nat)
    (action : List UInt8) : Widget :=
  { wid with
    mouseActions := wid.mouseActions ++ [{ type, button, action := CString.strlcpy action }] }

/-- `AG_ActionOnKeyDown`, `AG_ActionOnKeyUp` and `AG_ActionOnKey` -/
def actionOnKey (wid : Widget) (type : ActionEventType) (sym : Nat) (mod : BitVec 32)
    (action : List UInt8) : Widget :=
  { wid with
    keyActions :=
      wid.keyActions ++ [{ type, sym, mod, toRepeat := false, action := CString.strlcpy action }] }

end Widget

/-! ## Executing actions -/

/-- Change a variable. -/
def World.set (s : World) (p : VarRef) (word : BitVec 32) : World :=
  { s with vars := Function.update s.vars p word }

/-- Call a function. -/
def World.call (s : World) (fn : Callback) (added : List Int) : World :=
  { s with calls := s.calls ++ [⟨fn, added⟩] }

/-- `AG_ExecAction` -/
def execAction (a : Action) (s : World) : Bool × World :=
  match a.type with
  | .fn =>
    match a.fn with
    | some fn => (true, s.call fn [])
    | none => (false, s)
  | .setInt => (true, s.set a.p a.val)
  | .toggleInt => (true, s.set a.p (if s.vars a.p = 0 then 1 else 0))
  | .setFlag =>
    if a.val ≠ 0 then (true, s.set a.p (s.vars a.p ||| a.bitmask))
    else (true, s.set a.p (s.vars a.p &&& ~~~a.bitmask))
  | .toggleFlag =>
    if s.vars a.p &&& a.bitmask ≠ 0 then (true, s.set a.p (s.vars a.p &&& ~~~a.bitmask))
    else (true, s.set a.p (s.vars a.p ||| a.bitmask))

/-- `AG_MOUSE_ANY` -/
def mouseAny : Nat := 0xff

/-- `AG_KEY_ANY` -/
def keyAny : Nat := 0xffff

/-- `AG_KEYMOD_ANY` -/
def keymodAny : BitVec 32 := 0xffff

/-- Whether `AG_ExecMouseAction` finds a tie for an event -/
def ButtonTie.matches (tie : ButtonTie) (et : ActionEventType) (button : Nat) : Bool :=
  tie.type = et && (button = tie.button || tie.button = mouseAny)

/-- Whether `AG_ExecKeyAction` finds a tie for an event -/
def KeyTie.matches (tie : KeyTie) (et : ActionEventType) (sym : Nat) (mod : BitVec 32) : Bool :=
  (tie.type = et || tie.type = .onKeyRepeat) && ((tie.mod = keymodAny || tie.mod &&& mod ≠ 0) &&
      (tie.sym = keyAny || tie.sym = sym))

namespace Widget

/-- `AG_ExecMouseAction` -/
def execMouseAction (wid : Widget) (et : ActionEventType) (button : Nat) (xCurs yCurs : Int)
    (s : World) : Bool × World :=
  match wid.mouseActions.find? (·.matches et button) with
  | none => (false, s)
  | some tie =>
    match wid.lookupAction tie.action.bytes with
    | none => (false, s)
    | some a =>
      match a.fn with
      | some fn => (true, s.call fn [button, xCurs, yCurs])
      | none => (false, s)

/-- Start or stop the timer of the tie that an event was found for. -/
def setTimer (wid : Widget) (et : ActionEventType) (sym : Nat) (mod : BitVec 32) : Widget :=
  { wid with
    keyActions :=
      wid.keyActions.modify (wid.keyActions.findIdx (·.matches et sym mod)) fun tie =>
          if tie.type = .onKeyRepeat then { tie with toRepeat := et = .onKeyDown } else tie }

/-- `AG_ExecKeyAction` -/
def execKeyAction (wid : Widget) (et : ActionEventType) (sym : Nat) (mod : BitVec 32)
    (s : World) : Bool × Widget × World :=
  match wid.keyActions.find? (·.matches et sym mod) with
  | none => (false, wid, s)
  | some tie =>
    match wid.lookupAction tie.action.bytes with
    | none => (false, wid, s)
    | some a =>
      let (rv, s) := execAction a s
      (rv, wid.setTimer et sym mod, s)

/-- `ActionKeyRepeatTimeout`, with whether the timer goes on -/
def actionKeyRepeatTimeout (wid : Widget) (tie : KeyTie) (s : World) : Bool × World :=
  match wid.lookupAction tie.action.bytes with
  | none => (false, s)
  | some a => (true, (execAction a s).2)

end Widget

/-- What may execute an action -/
inductive Event where
  | button
      (et : ActionEventType)
      (button : Nat)
      (xCurs yCurs : Int)
  | key
      (et : ActionEventType)
      (sym : Nat)
      (mod : BitVec 32)
  | keyRepeat
      (tie : KeyTie)
  deriving DecidableEq

/-- Whether an event is one of the mouse -/
def Event.ofMouse : Event → Bool
  | .button .. => true
  | .key .. => false
  | .keyRepeat _ => false

namespace Widget

/-- The name of the action that an event is tied to -/
def tied (wid : Widget) : Event → Option (List UInt8)
  | .button et button _ _ => (wid.mouseActions.find? (·.matches et button)).map (·.action.bytes)
  | .key et sym mod => (wid.keyActions.find? (·.matches et sym mod)).map (·.action.bytes)
  | .keyRepeat tie => some tie.action.bytes

/-- What an event leaves -/
def receive (wid : Widget) (event : Event) (s : World) : World :=
  match event with
  | .button et button xCurs yCurs => (wid.execMouseAction et button xCurs yCurs s).2
  | .key et sym mod => (wid.execKeyAction et sym mod s).2.2
  | .keyRepeat tie => (wid.actionKeyRepeatTimeout tie s).2

end Widget

/-! ## What is documented -/

/-- Only one variable has been changed, to a word. -/
structure Stores (s : World) (p : VarRef) (word : BitVec 32) (s' : World) : Prop where
  vars : s'.vars = Function.update s.vars p word
  calls : s'.calls = s.calls

/-- A word has the masked bits of another one changed, and no others. -/
def Masked (bitmask old word : BitVec 32) (change : Bool → Bool) : Prop :=
  ∀ i < 32, word.getLsbD i = if bitmask.getLsbD i then change (old.getLsbD i) else old.getLsbD i

/--
What executing an action does: it calls the function once, sets or toggles the
integer, or sets, clears or toggles exactly the masked bits
-/
def Definition.Documented (definition : Definition) (s s' : World) : Prop :=
  match definition with
  | .fn callback =>
    s'.vars = s.vars ∧ s'.calls.map Call.callback = s.calls.map Call.callback ++ [callback]
  | .setInt p val => Stores s p val s'
  | .toggleInt p => Stores s p (if s.vars p = 0 then 1 else 0) s'
  | .setFlag p bitmask val =>
    ∃ word, Masked bitmask (s.vars p) word (fun _ => val ≠ 0) ∧ Stores s p word s'
  | .toggleFlag p bitmask => ∃ word, Masked bitmask (s.vars p) word (!·) ∧ Stores s p word s'

/-- Nothing distinguishes two results, but for what was added to calls. -/
structure Agree (s s' : World) : Prop where
  vars : s.vars = s'.vars
  calls : s.calls.map Call.callback = s'.calls.map Call.callback

/-! ## When it holds -/

/--
When an event that executes an action has its effect.  With the mouse only
functions are executed, so that there is to be nothing to change, and a flag is
set as an integer is.
-/
def Definition.Meets (definition : Definition) (event : Event) (s : World) : Prop :=
  match definition, event.ofMouse with
  | .fn _, _ => True
  | .setInt _ _, false => True
  | .setInt p val, true => s.vars p = val
  | .toggleInt _, false => True
  | .toggleInt _, true => False
  | .setFlag p bitmask val, false =>
    if val = 0 then s.vars p &&& ~~~bitmask = 0 else val = s.vars p ||| bitmask
  | .setFlag p bitmask val, true =>
    if val = 0 then s.vars p &&& bitmask = 0 else s.vars p &&& bitmask = bitmask
  | .toggleFlag p bitmask, false => s.vars p &&& bitmask = 0 ∨ s.vars p &&& bitmask = bitmask
  | .toggleFlag _ bitmask, true => bitmask = 0

/-! ## Words -/

section

variable {bitmask old word val : BitVec 32}

theorem Masked.unique {word' : BitVec 32} {change : Bool → Bool}
    (masked : Masked bitmask old word change) (masked' : Masked bitmask old word' change) :
    word = word' :=
  BitVec.eq_of_getLsbD_eq fun i inside => (masked i inside).trans (masked' i inside).symm

theorem masked_set : Masked bitmask old (old ||| bitmask) fun _ => true := by
  intro i _
  rw [BitVec.getLsbD_or]
  cases bitmask.getLsbD i <;> simp

theorem masked_clear : Masked bitmask old (old &&& ~~~bitmask) fun _ => false := by
  intro i inside
  rw [BitVec.getLsbD_and, BitVec.getLsbD_not]
  cases bitmask.getLsbD i <;> simp [inside]

theorem masked_toggle : Masked bitmask old (old ^^^ bitmask) (!·) := by
  intro i _
  rw [BitVec.getLsbD_xor]
  cases bitmask.getLsbD i <;> simp

theorem eq_iff_bits {word' : BitVec 32} :
    word = word' ↔ ∀ i < 32, word.getLsbD i = word'.getLsbD i :=
  ⟨fun same _ _ => by rw [same], fun bits => BitVec.eq_of_getLsbD_eq fun i inside => bits i inside⟩

theorem eq_and_not_iff : old = old &&& ~~~bitmask ↔ old &&& bitmask = 0 := by
  rw [eq_iff_bits, eq_iff_bits]
  refine forall₂_congr fun i inside => ?_
  simp only [BitVec.getLsbD_and, BitVec.getLsbD_not, inside, BitVec.ofNat_eq_ofNat,
    BitVec.getLsbD_zero]
  cases old.getLsbD i <;> cases bitmask.getLsbD i <;> decide

theorem eq_or_iff : old = old ||| bitmask ↔ old &&& bitmask = bitmask := by
  rw [eq_iff_bits, eq_iff_bits]
  refine forall₂_congr fun i _ => ?_
  simp only [BitVec.getLsbD_and, BitVec.getLsbD_or]
  cases old.getLsbD i <;> cases bitmask.getLsbD i <;> decide

theorem eq_xor_iff : old = old ^^^ bitmask ↔ bitmask = 0 := by
  rw [eq_iff_bits, eq_iff_bits]
  refine forall₂_congr fun i _ => ?_
  simp only [BitVec.getLsbD_xor, BitVec.ofNat_eq_ofNat, BitVec.getLsbD_zero]
  cases old.getLsbD i <;> cases bitmask.getLsbD i <;> decide

theorem and_not_eq_xor_iff : old &&& ~~~bitmask = old ^^^ bitmask ↔ old &&& bitmask = bitmask := by
  rw [eq_iff_bits, eq_iff_bits]
  refine forall₂_congr fun i inside => ?_
  simp only [BitVec.getLsbD_and, BitVec.getLsbD_not, BitVec.getLsbD_xor, inside]
  cases old.getLsbD i <;> cases bitmask.getLsbD i <;> decide

theorem or_eq_xor_iff : old ||| bitmask = old ^^^ bitmask ↔ old &&& bitmask = 0 := by
  rw [eq_iff_bits, eq_iff_bits]
  refine forall₂_congr fun i _ => ?_
  simp only [BitVec.getLsbD_and, BitVec.getLsbD_or, BitVec.getLsbD_xor,
    BitVec.ofNat_eq_ofNat, BitVec.getLsbD_zero]
  cases old.getLsbD i <;> cases bitmask.getLsbD i <;> decide

theorem toggled_iff : (if old &&& bitmask ≠ 0 then old &&& ~~~bitmask else old ||| bitmask) =
        old ^^^ bitmask ↔
      old &&& bitmask = 0 ∨ old &&& bitmask = bitmask := by
  by_cases none : old &&& bitmask = 0
  · rw [if_neg (not_not_intro none), or_eq_xor_iff]
    exact iff_of_true none (.inl none)
  · rw [if_pos none, and_not_eq_xor_iff, or_iff_right none]

end

/-! ## Results -/

section

variable {s : World} {p : VarRef} {bitmask word word' : BitVec 32}

theorem stores_set_iff : Stores s p word (s.set p word') ↔ word' = word := by
  constructor
  · intro stores
    have there := congrFun stores.vars p
    unfold World.set at there
    dsimp only at there
    rwa [Function.update_self, Function.update_self] at there
  · intro same
    rw [same]
    exact ⟨rfl, rfl⟩

theorem stores_self_iff : Stores s p word s ↔ s.vars p = word := by
  constructor
  · intro stores
    have there := congrFun stores.vars p
    rwa [Function.update_self] at there
  · intro same
    refine ⟨?_, rfl⟩
    rw [← same, Function.update_eq_self]

theorem masked_stores_iff {s' : World} {change : Bool → Bool}
    (masked : Masked bitmask (s.vars p) word change) :
    (∃ word', Masked bitmask (s.vars p) word' change ∧ Stores s p word' s') ↔
      Stores s p word s' := by
  constructor
  · rintro ⟨word', isMasked, stores⟩
    rwa [masked.unique isMasked]
  · intro stores
    exact ⟨word, masked, stores⟩

theorem masked_flag (val old : BitVec 32) : Masked bitmask old
      (if val = 0 then old &&& ~~~bitmask else old ||| bitmask)
      (fun _ => val ≠ 0) := by
  split
  case isTrue clear =>
    rw [decide_eq_false (not_not_intro clear)]
    exact masked_clear
  case isFalse set =>
    rw [decide_eq_true set]
    exact masked_set

end

section

variable {wid : Widget} {definition : Definition} {event : Event} {name : List UInt8} {a : Action}
  {s : World}

theorem receive_key (tied : wid.tied event = some name) (defined : wid.lookupAction name = some a)
    (key : event.ofMouse = false) : wid.receive event s = (execAction a s).2 := by
  cases event with
  | button et button xCurs yCurs => exact absurd key (by simp [Event.ofMouse])
  | key et sym mod =>
    unfold Widget.tied at tied
    unfold Widget.receive Widget.execKeyAction
    obtain ⟨tie, found, rfl⟩ := Option.map_eq_some_iff.mp tied
    dsimp only
    rw [found]
    dsimp only
    rw [defined]
  | keyRepeat tie =>
    unfold Widget.tied at tied
    unfold Widget.receive Widget.actionKeyRepeatTimeout
    rw [← Option.some_inj.mp tied] at defined
    dsimp only
    rw [defined]

theorem receive_mouse (tied : wid.tied event = some name) (defined : wid.lookupAction name = some a)
    (mouse : event.ofMouse = true) :
    ∃ added, wid.receive event s = match a.fn with
        | some callback => s.call callback added
        | none => s := by
  cases event with
  | button et button xCurs yCurs =>
    unfold Widget.tied at tied
    unfold Widget.receive Widget.execMouseAction
    obtain ⟨tie, found, rfl⟩ := Option.map_eq_some_iff.mp tied
    refine ⟨[button, xCurs, yCurs], ?_⟩
    dsimp only
    rw [found]
    dsimp only
    rw [defined]
    dsimp only
    cases a.fn <;> rfl
  | key et sym mod => exact absurd mouse (by simp [Event.ofMouse])
  | keyRepeat tie => exact absurd mouse (by simp [Event.ofMouse])

theorem documented_call (callback : Callback) (added : List Int) :
    (Definition.fn callback).Documented s (s.call callback added) := by
  refine ⟨rfl, ?_⟩
  unfold World.call
  rw [List.map_append]
  exact rfl

theorem documented_key_iff {block : Action} (key : event.ofMouse = false) :
    definition.Documented s (execAction (definition.action block) s).2 ↔
      definition.Meets event s := by
  unfold Definition.Meets
  rw [key]
  cases definition with
  | fn callback => exact iff_of_true (documented_call callback []) trivial
  | setInt p val => exact iff_of_true (stores_set_iff.mpr rfl) trivial
  | toggleInt p => exact iff_of_true (stores_set_iff.mpr rfl) trivial
  | setFlag p bitmask val =>
    refine (masked_stores_iff (masked_flag val (s.vars p))).trans ?_
    refine stores_set_iff.trans ?_
    dsimp only [Definition.action, actionSetFlag]
    split
    case isTrue clear =>
      rw [clear]
      exact eq_comm
    case isFalse set => exact Iff.rfl
  | toggleFlag p bitmask =>
    refine (masked_stores_iff masked_toggle).trans ?_
    refine Iff.trans ?_ ((@stores_set_iff s p _ _).trans toggled_iff)
    unfold execAction Definition.action actionToggleFlag
    dsimp only
    split <;> exact Iff.rfl

theorem documented_mouse_iff {block : Action} {added : List Int} (mouse : event.ofMouse = true) :
    definition.Documented s (match (definition.action block).fn with
        | some callback => s.call callback added
        | none => s) ↔
      definition.Meets event s := by
  unfold Definition.Meets
  rw [mouse]
  cases definition with
  | fn callback => exact iff_of_true (documented_call callback added) trivial
  | setInt p val => exact stores_self_iff
  | toggleInt p =>
    refine stores_self_iff.trans (iff_of_false ?_ id)
    split
    case isTrue zero => simp [zero]
    case isFalse some => simpa using some
  | setFlag p bitmask val =>
    refine (masked_stores_iff (masked_flag val (s.vars p))).trans ?_
    refine stores_self_iff.trans ?_
    dsimp only
    split
    · exact eq_and_not_iff
    · exact eq_or_iff
  | toggleFlag p bitmask =>
    refine (masked_stores_iff masked_toggle).trans ?_
    exact stores_self_iff.trans eq_xor_iff

theorem documented_iff {block : Action} (tied : wid.tied event = some name)
    (defined : wid.lookupAction name = some (definition.action block)) :
    definition.Documented s (wid.receive event s) ↔ definition.Meets event s := by
  cases kind : event.ofMouse with
  | false =>
    rw [receive_key tied defined kind]
    exact documented_key_iff kind
  | true =>
    obtain ⟨added, received⟩ := @receive_mouse wid event name _ s tied defined kind
    rw [received]
    exact documented_mouse_iff kind

theorem agree_of_documented {s₁ s₂ : World} (first : definition.Documented s s₁)
    (second : definition.Documented s s₂) : Agree s₁ s₂ := by
  have stored {p : VarRef} {word : BitVec 32} (first : Stores s p word s₁)
      (second : Stores s p word s₂) :
      Agree s₁ s₂ :=
    ⟨first.vars.trans second.vars.symm, by rw [first.calls, second.calls]⟩
  cases definition with
  | fn callback => exact ⟨first.1.trans second.1.symm, first.2.trans second.2.symm⟩
  | setInt p val => exact stored first second
  | toggleInt p => exact stored first second
  | setFlag p bitmask val =>
    obtain ⟨word, masked, stores⟩ := first
    obtain ⟨word', masked', stores'⟩ := second
    rw [masked.unique masked'] at stores
    exact stored stores stores'
  | toggleFlag p bitmask =>
    obtain ⟨word, masked, stores⟩ := first
    obtain ⟨word', masked', stores'⟩ := second
    rw [masked.unique masked'] at stores
    exact stored stores stores'

end

/--
Two events that are tied to one action have the effect that is documented of
it, and agree on it, if and only if both meet the condition.
-/
theorem oneMeaning_iff (wid : Widget) (name : List UInt8) (definition : Definition) (block : Action)
    (defined : wid.lookupAction name = some (definition.action block)) (event event' : Event)
    (tied : wid.tied event = some name) (tied' : wid.tied event' = some name) (s : World) :
    (definition.Documented s (wid.receive event s) ∧
        definition.Documented s (wid.receive event' s) ∧
        Agree (wid.receive event s) (wid.receive event' s)) ↔
      definition.Meets event s ∧ definition.Meets event' s := by
  rw [← documented_iff tied defined, ← documented_iff tied' defined]
  constructor
  · rintro ⟨first, second, -⟩
    exact ⟨first, second⟩
  · rintro ⟨first, second⟩
    exact ⟨first, second, agree_of_documented first second⟩

def someBlock : Action where
  type := .fn
  fn := none
  p := 0
  val := 0
  bitmask := 0

def flagWidget : Widget :=
  ((Widget.insertAction ⟨[], [], []⟩ (ascii "flag")
      (actionSetFlag someBlock 0 1 1)).actionOnKey .onKeyDown 97 keymodAny
        (ascii "flag")).actionOnButton .onButtonDown 1 (ascii "flag")

def twoBits : World where
  vars := fun _ => 3
  calls := []

theorem oneMeaning_iff_set : (Definition.setFlag 0 1 1).Documented twoBits
      (flagWidget.receive (.button .onButtonDown 1 0 0) twoBits) := by
  have meets : (Definition.setFlag 0 1 1).Meets (.button .onButtonDown 1 0 0) twoBits :=
    show twoBits.vars 0 &&& 1 = 1 from by decide
  exact ((oneMeaning_iff flagWidget (ascii "flag") (.setFlag 0 1 1) someBlock
      (by decide) (.button .onButtonDown 1 0 0) (.button .onButtonDown 1 0 0)
      (by decide) (by decide) twoBits).mpr ⟨meets, meets⟩).1

theorem set_flag_sets_integer : flagWidget.lookupAction (ascii "flag") =
        some ((Definition.setFlag 0 1 1).action someBlock) ∧
      flagWidget.tied (.key .onKeyDown 97 0) = some (ascii "flag") ∧
      ¬ (Definition.setFlag 0 1 1).Documented twoBits
        (flagWidget.receive (.key .onKeyDown 97 0) twoBits) := by
  have defined : flagWidget.lookupAction (ascii "flag") =
        some ((Definition.setFlag 0 1 1).action someBlock) := by
    decide
  have tied : flagWidget.tied (.key .onKeyDown 97 0) = some (ascii "flag") := by decide
  refine ⟨defined, tied, fun documented => ?_⟩
  have meets : (1 : BitVec 32) = twoBits.vars 0 ||| 1 := (documented_iff tied defined).mp documented
  exact absurd meets (by decide)

end Agar.Gui.Actions
