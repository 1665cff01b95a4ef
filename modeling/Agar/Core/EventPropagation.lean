import Agar.Core.EventDelivery
import Agar.Lib.Forest

namespace Agar.Core

open Agar.Lib

/-!
# Propagation of events

Whether one post to an object with a propagating handler reaches every handler
of every object below it once, with the arguments of that handler followed by
the posted ones.

`AG_ForwardEvent` passes on the event that it is given, which has the
arguments of the handler that was posted to, and it propagates again for every
propagating handler that it meets.  So a handler gets what it should where it
has the same arguments as the handler posted to, and no object between has a
propagating handler.
-/

namespace World

/-- One object is on the list of children of another. -/
def ChildOf (w : World) (chld parent : ObjRef) : Prop :=
  ∃ entry, w.objects parent = some entry ∧ chld ∈ entry.children

/-- An object is somewhere below another. -/
def Below (w : World) (lower upper : ObjRef) : Prop := Relation.TransGen w.ChildOf lower upper

/-- An object is another or below it. -/
def Inside (w : World) (lower upper : ObjRef) : Prop := Relation.ReflTransGen w.ChildOf lower upper

/--
The objects below an object form a finite tree: no object has two parents or
occurs twice among the children of one.
-/
structure IsTree (w : World) (ob : ObjRef) : Prop where
  finite : Acc w.ChildOf ob
  oneParent : Relator.RightUnique w.ChildOf
  once : ∀ p entry, w.objects p = some entry → entry.children.Nodup

end World

/-! ## One object -/

variable {evname : List UInt8}

/--
What is done for a handler of an object: the children get its event again
where it propagates, and its function is called.
-/
structure Served (w : World) (build : Build) (fuel : Nat) (rcvr : ObjRef) (children : List ObjRef)
    (handler : Event × Nat) (args : List Arg) (relayed called : List Invocation) : Prop where
  relays : if handler.1.propagate then
      ∃ smaller event, smaller ≤ fuel ∧ event.name = handler.1.name ∧
        collect (w.carryOut build smaller) (propagateTo children rcvr event) = .ok relayed
    else relayed = []
  calls : match handler.1.fn with
    | none => called = []
    | some fn =>
      ∃ event, called = [⟨⟨rcvr, handler.2⟩, fn, event⟩] ∧ event.self.data = .p (some rcvr) ∧
        event.args = args

variable {w : World} {build : Build} {fuel : Nat} {handler : HandlerRef}

variable {ev : Event} {calls : List Invocation}

variable {rcvr : ObjRef} {entry : Object}

variable {sndr : ObjRef}

section Children

variable {w : World} {build : Build} {fuel : Nat} {rcvr : ObjRef}
  {entry : Object} {ev : Event} {calls : List Invocation}
  {handler : HandlerRef}

end Children

theorem World.IsTree.child {w : World} {ob chld : ObjRef} (tree : w.IsTree ob)
    (isChild : w.ChildOf chld ob) : w.IsTree chld where
  finite := tree.finite.inv isChild
  oneParent := tree.oneParent
  once := tree.once

theorem World.Below.through_child {lower ob : ObjRef} (stored : w.objects ob = some entry)
    (below : w.Below lower ob) : ∃ chld ∈ entry.children, w.Inside lower chld := by
  obtain ⟨chld, inside, ⟨other, storedAgain, isChild⟩⟩ := Relation.TransGen.tail'_iff.mp below
  cases stored.symm.trans storedAgain
  exact ⟨chld, isChild, inside⟩

theorem World.Inside.cases {lower upper : ObjRef} (inside : w.Inside lower upper) :
    lower = upper ∨ w.Below lower upper :=
  (Relation.reflTransGen_iff_eq_or_transGen.mp inside).imp_left Eq.symm

section Delivery

variable {w : World} {build : Build} {fuel : Nat} {sndr rcvr : ObjRef}
  {evname : List UInt8} {event : Event} {calls : List Invocation}
  {handler : HandlerRef} {ev : Event} {fn : FnRef}

end Delivery

/-! ## Enough turns -/

/-- With so many turns, a propagation to an object comes to an end. -/
def EnoughFor (w : World) (build : Build) (bound : Nat) (rcvr : ObjRef) : Prop :=
  ∀ fuel sndr ev, bound ≤ fuel → w.carryOut build fuel (.propagate sndr rcvr ev) ≠ .error .outOfFuel

variable {children : List ObjRef}

section Turns

variable {w : World} {build : Build} {rcvr : ObjRef} {entry : Object}
  {bound fuel : Nat} {service : Service}

theorem EnoughFor.mono {more : Nat} (enough : EnoughFor w build bound rcvr) (le : bound ≤ more) :
    EnoughFor w build more rcvr :=
  fun fuel sndr ev turns => enough fuel sndr ev (Nat.le_trans le turns)

end Turns

/-! ## Posting -/

section Posting

variable {w : World} {build : Build} {rcvr : ObjRef} {sndr : Pointer}
  {children : List ObjRef} {fmt : Option (List UInt8)} {ap : List VaArg}
  {posted : List Arg} {handlers : List (Event × Nat)}
  {services : List Service}

variable {index : Nat}

variable {posting : Event}

end Posting

/-- A handler for the event `resize`, with the arguments in the array. -/
def resizeHandler (ob : ObjRef) (flags : UInt32) (fn : FnRef) (own : Option Arg) : Event where
  name := .strlcpy (ascii "resize")
  flags := flags
  fn := some fn
  argc := own.toList.length + 1
  argc0 := own.toList.length + 1
  argv := .ofFn fun index =>
    { initVariable emptyName .pointer with
      type := if index = 0 then .pointer else .int
      data :=
        if index = 0 then .p (some ob) else (own.map Arg.data).getD (.p none) }
  hasSelf := Nat.succ_pos _
  fits := by cases own <;> simp [eventArgsMax]

def withHandler (handler : Event) (parent : Option ObjRef) (children : List ObjRef) : Object where
  name := .strlcpy []
  cls := agObjectClass
  flags := 0
  events := [handler]
  vars := []
  deps := []
  parent := parent
  root := 0
  children := children
  attachFn := none
  detachFn := none

def parentAndChild (own : Option Arg) : World where
  objects
    | 0 => some (withHandler (resizeHandler 0 eventPropagate 7 none) none [1])
    | 1 => some (withHandler (resizeHandler 1 0 8 own) (some 0) [])
    | _ => none
  timing := .initial
  fnEvents _ := none
  posted := []

end Agar.Core
