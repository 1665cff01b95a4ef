import Agar.Core.Object
import Agar.Lib.Forest
import Agar.Lib.Outcome
import Agar.Lib.Runs

namespace Agar.Core

open Agar.Lib

/-!
# The object tree

Whether the root pointer of every object is the top of its tree in every state
that initialisations, attachments and detachments reach.  `AG_ObjectAttach`
and `AG_ObjectDetach` set the root pointer of the object they move and of no
object below it, so it is exactly while only objects without children move.

The tree links of a world are `World.links`; on them the operations are those
of linked trees in general.
-/

/-- One operation on the object tree. -/
inductive TreeOp where
  | objectInit (ob : ObjRef) (cl : Option ObjectClass)
  | objectAttach (parentp : Option ObjRef) (chld : ObjRef)
  | objectDetach (chld : ObjRef)

namespace World

/-- The parent pointer of an object. -/
def parentOf (w : World) (ob : ObjRef) : Option ObjRef := (w.objects ob).bind Object.parent

/--
The links of the objects in memory.  A reference to no object has no links,
and is its own root.
-/
def links (w : World) : Links ObjRef where
  parent := w.parentOf
  root ob := ((w.objects ob).map Object.root).getD ob
  children ob := ((w.objects ob).map Object.children).getD []

/--
The root pointer of every object is what following parent pointers ends at,
and an object has a parent exactly when it occurs, once, among the children of
that parent.
-/
structure TreeInvariant (w : World) : Prop where
  rootIsTop : ∀ ob entry, w.objects ob = some entry → Top w.parentOf ob entry.root
  listed : ∀ ob p, w.parentOf ob = some p ↔ ∃ pobj, w.objects p = some pobj ∧ ob ∈ pobj.children
  once : ∀ p pobj, w.objects p = some pobj → pobj.children.Nodup

/-- No object has an attach or a detach hook. -/
def NoHooks (w : World) : Prop :=
  ∀ ob entry, w.objects ob = some entry → entry.attachFn = none ∧ entry.detachFn = none

/--
The operations of the application: it initialises objects that are not in
use, and attaches objects that have no parent, to no object below them.
-/
def Admitted (w : World) : TreeOp → Prop
  | .objectInit ob _ => w.objects ob = none
  | .objectAttach parentp chld =>
    w.parentOf chld = none ∧ ∀ parent, parentp = some parent →
        parent ≠ chld → ¬ Within w.parentOf parent chld
  | .objectDetach chld => ∃ parent, w.parentOf chld = some parent

/-- The object that moves has no children, and is not attached to itself. -/
def MovesLeaf (w : World) : TreeOp → Prop
  | .objectInit _ _ => True
  | .objectAttach none _ => True
  | .objectAttach (some parent) chld => w.links.children chld = [] ∧ parent ≠ chld
  | .objectDetach chld => w.links.children chld = []

/-- Take one operation, where it is defined. -/
def step (call : EventRef → World → World) (w : World) : TreeOp → Option World
  | .objectInit ob cl => some (w.objectInit ob cl)
  | .objectAttach parentp chld => (w.objectAttach call parentp chld).toOption
  | .objectDetach chld => (w.objectDetach call chld).toOption

/-! ## The links of a world -/

variable {w : World} {ob : ObjRef} {entry : Object}

theorem links_of_stored (stored : w.objects ob = some entry) : w.links.parent ob = entry.parent ∧
      w.links.root ob = entry.root ∧ w.links.children ob = entry.children := by
  simp [links, parentOf, stored]

theorem links_setObject (w : World) (ob : ObjRef) (entry : Object) : (w.setObject ob entry).links =
      { parent := Function.update w.links.parent ob entry.parent
        root := Function.update w.links.root ob entry.root
        children := Function.update w.links.children ob entry.children } := by
  ext other : 2 <;>
    by_cases same : other = ob <;>
    simp [links, parentOf, setObject, same]

theorem links_setObject_up (stored : w.objects ob = some entry) (parent : Option ObjRef)
    (root : ObjRef) :
    (w.setObject ob { entry with parent := parent, root := root }).links =
      { w.links with
        parent := Function.update w.links.parent ob parent
        root := Function.update w.links.root ob root } := by
  obtain ⟨_, _, sameChildren⟩ := links_of_stored stored
  simp [links_setObject, ← sameChildren]

theorem links_setObject_children (stored : w.objects ob = some entry) (children : List ObjRef) :
    (w.setObject ob { entry with children := children }).links =
      { w.links with children := Function.update w.links.children ob children } := by
  obtain ⟨sameParent, sameRoot, _⟩ := links_of_stored stored
  simp [links_setObject, ← sameParent, ← sameRoot]

theorem links_setObject_name (stored : w.objects ob = some entry) (name : CString objectNameMax) :
    (w.setObject ob { entry with name := name }).links = w.links := by
  obtain ⟨sameParent, sameRoot, sameChildren⟩ := links_of_stored stored
  simp [links_setObject, ← sameParent, ← sameRoot, ← sameChildren]

@[simp] theorem links_post (w : World) (sender receiver : ObjRef) (event : String) :
    (w.post sender receiver event).links = w.links :=
  rfl

theorem treeInvariant_iff : w.TreeInvariant ↔ w.links.Consistent := by
  have childrenOf (ob p : ObjRef) :
      ob ∈ w.links.children p ↔ ∃ pobj, w.objects p = some pobj ∧ ob ∈ pobj.children := by
    cases stored : w.objects p <;> simp [links, stored]
  constructor
  · rintro ⟨rootIsTop, listed, once⟩
    refine ⟨fun ob => ?_, fun ob p => ?_, fun p => ?_⟩
    · cases stored : w.objects ob with
      | none =>
        have ownRoot : w.links.root ob = ob := by simp [links, stored]
        rw [ownRoot]
        exact Top.self (by simp [links, parentOf, stored])
      | some entry =>
        rw [(links_of_stored stored).2.1]
        exact rootIsTop ob entry stored
    · rw [childrenOf]
      exact listed ob p
    · cases stored : w.objects p with
      | none => simp [links, stored]
      | some pobj =>
        rw [(links_of_stored stored).2.2]
        exact once p pobj stored
  · rintro ⟨rootIsTop, listed, once⟩
    refine ⟨fun ob entry stored => ?_, fun ob p => ?_, fun p pobj stored => ?_⟩
    · rw [← (links_of_stored stored).2.1]
      exact rootIsTop ob
    · rw [← childrenOf]
      exact listed ob p
    · rw [← (links_of_stored stored).2.2]
      exact once p

theorem objectInit_links (unused : w.objects ob = none) (cl : Option ObjectClass) :
    (w.objectInit ob cl).links = w.links := by
  have initialised (entry : Object)
      (fresh : entry.parent = none ∧ entry.root = ob ∧ entry.children = []) :
      (w.setObject ob entry).links = w.links := by
    obtain ⟨parent, root, children⟩ := fresh
    rw [links_setObject, parent, root, children]
    ext other : 2 <;>
      by_cases same : other = ob <;>
      simp [links, parentOf, same, unused]
  exact initialised _ ⟨rfl, rfl, rfl⟩

/-! ## What the operations store -/

variable {call : EventRef → World → World}

variable {next : World} {parent chld : ObjRef}

theorem objectAttach_cases (noHooks : w.NoHooks)
    (taken : w.objectAttach call (some parent) chld = .ok next) :
    ∃ linked named pobj entry entryLinked pobjNamed name, w.objects parent = some pobj ∧
      w.objects chld = some entry ∧ linked = w.setObject chld
          { entry with parent := some parent, root := pobj.root } ∧
      linked.objects chld = some entryLinked ∧
      (entryLinked.flags &&& objectNameOnAttach = 0 → name = entryLinked.name) ∧
      named = linked.setObject chld { entryLinked with name := name } ∧
      named.objects parent = some pobjNamed ∧ next = ((named.setObject parent
            { pobjNamed with children := pobjNamed.children ++ [chld] }).post
          parent chld "attached").post chld parent "child-attached" := by
  unfold objectAttach at taken
  simp only [bind_eq_ok, object_eq_ok] at taken
  obtain ⟨pobj, pobjStored, entry, entryStored, taken⟩ := taken
  split at taken
  case h_1 attachFn hook =>
    rw [(noHooks chld entry entryStored).1] at hook
    cases hook
  case h_2 =>
    simp only [bind_eq_ok, object_eq_ok, pure_eq_ok] at taken
    obtain ⟨_, _, entryLinked, linkedStored, pobjNamed, namedStored, rfl⟩ := taken
    exact ⟨_, _, pobj, entry, entryLinked, pobjNamed, _, pobjStored,
      entryStored, rfl, linkedStored, fun none => if_neg (not_not.mpr none), rfl, namedStored, rfl⟩

theorem objectDetach_cases (noHooks : w.NoHooks) (up : w.parentOf chld = some parent)
    (taken : w.objectDetach call chld = .ok next) :
    ∃ unlinked pobj entryUnlinked timing, w.objects parent = some pobj ∧ unlinked =
        w.setObject parent { pobj with children := pobj.children.erase chld } ∧
      unlinked.objects chld = some entryUnlinked ∧
      next =
        ({ unlinked.setObject chld
            { entryUnlinked with parent := none, root := chld } with
          timing := timing }.post parent chld "detached").post chld parent "child-detached" := by
  unfold objectDetach at taken
  simp only [bind_eq_ok, object_eq_ok] at taken
  obtain ⟨entry, entryStored, taken⟩ := taken
  have entryParent : entry.parent = some parent := by simpa [parentOf, entryStored] using up
  simp only [entryParent, (noHooks chld entry entryStored).2, bind_eq_ok, object_eq_ok] at taken
  obtain ⟨_, _, pobj, pobjStored, taken⟩ := taken
  split at taken
  case isFalse => cases taken
  case isTrue =>
    simp only [bind_eq_ok, object_eq_ok, pure_eq_ok] at taken
    obtain ⟨entryUnlinked, unlinkedStored, rfl⟩ := taken
    exact ⟨_, pobj, entryUnlinked, _, pobjStored, rfl, unlinkedStored, rfl⟩

theorem objectAttach_links (noHooks : w.NoHooks)
    (taken : w.objectAttach call (some parent) chld = .ok next) :
    next.links = w.links.attach parent chld := by
  obtain ⟨linked, named, pobj, entry, entryLinked, pobjNamed, name,
    pobjStored, entryStored, rfl, linkedStored, _, rfl, namedStored, rfl⟩ :=
    objectAttach_cases noHooks taken
  have sameChildren : pobjNamed.children = w.links.children parent := by
    rw [← (links_of_stored namedStored).2.2,
      links_setObject_name linkedStored, links_setObject_up entryStored]
  rw [links_post, links_post, links_setObject_children namedStored,
    links_setObject_name linkedStored, links_setObject_up entryStored,
    sameChildren, Links.attach, (links_of_stored pobjStored).2.1]

theorem objectDetach_links (noHooks : w.NoHooks) (up : w.parentOf chld = some parent)
    (taken : w.objectDetach call chld = .ok next) : next.links = w.links.detach parent chld := by
  obtain ⟨unlinked, pobj, entryUnlinked, timing, pobjStored, rfl,
    unlinkedStored, rfl⟩ := objectDetach_cases noHooks up taken
  rw [links_post, links_post]
  change (World.setObject _ _ _).links = _
  rw [links_setObject_up unlinkedStored, links_setObject_children pobjStored, Links.detach,
    (links_of_stored pobjStored).2.2]

theorem NoHooks.setObject (noHooks : w.NoHooks) (ob : ObjRef) (entry : Object)
    (fresh : entry.attachFn = none ∧ entry.detachFn = none) : (w.setObject ob entry).NoHooks := by
  intro other found stored
  by_cases same : other = ob
  · simp only [World.setObject, same, Function.update_self, Option.some.injEq] at stored
    exact stored ▸ fresh
  · simp only [World.setObject, Function.update_of_ne same] at stored
    exact noHooks other found stored

theorem step_noHooks {op : TreeOp} (noHooks : w.NoHooks) (admitted : w.Admitted op)
    (taken : w.step call op = some next) : next.NoHooks := by
  cases op with
  | objectInit ob cl =>
    cases taken
    exact noHooks.setObject _ _ ⟨rfl, rfl⟩
  | objectAttach parentp chld =>
    have attached := toOption_eq_some.mp taken
    cases parentp with
    | none =>
      cases attached
      exact noHooks
    | some parent =>
      obtain ⟨linked, named, pobj, entry, entryLinked, pobjNamed, name,
        pobjStored, entryStored, rfl, linkedStored, _, rfl, namedStored,
        rfl⟩ := objectAttach_cases noHooks attached
      have linkedNoHooks := noHooks.setObject chld
        { entry with parent := some parent, root := pobj.root }
        (noHooks chld entry entryStored)
      have namedNoHooks := linkedNoHooks.setObject chld
        { entryLinked with name := name }
        (linkedNoHooks chld entryLinked linkedStored)
      exact namedNoHooks.setObject _ _ (namedNoHooks parent pobjNamed namedStored)
  | objectDetach chld =>
    have detached := toOption_eq_some.mp taken
    obtain ⟨parent, up⟩ := admitted
    obtain ⟨unlinked, pobj, entryUnlinked, timing, pobjStored, rfl,
      unlinkedStored, rfl⟩ := objectDetach_cases noHooks up detached
    have unlinkedNoHooks := noHooks.setObject parent
      { pobj with children := pobj.children.erase chld }
      (noHooks parent pobj pobjStored)
    exact unlinkedNoHooks.setObject _ _ (unlinkedNoHooks chld entryUnlinked unlinkedStored)

theorem step_treeInvariant_iff {op : TreeOp} (noHooks : w.NoHooks) (invariant : w.TreeInvariant)
    (admitted : w.Admitted op) (taken : w.step call op = some next) :
    next.TreeInvariant ↔ w.MovesLeaf op := by
  rw [treeInvariant_iff] at invariant ⊢
  cases op with
  | objectInit ob cl =>
    cases taken
    rw [objectInit_links admitted]
    exact iff_of_true invariant trivial
  | objectAttach parentp chld =>
    have attached := toOption_eq_some.mp taken
    cases parentp with
    | none =>
      cases attached
      exact iff_of_true invariant trivial
    | some parent =>
      obtain ⟨noParent, notAncestor⟩ := admitted
      rw [objectAttach_links noHooks attached]
      exact Links.attach_consistent_iff invariant noParent (notAncestor parent rfl)
  | objectDetach chld =>
    obtain ⟨parent, up⟩ := admitted
    rw [objectDetach_links noHooks up (toOption_eq_some.mp taken)]
    exact Links.detach_consistent_iff invariant up

theorem treeInvariant_initial : World.initial.TreeInvariant := by
  refine ⟨?_, ?_, ?_⟩ <;> simp [World.initial, parentOf]

end World

/--
Over any sequence of initialisations, attachments and detachments without
hooks, the root of every object is the top of its tree, and the lists of
children agree with the parent pointers, in every state exactly when every
object that is attached or detached has no children at that moment.
-/
theorem objectTree_invariant_iff (call : EventRef → World → World) {ops : List TreeOp}
    {final : World} (admitted : EachStep (World.step call) World.Admitted .initial ops)
    (completes : run (World.step call) .initial ops = some final) :
    AlwaysAlong (World.step call) World.TreeInvariant .initial ops ↔
      EachStep (World.step call) World.MovesLeaf .initial ops := by
  refine alwaysAlong_iff_eachStep World.NoHooks ?_ ?_ ?_
    World.treeInvariant_initial admitted completes
  · intro w op next noHooks opAdmitted taken
    exact World.step_noHooks noHooks opAdmitted taken
  · intro w op next noHooks invariant opAdmitted taken
    exact World.step_treeInvariant_iff noHooks invariant opAdmitted taken
  · intro ob entry stored
    cases stored

theorem objectTree_invariant_iff_leaf :
    AlwaysAlong (World.step fun _ w => w) World.TreeInvariant .initial
      [.objectInit 1 none, .objectInit 2 none, .objectAttach (some 1) 2, .objectDetach 2] := by
  have completes : (run (World.step fun _ w => w) .initial
        [.objectInit 1 none, .objectInit 2 none, .objectAttach (some 1) 2,
          .objectDetach 2]).isSome :=
    rfl
  obtain ⟨final, reached⟩ := Option.isSome_iff_exists.mp completes
  refine (objectTree_invariant_iff (fun _ w => w) ?_ reached).mpr ?_
  · refine ⟨rfl, fun _ taken => ?_⟩
    cases taken
    refine ⟨rfl, fun _ taken => ?_⟩
    cases taken
    refine ⟨⟨rfl, fun parent isParent _ within => ?_⟩, fun _ taken => ?_⟩
    · cases isParent
      exact absurd (within.eq_of_noParent rfl) (by decide)
    cases taken
    exact ⟨⟨1, rfl⟩, fun _ _ => trivial⟩
  · refine ⟨trivial, fun _ taken => ?_⟩
    cases taken
    refine ⟨trivial, fun _ taken => ?_⟩
    cases taken
    refine ⟨⟨rfl, by decide⟩, fun _ taken => ?_⟩
    cases taken
    exact ⟨rfl, fun _ _ => trivial⟩

theorem objectTree_keeps_old_root : EachStep (World.step fun _ w => w) World.Admitted .initial
        [.objectInit 1 none, .objectInit 2 none, .objectInit 3 none,
          .objectAttach (some 2) 3, .objectAttach (some 1) 2] ∧
      ¬ AlwaysAlong (World.step fun _ w => w) World.TreeInvariant .initial
        [.objectInit 1 none, .objectInit 2 none, .objectInit 3 none,
          .objectAttach (some 2) 3, .objectAttach (some 1) 2] := by
  constructor
  · refine ⟨rfl, fun _ taken => ?_⟩
    cases taken
    refine ⟨rfl, fun _ taken => ?_⟩
    cases taken
    refine ⟨rfl, fun _ taken => ?_⟩
    cases taken
    refine ⟨⟨rfl, fun parent isParent _ within => ?_⟩, fun _ taken => ?_⟩
    · cases isParent
      exact absurd (within.eq_of_noParent rfl) (by decide)
    cases taken
    refine ⟨⟨rfl, fun parent isParent _ within => ?_⟩, fun _ _ => trivial⟩
    cases isParent
    exact absurd (within.eq_of_noParent rfl) (by decide)
  · intro along
    have reached := ((((along.2 _ rfl).2 _ rfl).2 _ rfl).2 _ rfl).2 _ rfl
    have rootTop := (reached.rootIsTop 3 _ rfl).noParent
    cases rootTop

end Agar.Core
