import Agar.Core.GeneratedName
import Agar.Core.ObjectPath

namespace Agar.Core

open Agar.Lib

/-!
# Names of siblings

The name of an object is to be unique in its parent.  `AG_ObjectNew` looks for
a child of the given name before `AG_ObjectSetNameS` cuts the name to the buffer
and replaces the separators in it, and the other functions do not look at all;
so a name is unique where it is the stored name that no sibling has.
-/

/-- What `AG_ObjectSetNameS` stores for a character of a name -/
def nameChar (c : UInt8) : UInt8 := if c = 47 ∨ c = 92 then 95 else c

/-- The name that `AG_ObjectSetNameS` stores -/
def storedName (name : List UInt8) : CString objectNameMax :=
  .strlcpy ((CString.strlcpy name : CString objectNameMax).bytes.map nameChar)

namespace World

end World

namespace World

/-- The name and the flags of each object -/
def labels (w : World) (ob : ObjRef) : Option (CString objectNameMax × UInt32) :=
  (w.objects ob).map fun entry => (entry.name, entry.flags)

/-- No name has a separator, and no object is to be named when it is attached. -/
def Plain (w : World) : Prop :=
  ∀ ob name flags, w.labels ob = some (name, flags) → pathSepChar ∉ name.bytes ∧ flags = 0

variable {call : EventRef → World → World} {w next : World} {ob : ObjRef} {entry : Object}
  {name : CString objectNameMax}

theorem labels_of_stored (stored : w.objects ob = some entry) :
    w.labels ob = some (entry.name, entry.flags) := by
  rw [labels, stored]
  rfl

theorem labels_setObject (w : World) (ob : ObjRef) (entry : Object) :
    (w.setObject ob entry).labels =
      Function.update w.labels ob (some (entry.name, entry.flags)) := by
  funext other
  by_cases same : other = ob <;> simp [labels, setObject, same]

theorem labels_setObject_same (stored : w.objects ob = some entry) {other : Object}
    (named : other.name = entry.name) (flagged : other.flags = entry.flags) :
    (w.setObject ob other).labels = w.labels := by
  rw [labels_setObject, named, flagged, ← labels_of_stored stored, Function.update_eq_self]

theorem objectAttach_labels {parent chld : ObjRef} (noHooks : w.NoHooks) (plain : w.Plain)
    (taken : w.objectAttach call (some parent) chld = .ok next) : next.labels = w.labels := by
  obtain ⟨_, _, pobj, entry, linked, _, name, _, entryStored, rfl, linkedStored, keeps, rfl,
    namedStored, rfl⟩ := objectAttach_cases noHooks taken
  have sameLabels := @labels_setObject_same _ _ _ entryStored
    { entry with parent := some parent, root := pobj.root } rfl rfl
  have unnamed : linked.flags &&& objectNameOnAttach = 0 := by
    have labelled := labels_of_stored linkedStored
    rw [sameLabels] at labelled
    rw [(plain chld _ _ labelled).2]
    decide
  change (World.setObject _ _ _).labels = _
  rw [labels_setObject_same namedStored, labels_setObject_same linkedStored, sameLabels]
  · exact keeps unnamed
  · rfl
  · rfl
  · rfl

theorem objectDetach_labels {parent chld : ObjRef} (noHooks : w.NoHooks)
    (up : w.parentOf chld = some parent) (taken : w.objectDetach call chld = .ok next) :
    next.labels = w.labels := by
  obtain ⟨unlinked, pobj, entry, timing, pobjStored, rfl, unlinkedStored, rfl⟩ :=
    objectDetach_cases noHooks up taken
  change (World.setObject _ _ _).labels = _
  rw [labels_setObject_same unlinkedStored, labels_setObject_same pobjStored] <;> rfl

/-! ## One call -/

/-- After a call, one object has a name and a parent, and all else is as before. -/
structure Places (w next : World) (ob : ObjRef) (name : CString objectNameMax)
    (parent : Option ObjRef) : Prop where
  labels : next.labels = Function.update w.labels ob (some (name, 0))
  parents : next.parentOf = Function.update w.parentOf ob parent
  plain : pathSepChar ∉ name.bytes

theorem Places.plain_next {parent : Option ObjRef} (places : w.Places next ob name parent)
    (plain : w.Plain) : next.Plain := by
  intro other otherName flags labelled
  rw [places.labels] at labelled
  by_cases same : other = ob
  · rw [same, Function.update_self] at labelled
    cases labelled
    exact ⟨places.plain, rfl⟩
  · rw [Function.update_of_ne same] at labelled
    exact plain other otherName flags labelled

/-- Nothing is called when objects move, the links agree, and the names are plain. -/
structure Orderly (w : World) : Prop where
  noHooks : w.NoHooks
  links : w.TreeInvariant
  plain : w.Plain

theorem Orderly.moved {op : TreeOp} (orderly : w.Orderly) (admitted : w.Admitted op)
    (leaf : w.MovesLeaf op) (taken : w.step call op = some next) :
    next.NoHooks ∧ next.TreeInvariant :=
  ⟨step_noHooks orderly.noHooks admitted taken,
    (step_treeInvariant_iff orderly.noHooks orderly.links admitted taken).mpr leaf⟩

/-- A new object has a name before it is attached. -/
theorem Orderly.init (orderly : w.Orderly) (unused : w.objects ob = none) (cl : ObjectClass) :
    (w.objectInit ob (some cl)).Orderly ∧
      w.Places (w.objectInit ob (some cl)) ob (.strlcpy []) none := by
  have places : w.Places (w.objectInit ob (some cl)) ob (.strlcpy []) none := by
    refine ⟨labels_setObject .., ?_, by decide⟩
    have isRoot : w.parentOf ob = none := by rw [parentOf, unused]; rfl
    rw [← isRoot, Function.update_eq_self]
    exact congrArg Links.parent (objectInit_links unused (some cl))
  obtain ⟨noHooks, links⟩ :=
    @Orderly.moved (fun _ w => w) _ _ (.objectInit ob (some cl)) orderly unused trivial rfl
  exact ⟨⟨noHooks, links, places.plain_next orderly.plain⟩, places⟩

theorem Places.trans {later : World} {before : CString objectNameMax} {first parent : Option ObjRef}
    (places : w.Places next ob before first) (placesLater : next.Places later ob name parent) :
    w.Places later ob name parent := by
  refine ⟨?_, ?_, placesLater.plain⟩
  · rw [placesLater.labels, places.labels, Function.update_idem]
  · rw [placesLater.parents, places.parents, Function.update_idem]

theorem Orderly.attach {parent : ObjRef} (orderly : w.Orderly) (stored : w.objects ob = some entry)
    (admitted : w.Admitted (.objectAttach (some parent) ob))
    (leaf : w.MovesLeaf (.objectAttach (some parent) ob))
    (taken : w.objectAttach call (some parent) ob = .ok next) :
    next.Orderly ∧ w.Places next ob entry.name (some parent) := by
  have labelled := labels_of_stored stored
  obtain ⟨clean, noFlags⟩ := orderly.plain ob _ _ labelled
  have places : w.Places next ob entry.name (some parent) := by
    refine ⟨?_, congrArg Links.parent (objectAttach_links orderly.noHooks taken), clean⟩
    rw [noFlags] at labelled
    rw [← labelled, Function.update_eq_self]
    exact objectAttach_labels orderly.noHooks orderly.plain taken
  obtain ⟨noHooks, links⟩ := orderly.moved admitted leaf (toOption_eq_some.mpr taken)
  exact ⟨⟨noHooks, links, places.plain_next orderly.plain⟩, places⟩

theorem Orderly.detach {parent : ObjRef} (orderly : w.Orderly) (up : w.parentOf ob = some parent)
    (leaf : w.MovesLeaf (.objectDetach ob)) (taken : w.objectDetach call ob = .ok next) :
    next.Orderly ∧ ∃ name, w.Places next ob name none := by
  obtain ⟨entry, stored, _⟩ := Option.bind_eq_some_iff.mp up
  have labelled := labels_of_stored stored
  obtain ⟨clean, noFlags⟩ := orderly.plain ob _ _ labelled
  have places : w.Places next ob entry.name none := by
    refine ⟨?_, congrArg Links.parent (objectDetach_links orderly.noHooks up taken), clean⟩
    rw [noFlags] at labelled
    rw [← labelled, Function.update_eq_self]
    exact objectDetach_labels orderly.noHooks up taken
  obtain ⟨noHooks, links⟩ := 
    @Orderly.moved call w next (.objectDetach ob) orderly ⟨parent, up⟩ leaf
      (toOption_eq_some.mpr taken)
  exact ⟨⟨noHooks, links, places.plain_next orderly.plain⟩, entry.name, places⟩

end World

end Agar.Core
