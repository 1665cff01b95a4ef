import Agar.Core.DataSource
import Agar.Lib.Forest
import Agar.Lib.Outcome
import Agar.Lib.Runs

namespace Agar.Core

open Agar.Lib

/-!
# Trees of items

An `AG_Tree` keeps its items twice: in a hierarchy of parents and children,
and in one flat list.  `AG_TreeRemove` destroys the item that it removes and
no item below it, and `AG_TreeAttach` does not ask whether the new parent is
below the item, so list and hierarchy agree exactly while only items without
children are removed, and no item moves below itself.
-/

/-- An `AG_Tree` in memory. -/
abbrev TreeRef := Nat

/-- An `AG_TreeItem` in memory. -/
abbrev TreeItemRef := Nat

/-- `AG_TreeItem`, without the data of the user -/
structure TreeItem where
  chldItems : List TreeItemRef
  parentTree : Option TreeRef
  parentItem : Option TreeItemRef
  deriving Repr, DecidableEq

/-- `AG_Tree` -/
structure ItemTree where
  root : Option TreeItemRef
  list : List TreeItemRef
  deriving Repr, DecidableEq

/-- Trees, and the items that are not destroyed. -/
@[ext] structure TreeMemory where
  tree : TreeRef → ItemTree
  item : TreeItemRef → Option TreeItem

/-- `AG_TAILQ_REMOVE`, of an element of the queue -/
def tailqRemove (queue : List TreeItemRef) (ti : TreeItemRef) : Except Stop (List TreeItemRef) :=
  if ti ∈ queue then .ok (queue.erase ti) else .error .undefined

namespace TreeMemory

/-- Memory with trees as `AG_TreeNew` makes them. -/
def initial : TreeMemory where
  tree _ := { root := none, list := [] }
  item _ := none

/-- Access an item. -/
def load (w : TreeMemory) (ti : TreeItemRef) : Except Stop TreeItem :=
  match w.item ti with
  | some item => .ok item
  | none => .error .undefined

def setItem (w : TreeMemory) (ti : TreeItemRef) (item : TreeItem) : TreeMemory :=
  { w with item := Function.update w.item ti (some item) }

def setTree (w : TreeMemory) (t : TreeRef) (tree : ItemTree) : TreeMemory :=
  { w with tree := Function.update w.tree t tree }

/-- `AG_TreeItemNew`, at an address that is not in use -/
def treeItemNew (w : TreeMemory) (ti : TreeItemRef) : TreeMemory :=
  w.setItem ti { chldItems := [], parentTree := none, parentItem := none }

/-- `AG_TreeItemDestroy`, which checks the item where `DEBUG` is defined -/
def treeItemDestroy (debug : Bool) (w : TreeMemory)
    (ti : TreeItemRef) : Except Stop TreeMemory := do
  let item ← w.load ti
  if debug ∧ (item.parentItem ≠ none ∨ item.parentTree ≠ none) then .error .fatal
  else return { w with item := Function.update w.item ti none }

/-- `AG_TreeAttach` -/
def treeAttach (w : TreeMemory) (tiParent ti : TreeItemRef) : Except Stop TreeMemory := do
  let parent ← w.load tiParent
  let item ← w.load ti
  let w := w.setItem ti
    { item with parentTree := parent.parentTree, parentItem := some tiParent }
  match parent.parentTree with
  | none => .error .undefined
  | some t => do
      let w := w.setTree t
        { w.tree t with list := (w.tree t).list ++ [ti] }
      let parent ← w.load tiParent
      return w.setItem tiParent
        { parent with chldItems := parent.chldItems ++ [ti] }

/-- The first half of `AG_TreeDetach`, in the hierarchy -/
def treeUnlink (w : TreeMemory) (t : TreeRef) (ti : TreeItemRef) : Except Stop TreeMemory := do
  let item ← w.load ti
  match item.parentItem with
  | some tiParent => do
      let parent ← w.load tiParent
      let chldItems ← tailqRemove parent.chldItems ti
      let w := w.setItem tiParent { parent with chldItems := chldItems }
      let item ← w.load ti
      return w.setItem ti { item with parentItem := none }
  | none =>
    if (w.tree t).root = some ti then return w.setTree t { w.tree t with root := none }
    else return w

/-- `AG_TreeDetach` -/
def treeDetach (w : TreeMemory) (t : TreeRef) (ti : TreeItemRef) : Except Stop TreeMemory := do
  let w ← w.treeUnlink t ti
  let list ← tailqRemove (w.tree t).list ti
  let w := w.setTree t { w.tree t with list := list }
  let item ← w.load ti
  return w.setItem ti { item with parentTree := none }

/-- `AG_TreeInsert`, of an item at an address that is not in use -/
def treeInsert (w : TreeMemory) (t : TreeRef) (tiParent : Option TreeItemRef)
    (ti : TreeItemRef) : Except Stop TreeMemory := do
  let w := w.treeItemNew ti
  match tiParent with
  | none => do
      let item ← w.load ti
      let w := w.setItem ti
        { item with parentTree := some t, parentItem := none }
      return w.setTree t
        { root := some ti, list := (w.tree t).list ++ [ti] }
  | some tiParent => w.treeAttach tiParent ti

/-- `AG_TreeRemove` -/
def treeRemove (debug : Bool) (w : TreeMemory) (t : TreeRef)
    (ti : TreeItemRef) : Except Stop TreeMemory := do
  let w ← w.treeDetach t ti
  w.treeItemDestroy debug ti

/-- The loop of `AG_TreeClear` -/
def destroyItems (debug : Bool) : List TreeItemRef → TreeMemory → Except Stop TreeMemory
  | [], w => .ok w
  | ti :: rest, w => do
      let w ← w.treeItemDestroy debug ti
      destroyItems debug rest w

/-- `AG_TreeClear` -/
def treeClear (debug : Bool) (w : TreeMemory) (t : TreeRef) : Except Stop TreeMemory := do
  let w ← destroyItems debug (w.tree t).list w
  return w.setTree t { root := none, list := [] }

/-! ## What memory holds -/

/-- The parent of an item. -/
def parentOf (w : TreeMemory) (ti : TreeItemRef) : Option TreeItemRef :=
  (w.item ti).bind TreeItem.parentItem

/-- The children of an item. -/
def childrenOf (w : TreeMemory) (ti : TreeItemRef) : List TreeItemRef :=
  ((w.item ti).map TreeItem.chldItems).getD []

/-- The tree of an item. -/
def treeOf (w : TreeMemory) (ti : TreeItemRef) : Option TreeRef :=
  (w.item ti).bind TreeItem.parentTree

/-- The item is not destroyed. -/
def Live (w : TreeMemory) (ti : TreeItemRef) : Prop := (w.item ti).isSome = true

instance (w : TreeMemory) (ti : TreeItemRef) : Decidable (w.Live ti) :=
  inferInstanceAs (Decidable (_ = true))

/-- The item is reached from the root through lists of children. -/
def Reachable (w : TreeMemory) (t : TreeRef) (ti : TreeItemRef) : Prop :=
  ∃ root, (w.tree t).root = some root ∧
      Relation.ReflTransGen (fun p child => child ∈ w.childrenOf p) root ti

/--
The list of a tree holds exactly the items that are reached from its root, each
once; these point to the tree, and to the item that has them as a child; and
nothing points to an item that was destroyed.
-/
structure InStep (w : TreeMemory) (t : TreeRef) : Prop where
  listed : ∀ ti, ti ∈ (w.tree t).list ↔ w.Reachable t ti
  once : (w.tree t).list.Nodup
  tree : ∀ ti, w.Reachable t ti → w.treeOf ti = some t
  parent : ∀ ti, w.Reachable t ti → ∀ p, w.parentOf ti = some p ↔ ti ∈ w.childrenOf p
  rootLive : ∀ root, (w.tree t).root = some root → w.Live root
  parentLive : ∀ ti p, w.parentOf ti = some p → w.Live p
  childLive : ∀ ti child, child ∈ w.childrenOf ti → w.Live child

/--
All items are in the list of one tree, point to it, are listed below their
parents, and have the root of the tree at their top.
-/
structure Kept (w : TreeMemory) (t : TreeRef) : Prop where
  live : ∀ ti, ti ∈ (w.tree t).list ↔ w.Live ti
  once : (w.tree t).list.Nodup
  tree : ∀ ti, w.Live ti → w.treeOf ti = some t
  lists : Listed w.parentOf w.childrenOf
  rooted : ∀ ti, w.Live ti → ∃ root, (w.tree t).root = some root ∧ Top w.parentOf ti root
  rootLive : ∀ root, (w.tree t).root = some root → w.Live root

theorem kept_initial (t : TreeRef) : initial.Kept t where
  live ti := ⟨fun member => absurd member List.not_mem_nil, nofun⟩
  once := List.nodup_nil
  tree _ live := by cases live
  lists := ⟨fun _ _ => ⟨nofun, fun member => absurd member List.not_mem_nil⟩,
    fun _ => List.nodup_nil⟩
  rooted _ live := by cases live
  rootLive _ root := by cases root

section

variable {w : TreeMemory} {t : TreeRef} {ti p : TreeItemRef}

theorem live_of_parentOf (up : w.parentOf ti = some p) : w.Live ti := by
  obtain ⟨item, stored, _⟩ := Option.bind_eq_some_iff.mp up
  exact Option.isSome_iff_exists.mpr ⟨item, stored⟩

theorem live_of_mem_childrenOf (child : ti ∈ w.childrenOf p) : w.Live p := by
  by_contra dead
  rw [childrenOf, Option.not_isSome_iff_eq_none.mp dead] at child
  exact List.not_mem_nil child

theorem Live.views (live : w.Live ti) : ∃ item, w.item ti = some item ∧ w.load ti = .ok item ∧
        w.parentOf ti = item.parentItem ∧ w.childrenOf ti = item.chldItems ∧
        w.treeOf ti = item.parentTree := by
  obtain ⟨item, stored⟩ := Option.isSome_iff_exists.mp live
  refine ⟨item, stored, ?_⟩
  simp [load, parentOf, childrenOf, treeOf, stored]

/-! ## Stores -/

section

variable {item : TreeItem} {tree : ItemTree}

@[simp] theorem parentOf_setItem : (w.setItem ti item).parentOf =
      Function.update w.parentOf ti item.parentItem := by
  funext other
  by_cases same : other = ti <;> simp [parentOf, setItem, same]

@[simp] theorem childrenOf_setItem : (w.setItem ti item).childrenOf =
      Function.update w.childrenOf ti item.chldItems := by
  funext other
  by_cases same : other = ti <;> simp [childrenOf, setItem, same]

@[simp] theorem treeOf_setItem : (w.setItem ti item).treeOf =
      Function.update w.treeOf ti item.parentTree := by
  funext other
  by_cases same : other = ti <;> simp [treeOf, setItem, same]

@[simp] theorem tree_setItem : (w.setItem ti item).tree = w.tree := rfl

theorem live_setItem (other : TreeItemRef) :
    (w.setItem ti item).Live other ↔ other = ti ∨ w.Live other := by
  by_cases same : other = ti <;> simp [Live, setItem, same]

@[simp] theorem parentOf_setTree : (w.setTree t tree).parentOf = w.parentOf := rfl

@[simp] theorem childrenOf_setTree : (w.setTree t tree).childrenOf = w.childrenOf := rfl

@[simp] theorem treeOf_setTree : (w.setTree t tree).treeOf = w.treeOf := rfl

@[simp] theorem tree_setTree : (w.setTree t tree).tree = Function.update w.tree t tree := rfl

@[simp] theorem live_setTree (other : TreeItemRef) : (w.setTree t tree).Live other ↔ w.Live other :=
  Iff.rfl

end

/-! ## What is kept -/

theorem Kept.reachable_iff (kept : w.Kept t) : w.Reachable t ti ↔ w.Live ti := by
  constructor
  · rintro ⟨root, isRoot, path⟩
    rcases Relation.ReflTransGen.cases_tail path with same | ⟨p, _, child⟩
    · rw [same]
      exact kept.rootLive root isRoot
    · exact live_of_parentOf ((kept.lists.listed ti p).mpr child)
  · intro live
    obtain ⟨root, isRoot, top⟩ := kept.rooted ti live
    exact ⟨root, isRoot, kept.lists.within_iff.mp top.within⟩

theorem Kept.inStep (kept : w.Kept t) : w.InStep t where
  listed ti := (kept.live ti).trans kept.reachable_iff.symm
  once := kept.once
  tree ti reachable := kept.tree ti (kept.reachable_iff.mp reachable)
  parent ti _ := kept.lists.listed ti
  rootLive := kept.rootLive
  parentLive ti p up := live_of_mem_childrenOf ((kept.lists.listed ti p).mp up)
  childLive p ti child := live_of_parentOf ((kept.lists.listed ti p).mpr child)

theorem Kept.parent_ne (kept : w.Kept t) (up : w.parentOf ti = some p) : p ≠ ti := by
  rintro rfl
  obtain ⟨root, _, top⟩ := kept.rooted p (live_of_parentOf up)
  exact not_top_of_self_parent up root top

theorem Kept.root_noParent (kept : w.Kept t) (isRoot : (w.tree t).root = some ti) :
    w.parentOf ti = none := by
  have live := kept.rootLive ti isRoot
  obtain ⟨root, sameRoot, top⟩ := kept.rooted ti live
  rw [isRoot] at sameRoot
  rw [Option.some.inj sameRoot]
  exact top.noParent

theorem Kept.root_of_noParent (kept : w.Kept t) (live : w.Live ti)
    (noParent : w.parentOf ti = none) : (w.tree t).root = some ti := by
  obtain ⟨root, isRoot, top⟩ := kept.rooted ti live
  rw [top.within.eq_of_noParent noParent]
  exact isRoot

/-! ## Attaching and detaching -/

/-- An item is linked below another, and at the end of a list. -/
structure Attached (w after : TreeMemory) (t : TreeRef) (p ti : TreeItemRef) : Prop where
  live : ∀ other, after.Live other ↔ w.Live other
  parentOf : after.parentOf = Function.update w.parentOf ti (some p)
  childrenOf : after.childrenOf = Function.update w.childrenOf p (w.childrenOf p ++ [ti])
  treeOf : after.treeOf = Function.update w.treeOf ti (some t)
  tree : after.tree = Function.update w.tree t
      { w.tree t with list := (w.tree t).list ++ [ti] }

theorem treeAttach_spec (parentLive : w.Live p) (live : w.Live ti) (different : p ≠ ti)
    (inTree : w.treeOf p = some t) :
    ∃ after, w.treeAttach p ti = .ok after ∧ Attached w after t p ti := by
  obtain ⟨parent, storedParent, loadedParent, _, children, tree⟩ := parentLive.views
  obtain ⟨item, stored, loaded, _, itemChildren, _⟩ := live.views
  rw [inTree] at tree
  let linked := w.setItem ti
    { item with parentTree := some t, parentItem := some p }
  let listed := linked.setTree t
    { linked.tree t with list := (linked.tree t).list ++ [ti] }
  have again : listed.load p = .ok parent := by
    have stays : listed.item p = some parent := by
      simp [listed, linked, setTree, setItem, different, storedParent]
    rw [load, stays]
  let after := listed.setItem p
    { parent with chldItems := parent.chldItems ++ [ti] }
  refine ⟨after, ?_, ?_⟩
  · unfold treeAttach
    rw [loadedParent, loaded]
    simp only [bind, Except.bind, ← tree]
    rw [again]
    rfl
  · have parentUp : Function.update w.parentOf ti (some p) p = parent.parentItem := by
      rw [Function.update_of_ne different]
      simp [TreeMemory.parentOf, storedParent]
    have parentIn : Function.update w.treeOf ti (some t) p = parent.parentTree := by
      rw [Function.update_of_ne different, inTree, tree]
    refine ⟨fun other => ?_, ?_, ?_, ?_, rfl⟩
    · simp only [after, listed, linked, live_setItem, live_setTree]
      constructor
      · rintro (rfl | rfl | held)
        · exact parentLive
        · exact live
        · exact held
      · exact fun held => .inr (.inr held)
    · simp only [after, listed, linked, parentOf_setItem, parentOf_setTree]
      rw [← parentUp, Function.update_eq_self]
    · simp only [after, listed, linked, childrenOf_setItem,
        childrenOf_setTree, ← itemChildren, Function.update_eq_self,
        ← children]
    · simp only [after, listed, linked, treeOf_setItem, treeOf_setTree]
      rw [← parentIn, Function.update_eq_self]

/-- An item is linked nowhere; where it was the root, there is none. -/
structure Detached (w after : TreeMemory) (t : TreeRef) (ti : TreeItemRef) : Prop where
  live : ∀ other, after.Live other ↔ other = ti ∨ w.Live other
  parentOf : after.parentOf = Function.update w.parentOf ti none
  lists : Listed after.parentOf after.childrenOf
  children : after.childrenOf ti = w.childrenOf ti
  treeOf : after.treeOf = Function.update w.treeOf ti none
  root : (after.tree t).root = if (w.tree t).root = some ti then none else (w.tree t).root
  list : (after.tree t).list = (w.tree t).list.erase ti

theorem treeUnlink_spec (kept : w.Kept t) (live : w.Live ti) : ∃ after,
      w.treeUnlink t ti = .ok after ∧ (∀ other, after.Live other ↔ w.Live other) ∧
        after.parentOf = Function.update w.parentOf ti none ∧
        Listed after.parentOf after.childrenOf ∧ after.childrenOf ti = w.childrenOf ti ∧
        after.treeOf = w.treeOf ∧
        (after.tree t).root = (if (w.tree t).root = some ti then none else (w.tree t).root) ∧
          (after.tree t).list = (w.tree t).list := by
  obtain ⟨item, stored, loaded, up, children, tree⟩ := live.views
  unfold treeUnlink
  rw [loaded]
  cases parentItem : item.parentItem with
  | none =>
    rw [parentItem] at up
    have isRoot := kept.root_of_noParent live up
    have same : Function.update w.parentOf ti none = w.parentOf := by
      rw [← up, Function.update_eq_self]
    refine ⟨w.setTree t { w.tree t with root := none }, ?_,
      fun other => Iff.rfl, ?_, kept.lists, rfl, rfl, ?_, ?_⟩
    · simp only [bind, Except.bind, parentItem, if_pos isRoot]
      rfl
    · rw [parentOf_setTree, same]
    · rw [if_pos isRoot, tree_setTree, Function.update_self]
    · rw [tree_setTree, Function.update_self]
  | some p =>
    rw [parentItem] at up
    have different := kept.parent_ne up
    have child := (kept.lists.listed ti p).mp up
    obtain ⟨parent, storedParent, loadedParent, parentUp, parentChildren,
      parentTree⟩ := (live_of_mem_childrenOf child).views
    have notRoot : ¬ (w.tree t).root = some ti := by
      intro isRoot
      rw [kept.root_noParent isRoot] at up
      cases up
    rw [parentChildren] at child
    let unlisted := w.setItem p
      { parent with chldItems := parent.chldItems.erase ti }
    have again : unlisted.load ti = .ok item := by
      have stays : unlisted.item ti = some item := by
        simp [unlisted, setItem, different.symm, stored]
      rw [load, stays]
    let after := unlisted.setItem ti { item with parentItem := none }
    have parents : after.parentOf = Function.update w.parentOf ti none := by
      simp only [after, unlisted, parentOf_setItem, ← parentUp, Function.update_eq_self]
    have lists : after.childrenOf = Function.update w.childrenOf p ((w.childrenOf p).erase ti) := by
      have itself : Function.update w.childrenOf p ((w.childrenOf p).erase ti) ti =
            item.chldItems := by
        rw [Function.update_of_ne different.symm, children]
      simp only [after, unlisted, childrenOf_setItem, ← parentChildren]
      rw [← itself, Function.update_eq_self]
    have trees : after.treeOf = w.treeOf := by
      simp only [after, unlisted, treeOf_setItem, ← parentTree, ← tree, Function.update_eq_self]
    refine ⟨after, ?_, fun other => ?_, parents, ?_, ?_, trees, ?_, rfl⟩
    · simp only [bind, Except.bind, parentItem, loadedParent, tailqRemove, if_pos child]
      rw [again]
      rfl
    · simp only [after, unlisted, live_setItem]
      constructor
      · rintro (rfl | rfl | held)
        · exact live
        · exact Option.isSome_iff_exists.mpr ⟨parent, storedParent⟩
        · exact held
      · exact fun held => .inr (.inr held)
    · rw [parents, lists]
      exact kept.lists.detach up
    · rw [lists, Function.update_of_ne different.symm]
    · rw [if_neg notRoot]
      rfl

theorem treeDetach_spec (kept : w.Kept t) (live : w.Live ti) :
    ∃ after, w.treeDetach t ti = .ok after ∧ Detached w after t ti := by
  obtain ⟨unlinked, done, lives, parents, lists, children, trees, root, list⟩ :=
    treeUnlink_spec kept live
  have member : ti ∈ (unlinked.tree t).list := by
    rw [list]
    exact (kept.live ti).mpr live
  let unlisted := unlinked.setTree t
    { unlinked.tree t with list := (unlinked.tree t).list.erase ti }
  have liveAfter : unlisted.Live ti := (lives ti).mpr live
  obtain ⟨item, stored, loaded, up, itemChildren, _⟩ := liveAfter.views
  let after := unlisted.setItem ti { item with parentTree := none }
  have parentsAfter : after.parentOf = unlinked.parentOf := by
    simp only [after, parentOf_setItem, ← up, Function.update_eq_self]
    rfl
  have childrenAfter : after.childrenOf = unlinked.childrenOf := by
    simp only [after, childrenOf_setItem, ← itemChildren, Function.update_eq_self]
    rfl
  refine ⟨after, ?_, fun other => ?_, ?_, ?_, ?_, ?_, ?_, ?_⟩
  · unfold treeDetach
    simp only [done, bind, Except.bind, tailqRemove, if_pos member]
    rw [loaded]
    rfl
  · rw [live_setItem]
    exact or_congr_right (lives other)
  · rw [parentsAfter, parents]
  · rw [parentsAfter, childrenAfter]
    exact lists
  · rw [childrenAfter, children]
  · simp only [after, treeOf_setItem, unlisted, treeOf_setTree, trees]
  · simp only [after, unlisted, tree_setItem, tree_setTree, Function.update_self, root]
  · simp only [after, unlisted, tree_setItem, tree_setTree, Function.update_self, list]

theorem treeItemNew_detached (kept : w.Kept t) (fresh : ¬ w.Live ti) :
    Detached w (w.treeItemNew ti) t ti := by
  have empty := Option.not_isSome_iff_eq_none.mp fresh
  have up : w.parentOf ti = none := by rw [parentOf, empty]; rfl
  have children : w.childrenOf ti = [] := by rw [childrenOf, empty]; rfl
  have notRoot : ¬ (w.tree t).root = some ti := fun isRoot => fresh (kept.rootLive ti isRoot)
  have absent : ti ∉ (w.tree t).list := fun member => fresh ((kept.live ti).mp member)
  refine ⟨live_setItem, ?_, ?_, ?_, ?_, ?_, ?_⟩
  · rw [treeItemNew, parentOf_setItem]
  · rw [treeItemNew, parentOf_setItem, childrenOf_setItem]
    dsimp only
    rw [← up, ← children, Function.update_eq_self, Function.update_eq_self]
    exact kept.lists
  · rw [treeItemNew, childrenOf_setItem, Function.update_self, children]
  · rw [treeItemNew, treeOf_setItem]
  · rw [if_neg notRoot]
    rfl
  · rw [List.erase_of_not_mem absent]
    rfl

theorem Kept.attached {mid after : TreeMemory} (kept : w.Kept t) (detached : Detached w mid t ti)
    (attached : Attached mid after t p ti) (parentLive : w.Live p)
    (outside : ¬ Within w.parentOf p ti) : after.Kept t := by
  obtain ⟨root, isRoot, parentTop⟩ := kept.rooted p parentLive
  have notRoot : ¬ (w.tree t).root = some ti := by
    rw [isRoot, Option.some.injEq]
    rintro rfl
    exact outside parentTop.within
  have noParent : mid.parentOf ti = none := by rw [detached.parentOf, Function.update_self]
  have parents : after.parentOf = Function.update w.parentOf ti (some p) := by
    rw [attached.parentOf, detached.parentOf, Function.update_idem]
  have lists : Listed after.parentOf after.childrenOf := by
    rw [attached.parentOf, attached.childrenOf]
    exact detached.lists.attach noParent p
  have lives (other : TreeItemRef) : after.Live other ↔ other = ti ∨ w.Live other :=
    (attached.live other).trans (detached.live other)
  have rootAfter : (after.tree t).root = some root := by
    rw [attached.tree, Function.update_self, detached.root, if_neg notRoot, isRoot]
  have listAfter : (after.tree t).list = (w.tree t).list.erase ti ++ [ti] := by
    rw [attached.tree, Function.update_self, detached.list]
  refine ⟨fun other => ?_, ?_, fun other live => ?_, lists,
    fun other live => ⟨root, rootAfter, ?_⟩, fun other same => ?_⟩
  · rw [lives, listAfter, List.mem_append, List.mem_singleton, kept.once.mem_erase_iff, kept.live]
    tauto
  · rw [listAfter]
    refine List.nodup_append.mpr ⟨kept.once.erase ti, List.nodup_singleton ti, ?_⟩
    rintro other member last isLast rfl
    rw [List.mem_singleton.mp isLast] at member
    exact (kept.once.mem_erase_iff.mp member).1 rfl
  · rw [attached.treeOf]
    by_cases here : other = ti
    · rw [here, Function.update_self]
    · rw [Function.update_of_ne here, detached.treeOf, Function.update_of_ne here]
      exact kept.tree other (((lives other).mp live).resolve_left here)
  · rw [parents]
    refine parentTop.update_below outside ?_
    rcases (lives other).mp live with rfl | held
    · exact .inl (Within.refl other)
    · obtain ⟨top, isTop, climbs⟩ := kept.rooted other held
      rw [isRoot] at isTop
      rw [Option.some.inj isTop]
      exact .inr climbs
  · rw [rootAfter] at same
    rw [lives, ← Option.some.inj same]
    exact .inr (kept.rootLive root isRoot)

/-! ## Operations -/

theorem kept_of_empty (dead : ∀ ti, ¬ w.Live ti) (empty : w.tree t = { root := none, list := [] }) :
    w.Kept t where
  live ti := by
    rw [empty]
    exact ⟨fun member => absurd member List.not_mem_nil, fun live => absurd live (dead ti)⟩
  once := by
    rw [empty]
    exact List.nodup_nil
  tree ti live := absurd live (dead ti)
  lists :=
    { listed := fun ti p =>
        ⟨fun up => absurd (live_of_parentOf up) (dead ti),
          fun child => absurd (live_of_mem_childrenOf child) (dead p)⟩
      once := fun p => by
        rw [childrenOf, Option.not_isSome_iff_eq_none.mp (dead p)]
        exact List.nodup_nil }
  rooted ti live := absurd live (dead ti)
  rootLive root isRoot := by
    rw [empty] at isRoot
    cases isRoot

theorem Kept.insert_root (kept : w.Kept t) (noRoot : (w.tree t).root = none) (fresh : ¬ w.Live ti) :
    ∃ after, w.treeInsert t none ti = .ok after ∧ after.Kept t := by
  have dead (other : TreeItemRef) : ¬ w.Live other := by
    intro live
    obtain ⟨root, isRoot, _⟩ := kept.rooted other live
    rw [noRoot] at isRoot
    cases isRoot
  have emptyList : (w.tree t).list = [] :=
    List.eq_nil_iff_forall_not_mem.mpr fun other member => dead other ((kept.live other).mp member)
  have detached := treeItemNew_detached kept fresh
  have live : (w.treeItemNew ti).Live ti := (detached.live ti).mpr (.inl rfl)
  obtain ⟨item, stored, loaded, up, children, _⟩ := live.views
  let linked := (w.treeItemNew ti).setItem ti
    { item with parentTree := some t, parentItem := none }
  let after := linked.setTree t
    { root := some ti, list := (linked.tree t).list ++ [ti] }
  have parents : after.parentOf = (w.treeItemNew ti).parentOf := by
    have noParent : (w.treeItemNew ti).parentOf ti = none := by
      rw [detached.parentOf, Function.update_self]
    simp only [after, linked, parentOf_setTree, parentOf_setItem]
    rw [← noParent, Function.update_eq_self]
  have lists : after.childrenOf = (w.treeItemNew ti).childrenOf := by
    simp only [after, linked, childrenOf_setTree, childrenOf_setItem,
      ← children, Function.update_eq_self]
  have lives (other : TreeItemRef) : after.Live other ↔ other = ti := by
    simp only [after, linked, live_setTree, live_setItem, detached.live]
    have := dead other
    tauto
  have listAfter : (after.tree t).list = [ti] := by
    have kept : (linked.tree t).list = (w.tree t).list := rfl
    simp only [after, tree_setTree, Function.update_self, kept, emptyList]
    rfl
  have rootAfter : (after.tree t).root = some ti := by
    simp only [after, tree_setTree, Function.update_self]
  refine ⟨after, ?_, ?_⟩
  · simp only [treeInsert, loaded, bind, Except.bind]
    rfl
  · refine ⟨fun other => ?_, ?_, fun other live => ?_, ?_,
      fun other live => ⟨ti, rootAfter, ?_⟩, fun root isRoot => ?_⟩
    · rw [lives, listAfter, List.mem_singleton]
    · rw [listAfter]
      exact List.nodup_singleton ti
    · rw [(lives other).mp live]
      simp only [after, linked, treeOf_setTree, treeOf_setItem, Function.update_self]
    · rw [parents, lists]
      exact detached.lists
    · rw [(lives other).mp live, parents]
      apply Top.self
      rw [detached.parentOf, Function.update_self]
    · rw [rootAfter] at isRoot
      rw [lives, ← Option.some.inj isRoot]

theorem Kept.insert_below (kept : w.Kept t) (parentLive : w.Live p) (fresh : ¬ w.Live ti) :
    ∃ after, w.treeInsert t (some p) ti = .ok after ∧ after.Kept t := by
  have detached := treeItemNew_detached kept fresh
  have different : p ≠ ti := fun same => fresh (same ▸ parentLive)
  have inTree : (w.treeItemNew ti).treeOf p = some t := by
    rw [detached.treeOf, Function.update_of_ne different]
    exact kept.tree p parentLive
  obtain ⟨after, done, attached⟩ :=
    treeAttach_spec ((detached.live p).mpr (.inr parentLive))
      ((detached.live ti).mpr (.inl rfl)) different inTree
  refine ⟨after, done, kept.attached detached attached parentLive ?_⟩
  intro within
  obtain ⟨child, up⟩ := within.through_child different
  exact fresh (live_of_mem_childrenOf ((kept.lists.listed child ti).mp up))

/-- `AG_TreeDetach`, then `AG_TreeAttach` -/
def treeMove (w : TreeMemory) (t : TreeRef)
    (ti tiParent : TreeItemRef) : Except Stop TreeMemory := do
  let w ← w.treeDetach t ti
  w.treeAttach tiParent ti

theorem Kept.move (kept : w.Kept t) (live : w.Live ti) (parentLive : w.Live p)
    (outside : ¬ Within w.parentOf p ti) :
    ∃ after, w.treeMove t ti p = .ok after ∧ after.Kept t := by
  obtain ⟨mid, done, detached⟩ := treeDetach_spec kept live
  have different : p ≠ ti := by
    rintro rfl
    exact outside (Within.refl p)
  have inTree : mid.treeOf p = some t := by
    rw [detached.treeOf, Function.update_of_ne different]
    exact kept.tree p parentLive
  obtain ⟨after, linked, attached⟩ :=
    treeAttach_spec ((detached.live p).mpr (.inr parentLive))
      ((detached.live ti).mpr (.inl rfl)) different inTree
  refine ⟨after, ?_, kept.attached detached attached parentLive outside⟩
  simp only [treeMove, done, bind, Except.bind]
  exact linked

theorem Kept.move_inStep {after : TreeMemory} (kept : w.Kept t) (live : w.Live ti)
    (parentLive : w.Live p) (moved : w.treeMove t ti p = .ok after) (inStep : after.InStep t) :
    ¬ Within w.parentOf p ti := by
  intro below
  obtain ⟨mid, done, detached⟩ := treeDetach_spec kept live
  simp only [treeMove, done, bind, Except.bind] at moved
  by_cases different : p = ti
  · -- the item has no tree that its parent could give it
    have liveMid : mid.Live ti := (detached.live ti).mpr (.inl rfl)
    obtain ⟨item, _, loaded, _, _, tree⟩ := liveMid.views
    rw [detached.treeOf, Function.update_self] at tree
    simp only [treeAttach, different, loaded, bind, Except.bind, ← tree] at moved
    cases moved
  · have inTree : mid.treeOf p = some t := by
      rw [detached.treeOf, Function.update_of_ne different]
      exact kept.tree p parentLive
    obtain ⟨linked, isLinked, attached⟩ :=
      treeAttach_spec ((detached.live p).mpr (.inr parentLive))
        ((detached.live ti).mpr (.inl rfl)) different inTree
    rw [isLinked] at moved
    cases moved
    have parents : after.parentOf = Function.update w.parentOf ti (some p) := by
      rw [attached.parentOf, detached.parentOf, Function.update_idem]
    have noParent : mid.parentOf ti = none := by rw [detached.parentOf, Function.update_self]
    have lists : Listed after.parentOf after.childrenOf := by
      rw [attached.parentOf, attached.childrenOf]
      exact detached.lists.attach noParent p
    have member : ti ∈ (after.tree t).list := by
      rw [attached.tree, Function.update_self]
      exact List.mem_append_right _ (List.mem_singleton_self ti)
    obtain ⟨root, isRoot, path⟩ := (inStep.listed ti).mp member
    rw [attached.tree, Function.update_self, detached.root, Option.ite_none_left_eq_some] at isRoot
    obtain ⟨notRoot, isRoot⟩ := isRoot
    have rootNoParent : after.parentOf root = none := by
      rw [parents, Function.update_of_ne]
      · exact kept.root_noParent isRoot
      · rintro rfl
        exact notRoot isRoot
    have up : after.parentOf ti = some p := by rw [parents, Function.update_self]
    have cycle : Within after.parentOf p ti := by
      rw [parents]
      exact below.update
    exact not_top_of_cycle up cycle root ⟨lists.within_iff.mpr path, rootNoParent⟩

/-! ## Destroying items -/

theorem treeItemDestroy_spec {debug : Bool} (live : w.Live ti)
    (unlinked : debug = true → w.parentOf ti = none ∧ w.treeOf ti = none) :
    ∃ after, w.treeItemDestroy debug ti = .ok after ∧ after.tree = w.tree ∧
        (∀ other, after.Live other ↔ other ≠ ti ∧ w.Live other) ∧
        after.parentOf = Function.update w.parentOf ti none ∧
        after.childrenOf = Function.update w.childrenOf ti [] ∧
        after.treeOf = Function.update w.treeOf ti none := by
  obtain ⟨item, stored, loaded, up, children, tree⟩ := live.views
  have passes : ¬ (debug = true ∧ (item.parentItem ≠ none ∨ item.parentTree ≠ none)) := by
    rintro ⟨isDebug, linked⟩
    obtain ⟨noParent, noTree⟩ := unlinked isDebug
    rw [← up, ← tree] at linked
    exact linked.elim (absurd noParent) (absurd noTree)
  refine ⟨{ w with item := Function.update w.item ti none }, ?_, rfl, fun other => ?_, ?_, ?_, ?_⟩
  · simp only [treeItemDestroy, loaded, bind, Except.bind, if_neg passes]
    rfl
  · by_cases same : other = ti <;> simp [Live, same]
  · funext other
    by_cases same : other = ti <;> simp [TreeMemory.parentOf, same]
  · funext other
    by_cases same : other = ti <;> simp [TreeMemory.childrenOf, same]
  · funext other
    by_cases same : other = ti <;> simp [TreeMemory.treeOf, same]

theorem Kept.outside_of_childless (kept : w.Kept t) (childless : w.childrenOf ti = [])
    {other : TreeItemRef} (different : other ≠ ti) : ¬ Within w.parentOf other ti := by
  intro within
  obtain ⟨child, up⟩ := within.through_child different
  rw [kept.lists.listed, childless] at up
  cases up

theorem treeRemove_spec (debug : Bool) (kept : w.Kept t) (live : w.Live ti) : ∃ mid after,
      w.treeRemove debug t ti = .ok after ∧ Detached w mid t ti ∧ after.tree = mid.tree ∧
        (∀ other, after.Live other ↔ other ≠ ti ∧ w.Live other) ∧
        after.parentOf = Function.update w.parentOf ti none ∧
        after.childrenOf = Function.update mid.childrenOf ti [] ∧
        after.treeOf = Function.update w.treeOf ti none := by
  obtain ⟨mid, done, detached⟩ := treeDetach_spec kept live
  obtain ⟨after, destroyed, trees, lives, parents, lists, owners⟩ :=
    @treeItemDestroy_spec mid ti debug ((detached.live ti).mpr (.inl rfl)) fun _ =>
        ⟨by rw [detached.parentOf, Function.update_self],
          by rw [detached.treeOf, Function.update_self]⟩
  refine ⟨mid, after, ?_, detached, trees, fun other => ?_, ?_, lists, ?_⟩
  · simp only [treeRemove, done, bind, Except.bind]
    exact destroyed
  · rw [lives, detached.live]
    tauto
  · rw [parents, detached.parentOf, Function.update_idem]
  · rw [owners, detached.treeOf, Function.update_idem]

theorem Kept.remove (debug : Bool) (kept : w.Kept t) (live : w.Live ti)
    (childless : w.childrenOf ti = []) :
    ∃ after, w.treeRemove debug t ti = .ok after ∧ after.Kept t := by
  obtain ⟨mid, after, done, detached, trees, lives, parents, lists, owners⟩ :=
    treeRemove_spec debug kept live
  have listAfter : (after.tree t).list = (w.tree t).list.erase ti := by rw [trees, detached.list]
  have outside {other : TreeItemRef} (different : other ≠ ti) :=
    kept.outside_of_childless childless different
  refine ⟨after, done, fun other => ?_, ?_, fun other live => ?_, ?_,
    fun other live => ?_, fun root isRoot => ?_⟩
  · rw [lives, listAfter, kept.once.mem_erase_iff, kept.live]
  · rw [listAfter]
    exact kept.once.erase ti
  · obtain ⟨different, held⟩ := (lives other).mp live
    rw [owners, Function.update_of_ne different]
    exact kept.tree other held
  · have sameLists : after.childrenOf = mid.childrenOf := by
      rw [lists, ← childless, ← detached.children, Function.update_eq_self]
    rw [sameLists, parents, ← detached.parentOf]
    exact detached.lists
  · obtain ⟨different, held⟩ := (lives other).mp live
    obtain ⟨root, isRoot, top⟩ := kept.rooted other held
    have notRoot : ¬ (w.tree t).root = some ti := by
      rw [isRoot, Option.some.injEq]
      rintro rfl
      exact outside different top.within
    refine ⟨root, ?_, ?_⟩
    · rw [trees, detached.root, if_neg notRoot, isRoot]
    · rw [parents]
      exact top.update_outside (outside different)
  · rw [trees, detached.root, Option.ite_none_left_eq_some] at isRoot
    obtain ⟨notRoot, isRoot⟩ := isRoot
    rw [lives]
    refine ⟨?_, kept.rootLive root isRoot⟩
    rintro rfl
    exact notRoot isRoot

theorem Kept.remove_inStep {debug : Bool} {after : TreeMemory} (kept : w.Kept t) (live : w.Live ti)
    (removed : w.treeRemove debug t ti = .ok after) (inStep : after.InStep t) :
    w.childrenOf ti = [] := by
  obtain ⟨_, _, done, _, _, lives, parents, _⟩ := treeRemove_spec debug kept live
  rw [done] at removed
  cases removed
  rw [List.eq_nil_iff_forall_not_mem]
  intro child member
  have up := (kept.lists.listed child ti).mpr member
  have different := (kept.parent_ne up).symm
  have upAfter : after.parentOf child = some ti := by
    rw [parents, Function.update_of_ne different, up]
  have dangling := inStep.parentLive child ti upAfter
  exact ((lives ti).mp dangling).1 rfl

theorem destroyItems_spec {list : List TreeItemRef} (once : list.Nodup)
    (lives : ∀ ti ∈ list, w.Live ti) :
    ∃ after, destroyItems false list w = .ok after ∧
        ∀ other, after.Live other ↔ other ∉ list ∧ w.Live other := by
  induction list generalizing w with
  | nil =>
    refine ⟨w, rfl, fun other => ?_⟩
    exact (and_iff_right List.not_mem_nil).symm
  | cons ti rest ih =>
    obtain ⟨fresh, onceRest⟩ := List.nodup_cons.mp once
    obtain ⟨next, done, _, livesNext, _⟩ :=
      @treeItemDestroy_spec w ti false (lives ti List.mem_cons_self) nofun
    obtain ⟨after, cleared, livesAfter⟩ :=
      @ih next onceRest fun other member =>
        (livesNext other).mpr
          ⟨fun same => fresh (same ▸ member), lives other (List.mem_cons_of_mem ti member)⟩
    refine ⟨after, ?_, fun other => ?_⟩
    · simp only [destroyItems, done, bind, Except.bind]
      exact cleared
    · rw [livesAfter, livesNext, List.mem_cons]
      tauto

theorem Kept.clear {debug : Bool} (kept : w.Kept t)
    (unchecked : debug = false ∨ (w.tree t).list = []) :
    ∃ after, w.treeClear debug t = .ok after ∧ after.Kept t := by
  have cleared : ∃ next, destroyItems debug (w.tree t).list w = .ok next ∧
          ∀ other, ¬ next.Live other := by
    rcases unchecked with rfl | empty
    · obtain ⟨next, done, lives⟩ :=
        destroyItems_spec kept.once fun ti => (kept.live ti).mp
      refine ⟨next, done, fun other live => ?_⟩
      obtain ⟨absent, held⟩ := (lives other).mp live
      exact absent ((kept.live other).mpr held)
    · rw [empty]
      refine ⟨w, rfl, fun other live => ?_⟩
      rw [← kept.live, empty] at live
      cases live
  obtain ⟨next, done, dead⟩ := cleared
  refine ⟨next.setTree t { root := none, list := [] }, ?_,
    kept_of_empty dead (Function.update_self ..)⟩
  simp only [treeClear, done, bind, Except.bind]
  rfl

theorem Kept.clear_unchecked {debug : Bool} {after : TreeMemory} (kept : w.Kept t)
    (cleared : w.treeClear debug t = .ok after) : debug = false ∨ (w.tree t).list = [] := by
  by_contra checked
  rw [not_or, Bool.not_eq_false] at checked
  obtain ⟨isDebug, nonempty⟩ := checked
  obtain ⟨ti, rest, shape⟩ := List.exists_cons_of_ne_nil nonempty
  have live : w.Live ti := by
    rw [← kept.live, shape]
    exact List.mem_cons_self
  obtain ⟨item, _, loaded, _, _, tree⟩ := live.views
  rw [kept.tree ti live] at tree
  have linked : item.parentItem ≠ none ∨ item.parentTree ≠ none := by
    rw [← tree]
    exact .inr nofun
  simp only [treeClear, shape, destroyItems, treeItemDestroy, loaded, bind,
    Except.bind, if_pos (And.intro isDebug linked)] at cleared
  cases cleared

end

end TreeMemory

/-! ## Runs -/

/-- A call on a tree. -/
inductive ItemTreeOp where
  | treeInsert (tiParent : Option TreeItemRef) (ti : TreeItemRef)
  | treeMove (ti tiParent : TreeItemRef)
  | treeRemove (ti : TreeItemRef)
  | treeClear

namespace TreeMemory

/-- Make a call, where it is defined. -/
def step (debug : Bool) (t : TreeRef) (w : TreeMemory) : ItemTreeOp → Option TreeMemory
  | .treeInsert tiParent ti => (w.treeInsert t tiParent ti).toOption
  | .treeMove ti tiParent => (w.treeMove t ti tiParent).toOption
  | .treeRemove ti => (w.treeRemove debug t ti).toOption
  | .treeClear => (w.treeClear debug t).toOption

/--
Calls are on items that are not destroyed; a new item is elsewhere in memory,
and is a first item where there is no root.
-/
def Admitted (t : TreeRef) (w : TreeMemory) : ItemTreeOp → Prop
  | .treeInsert none ti => (w.tree t).root = none ∧ ¬ w.Live ti
  | .treeInsert (some tiParent) ti => w.Live tiParent ∧ ¬ w.Live ti
  | .treeMove ti tiParent => w.Live ti ∧ w.Live tiParent
  | .treeRemove ti => w.Live ti
  | .treeClear => True

/--
No item moves below itself, and items that are removed have no children; where
`DEBUG` is defined, trees that have items are not cleared.
-/
def LeavesOnly (debug : Bool) (t : TreeRef) (w : TreeMemory) : ItemTreeOp → Prop
  | .treeInsert _ _ => True
  | .treeMove ti tiParent => ¬ Within w.parentOf tiParent ti
  | .treeRemove ti => w.childrenOf ti = []
  | .treeClear => debug = false ∨ (w.tree t).list = []

theorem Kept.step {debug : Bool} {t : TreeRef} {w : TreeMemory} {op : ItemTreeOp} (kept : w.Kept t)
    (admitted : w.Admitted t op) (condition : w.LeavesOnly debug t op) :
    ∃ next, w.step debug t op = some next ∧ next.Kept t := by
  have taken {outcome : Except Stop TreeMemory}
      (done : ∃ after, outcome = .ok after ∧ after.Kept t) :
      ∃ next, outcome.toOption = some next ∧ next.Kept t := by
    obtain ⟨after, rfl, keptAfter⟩ := done
    exact ⟨after, rfl, keptAfter⟩
  cases op with
  | treeInsert tiParent ti =>
    cases tiParent with
    | none => exact taken (kept.insert_root admitted.1 admitted.2)
    | some p => exact taken (kept.insert_below admitted.1 admitted.2)
  | treeMove ti p => exact taken (kept.move admitted.1 admitted.2 condition)
  | treeRemove ti => exact taken (kept.remove debug admitted condition)
  | treeClear => exact taken (kept.clear condition)

theorem Kept.leavesOnly {debug : Bool} {t : TreeRef} {w next : TreeMemory} {op : ItemTreeOp}
    (kept : w.Kept t) (admitted : w.Admitted t op) (taken : w.step debug t op = some next)
    (inStep : next.InStep t) : w.LeavesOnly debug t op := by
  cases op with
  | treeInsert tiParent ti => trivial
  | treeMove ti p => exact kept.move_inStep admitted.1 admitted.2 (toOption_eq_some.mp taken) inStep
  | treeRemove ti => exact kept.remove_inStep admitted (toOption_eq_some.mp taken) inStep
  | treeClear => exact kept.clear_unchecked (toOption_eq_some.mp taken)

end TreeMemory

/--
The list of a tree is in step with its hierarchy, after every call of a
sequence, exactly when no call removes an item that has children or moves an
item below itself (and none clears a tree of items where `DEBUG` checks them).
-/
theorem itemTree_inStep_iff (debug : Bool) (t : TreeRef) (ops : List ItemTreeOp)
    (admitted : EachStep (TreeMemory.step debug t) (TreeMemory.Admitted t) TreeMemory.initial ops) :
    RunsWell (TreeMemory.step debug t) (TreeMemory.InStep · t) TreeMemory.initial ops ↔
      EachStep (TreeMemory.step debug t) (TreeMemory.LeavesOnly debug t) TreeMemory.initial ops :=
  runsWell_iff_eachStep_of_admitted (TreeMemory.Kept · t) (fun _ kept => kept.inStep)
    (fun _ _ kept => kept.step)
    (fun _ _ _ kept => kept.leavesOnly)
    (TreeMemory.kept_initial t) admitted

theorem itemTree_inStep_iff_brothers : RunsWell (TreeMemory.step false 0) (TreeMemory.InStep · 0)
      TreeMemory.initial
      [.treeInsert none 1, .treeInsert (some 1) 2, .treeInsert (some 1) 3,
        .treeInsert (some 2) 4, .treeMove 2 3] := by
  refine (itemTree_inStep_iff false 0 _ ?_).mpr ?_
  · refine .cons ⟨rfl, by decide⟩ rfl ?_
    refine .cons ⟨rfl, by decide⟩ rfl ?_
    refine .cons ⟨rfl, by decide⟩ rfl ?_
    refine .cons ⟨rfl, by decide⟩ rfl ?_
    exact .cons ⟨rfl, rfl⟩ rfl trivial
  · refine .cons trivial rfl ?_
    refine .cons trivial rfl ?_
    refine .cons trivial rfl ?_
    refine .cons trivial rfl ?_
    refine .cons (fun below => ?_) rfl trivial
    rcases below.cases with same | ⟨p, up, below⟩
    · cases same
    · obtain rfl : 1 = p := Option.some.inj up
      cases below.eq_of_noParent rfl

theorem removed_parent_dangles : EachStep (TreeMemory.step false 0) (TreeMemory.Admitted 0)
        TreeMemory.initial
        [.treeInsert none 1, .treeInsert (some 1) 2, .treeInsert (some 2) 3, .treeRemove 2] ∧
      ¬ RunsWell (TreeMemory.step false 0) (TreeMemory.InStep · 0) TreeMemory.initial
        [.treeInsert none 1, .treeInsert (some 1) 2, .treeInsert (some 2) 3, .treeRemove 2] := by
  constructor
  · refine .cons ⟨rfl, by decide⟩ rfl ?_
    refine .cons ⟨rfl, by decide⟩ rfl ?_
    refine .cons ⟨rfl, by decide⟩ rfl ?_
    exact .cons rfl rfl trivial
  · rintro ⟨_, first, made, _, second, below, _, third, deep, _, last, removed, inStep⟩
    cases made
    cases below
    cases deep
    cases removed
    have dangling := inStep.parentLive 3 2 rfl
    cases dangling

end Agar.Core
