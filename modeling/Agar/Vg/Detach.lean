import Agar.Vg.Tree

namespace Agar.Vg

open Agar.Lib Agar.Core

/-!
# Detaching and deleting nodes

`VG_NodeDetach` leaves a node, and all that is below it, without a drawing;
`VG_Delete` detaches and frees nodes.  The links agree throughout.
-/

namespace Drawings

/-! ## Detaching -/

/-- What detaching a node without children does -/
structure Unlinked (s : Drawings) (p vn vg : Nat) (after : Drawings) : Prop where
  grove : after.grove = s.grove.detach p vn vg
  records : SameRecords s after

theorem nodeUnlink_ok {s : Drawings} {p vn vg : Nat} (linked : s.grove.Linked)
    (owned : s.grove.owner vn = some vg) (up : s.grove.parent vn = some p)
    (childless : s.grove.children vn = []) :
    ∃ after, s.nodeUnlink vn vg = .ok after ∧ Unlinked s p vn vg after := by
  obtain ⟨node, found, hasVg⟩ := cell_of_owner owned
  have parentOf : node.parent = some p := (parent_of_cell found).symm.trans up
  have noChildren : node.cNodes = [] := (children_of_cell found).symm.trans childless
  have listedBelow := (linked.lists.listed vn p).mp up
  have different : p ≠ vn := by
    rintro rfl
    rw [childless] at listedBelow
    cases listedBelow
  obtain ⟨parentNode, foundParent, below⟩ : ∃ parentNode, s.heap.cells p = some parentNode ∧
        vn ∈ parentNode.cNodes := by
    rcases foundParent : s.heap.cells p with _ | parentNode
    · simp [grove, foundParent] at listedBelow
    · exact ⟨parentNode, rfl, children_of_cell foundParent ▸ listedBelow⟩
  have listed : vn ∈ s.grove.members vg :=
    (linked.listed vg vn).mpr ⟨owned, linked.ne_root_of_parent up⟩
  obtain ⟨drawing, foundVg, inNodes⟩ :
      ∃ drawing, s.vgs.cells vg = some drawing ∧ vn ∈ drawing.nodes := by
    rcases foundVg : s.vgs.cells vg with _ | drawing
    · simp [grove, foundVg] at listed
    · exact ⟨drawing, rfl, members_of_cell foundVg ▸ listed⟩
  have readVn : (s.setNode vn fun node => { node with cNodes := [] }).node vn =
        .ok { node with cNodes := [] } :=
    node_eq_ok.mpr (by simp [found])
  have readParent : (s.setNode vn fun node => { node with cNodes := [] }).node p = .ok parentNode :=
    node_eq_ok.mpr (by simp [different, foundParent])
  have readVg : s.drawing vg = .ok drawing := drawing_eq_ok.mpr foundVg
  refine ⟨((((s.setNode vn fun node => { node with cNodes := [] }).setNode p
      fun node => { node with cNodes := parentNode.cNodes.erase vn }).setNode vn
      fun node => { node with parent := none }).setVg vg
      fun before => { before with nodes := drawing.nodes.erase vn }).setNode vn
      fun node => { node with vg := none }, ?_, ?_⟩
  · rw [nodeUnlink]
    dsimp only
    rw [readVn, ok_bind]
    dsimp only
    rw [parentOf]
    dsimp only
    rw [readParent, ok_bind, tailqRemove_eq_ok.mpr ⟨below, rfl⟩]
    change (s.drawing vg >>= _) = _
    rw [readVg, ok_bind, tailqRemove_eq_ok.mpr ⟨inNodes, rfl⟩]
    rfl
  · refine ⟨Grove.ext ?parent ?children ?owner ?root ?members, ?_, ?_, rfl, rfl⟩
    case parent | children | owner =>
      funext other
      by_cases here : other = vn <;> by_cases there : other = p <;>
        simp [grove, Grove.detach, Function.update_apply, here, there, found,
          foundParent, different, Ne.symm different, noChildren]
    case root | members =>
      funext other
      by_cases here : other = vg <;>
        simp [grove, Grove.detach, Function.update_apply, here, foundVg]
    · rw [key_setNode, key_setVg, key_setNode, key_setNode, key_setNode] <;>
        exact fun _ => rfl
    · rw [uses_setNode, uses_setVg, uses_setNode, uses_setNode, uses_setNode] <;>
        exact fun _ => rfl

theorem nodeUnlink_not_root {s after : Drawings} {vn vg : Nat} (linked : s.grove.Linked)
    (unlinked : s.nodeUnlink vn vg = .ok after) : s.grove.root vg ≠ some vn := by
  intro isRoot
  obtain ⟨owned, noParent⟩ := linked.ownsRoot vg vn isRoot
  obtain ⟨node, found, -⟩ := cell_of_owner owned
  have noParentOf : node.parent = none := (parent_of_cell found).symm.trans noParent
  obtain ⟨emptied, read, unlinked⟩ := bind_eq_ok.mp unlinked
  have sameCell := node_eq_ok.mp read
  rw [cells_setNode, Function.update_self, found] at sameCell
  obtain rfl := Option.some.inj sameCell
  dsimp only at unlinked
  rw [noParentOf] at unlinked
  obtain ⟨same, isSame, unlinked⟩ := bind_eq_ok.mp unlinked
  obtain rfl := Except.ok.inj isSame
  obtain ⟨drawing, readVg, unlinked⟩ := bind_eq_ok.mp unlinked
  obtain ⟨nodes, removed, -⟩ := bind_eq_ok.mp unlinked
  have listed := (tailqRemove_eq_ok.mp removed).1
  rw [← members_of_cell (s := s) (drawing_eq_ok.mp readVg), linked.listed] at listed
  exact listed.2 isRoot

/-- Nodes that still have a drawing have had it, and are named as before. -/
structure Shrinks (s after : Drawings) : Prop where
  root : after.grove.root = s.grove.root
  owner : ∀ vn vg, after.grove.owner vn = some vg →
      s.grove.owner vn = some vg ∧ after.key vn = s.key vn

theorem Shrinks.refl (s : Drawings) : Shrinks s s := ⟨rfl, fun _ _ owned => ⟨owned, rfl⟩⟩

theorem Shrinks.trans {s middle after : Drawings} (first : Shrinks s middle)
    (second : Shrinks middle after) : Shrinks s after := by
  refine ⟨second.root.trans first.root, fun vn vg owned => ?_⟩
  obtain ⟨ownedThen, sameKey⟩ := second.owner vn vg owned
  obtain ⟨ownedBefore, keyBefore⟩ := first.owner vn vg ownedThen
  exact ⟨ownedBefore, sameKey.trans keyBefore⟩

/-- The links of a node outside a tree stay. -/
def SameOutside (top : Nat) (s after : Drawings) : Prop :=
  ∀ vn, ¬ Within s.grove.parent vn top → after.grove.owner vn = s.grove.owner vn ∧
      after.grove.parent vn = s.grove.parent vn ∧
      after.grove.children vn = s.grove.children vn

/-- What detaching all children of a node does -/
structure Emptied (s : Drawings) (vn : Nat) (after : Drawings) : Prop where
  linked : after.grove.Linked
  childless : after.grove.children vn = []
  owner : after.grove.owner vn = s.grove.owner vn
  parent : after.grove.parent vn = s.grove.parent vn
  outside : SameOutside vn s after
  shrinks : Shrinks s after
  records : SameRecords s after

/-- What detaching a node and all that is below it does -/
structure Detached (s : Drawings) (vn : Nat) (after : Drawings) : Prop where
  linked : after.grove.Linked
  alone : after.grove.owner vn = none
  outside : ∀ other, ¬ Within s.grove.parent other vn →
      after.grove.owner other = s.grove.owner other ∧
        after.grove.parent other = s.grove.parent other ∧
        after.grove.children other = if s.grove.parent vn = some other then
            (s.grove.children other).erase vn
          else s.grove.children other
  shrinks : Shrinks s after
  records : SameRecords s after

theorem emptied_of_detached {detach : Drawings → Nat → Except Stop Drawings}
    (detaches : ∀ s child after, s.grove.Linked → detach s child = .ok after →
        Detached s child after) {s after : Drawings} {vn : Nat} {cNodes : List Nat}
    (linked : s.grove.Linked) (children : s.grove.children vn = cNodes)
    (looped : cNodes.foldlM detach s = .ok after) : Emptied s vn after := by
  induction cNodes generalizing s with
  | nil =>
    obtain rfl := Except.ok.inj looped
    exact ⟨linked, children, rfl, rfl, fun _ _ => ⟨rfl, rfl, rfl⟩,
      Shrinks.refl s, SameRecords.refl s⟩
  | cons child cNodes ih =>
    rw [List.foldlM_cons] at looped
    obtain ⟨middle, detached, looped⟩ := bind_eq_ok.mp looped
    have first := detaches s child middle linked detached
    have up : s.grove.parent child = some vn :=
      (linked.lists.listed child vn).mpr (by rw [children]; simp)
    have apart := linked.not_within_child up
    obtain ⟨sameOwner, sameParent, fewer⟩ := first.outside vn apart
    rw [if_pos up, children, List.erase_cons_head] at fewer
    have rest := ih first.linked fewer looped
    have middleOutside : SameOutside vn s middle := by
      intro other outside
      have notWithin : ¬ Within s.grove.parent other child := fun within =>
        outside (within.trans (Within.up up (Within.refl vn)))
      obtain ⟨owner, parent, sameChildren⟩ := first.outside other notWithin
      have notParent : s.grove.parent child ≠ some other := by
        rw [up]
        intro same
        rw [Option.some.inj same] at outside
        exact outside (Within.refl other)
      rw [if_neg notParent] at sameChildren
      exact ⟨owner, parent, sameChildren⟩
    refine ⟨rest.linked, rest.childless, rest.owner.trans sameOwner,
      rest.parent.trans sameParent, fun other outside => ?_,
      first.shrinks.trans rest.shrinks, first.records.trans rest.records⟩
    have stillOutside : ¬ Within middle.grove.parent other vn :=
      not_within_of_agree (fun node outside => (middleOutside node outside).2.1) outside
    obtain ⟨owner, parent, sameChildren⟩ := middleOutside other outside
    obtain ⟨laterOwner, laterParent, laterChildren⟩ := rest.outside other stillOutside
    exact ⟨laterOwner.trans owner, laterParent.trans parent, laterChildren.trans sameChildren⟩

theorem nodeDetach_detached {fuel vn : Nat} {s after : Drawings} (linked : s.grove.Linked)
    (detached : nodeDetach fuel s vn = .ok after) : Detached s vn after := by
  induction fuel generalizing s vn after with
  | zero => cases detached
  | succ fuel ih =>
    obtain ⟨node, read, detached⟩ := bind_eq_ok.mp detached
    obtain ⟨vg, hasVg, detached⟩ := bind_eq_ok.mp detached
    obtain ⟨emptied, looped, unlinked⟩ := bind_eq_ok.mp detached
    have found := node_eq_ok.mp read
    have owned : s.grove.owner vn = some vg := (owner_of_cell found).trans (nonNull_eq_ok.mp hasVg)
    have empties :=
      emptied_of_detached (fun s child after linked detached =>
          ih linked detached)
        linked (children_of_cell found) looped
    have stillOwned := empties.owner.trans owned
    obtain ⟨p, up⟩ :=
      empties.linked.exists_parent stillOwned (nodeUnlink_not_root empties.linked unlinked)
    obtain ⟨last, done, unlinks⟩ := nodeUnlink_ok empties.linked stillOwned up empties.childless
    obtain rfl := Except.ok.inj (done.symm.trans unlinked)
    have upBefore := empties.parent.symm.trans up
    refine ⟨?_, ?_, fun other outside => ?_, ?_, ?_⟩
    · rw [unlinks.grove]
      exact empties.linked.detach stillOwned up empties.childless
    · rw [unlinks.grove]
      exact Function.update_self ..
    · have different : other ≠ vn := by
        rintro rfl
        exact outside (Within.refl other)
      obtain ⟨owner, parent, children⟩ := empties.outside other outside
      rw [unlinks.grove]
      simp only [Grove.detach, Function.update_of_ne different]
      refine ⟨owner, parent, ?_⟩
      rw [upBefore]
      by_cases isParent : other = p
      · rw [isParent, Function.update_self, if_pos rfl, ← isParent, children]
      · rw [Function.update_of_ne isParent,
          if_neg fun same => isParent (Option.some.inj same).symm, children]
    · refine empties.shrinks.trans ⟨?_, fun other w otherOwned => ?_⟩
      · rw [unlinks.grove]
        rfl
      · rw [unlinks.grove] at otherOwned
        refine ⟨?_, by rw [unlinks.records.key]⟩
        by_cases same : other = vn
        · rw [same] at otherOwned
          simp [Grove.detach] at otherOwned
        · simpa only [Grove.detach, Function.update_of_ne same] using otherOwned
    · exact empties.records.trans unlinks.records

/-! ## Freeing and deleting -/

/-- What freeing a node does -/
structure Freed (s : Drawings) (vn : Nat) (after : Drawings) : Prop where
  grove : after.grove = s.grove
  key : after.key = Function.update s.key vn none
  uses : after.uses = Function.update s.uses vn none
  freed : after.freed = vn :: s.freed
  next : after.heap.next = s.heap.next

theorem nodeDestroy_ok {s : Drawings} {vn : Nat} {node : Node} (linked : s.grove.Linked)
    (unowned : s.grove.owner vn = none) (found : s.heap.cells vn = some node) (fuel : Nat) :
    ∃ after, nodeDestroy (fuel + 1) s vn = .ok after ∧ Freed s vn after := by
  obtain ⟨noParent, childless⟩ := linked.alone vn unowned
  have noChildren : node.cNodes = [] := (children_of_cell found).symm.trans childless
  have readVn : (s.setNode vn fun node => { node with cNodes := [] }).node vn =
        .ok { node with cNodes := [] } :=
    node_eq_ok.mpr (by simp [found])
  refine ⟨{ s with
    heap := (s.setNode vn fun node => { node with cNodes := [] }).heap.free vn
    freed := vn :: s.freed }, ?_, ?_⟩
  · rw [nodeDestroy, node_eq_ok.mpr found, ok_bind, noChildren]
    change ((s.setNode vn fun node => { node with cNodes := [] }).free vn) = _
    rw [Drawings.free, readVn]
    rfl
  · refine ⟨Grove.ext ?parent ?children ?owner rfl rfl, ?_, ?_, rfl, rfl⟩
    case parent | children | owner =>
      funext other
      by_cases here : other = vn
      · simp [grove, Heap.cells_free, here] at noParent childless unowned ⊢
        simp [*]
      · simp [grove, Heap.cells_free, Function.update_of_ne here]
    · funext other
      by_cases here : other = vn <;>
        simp [key, Heap.cells_free, here]
    · funext other
      by_cases here : other = vn <;>
        simp [uses, Heap.cells_free, here]

/-- The links agree as before, and no node has a drawing that had none. -/
structure Reduced (s after : Drawings) : Prop where
  linked : after.grove.Linked
  shrinks : Shrinks s after

theorem Reduced.trans {s middle after : Drawings} (first : Reduced s middle)
    (second : Reduced middle after) : Reduced s after :=
  ⟨second.linked, first.shrinks.trans second.shrinks⟩

end Drawings

end Agar.Vg
