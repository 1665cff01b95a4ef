import Mathlib

namespace Agar.Lib

/-!
# Forests of parent pointers

Nodes that each name at most one parent.  `Within parent node top` says that
following parents from `node` reaches `top`, and `Top parent node top` that
the climb ends there.  Since a node has one parent, it has at most one top;
redirecting the parent of one node moves exactly the nodes within it.
-/

variable {ν : Type}

/-- One step up. -/
def Up (parent : ν → Option ν) (node next : ν) : Prop := parent node = some next

/-- Following parents from `node` reaches `ancestor`. -/
def Within (parent : ν → Option ν) (node ancestor : ν) : Prop :=
  Relation.ReflTransGen (Up parent) node ancestor

/-- Following parents from `node` ends at `top`. -/
structure Top (parent : ν → Option ν) (node top : ν) : Prop where
  within : Within parent node top
  noParent : parent top = none

variable {parent : ν → Option ν}

theorem Within.refl (node : ν) : Within parent node node := Relation.ReflTransGen.refl

variable {node : ν}

theorem Within.up {next ancestor : ν} (child : parent node = some next)
    (within : Within parent next ancestor) : Within parent node ancestor :=
  Relation.ReflTransGen.head child within

theorem Within.trans {middle ancestor : ν} (lower : Within parent node middle)
    (upper : Within parent middle ancestor) : Within parent node ancestor :=
  Relation.ReflTransGen.trans lower upper

theorem Within.cases {ancestor : ν} (within : Within parent node ancestor) : node = ancestor ∨
      ∃ next, parent node = some next ∧ Within parent next ancestor := by
  rcases Relation.ReflTransGen.cases_head within with same | above
  · exact .inl same
  · exact .inr above

theorem Within.eq_of_noParent {ancestor : ν} (noParent : parent node = none)
    (within : Within parent node ancestor) : node = ancestor := by
  rcases within.cases with same | ⟨next, child, _⟩
  · exact same
  · rw [noParent] at child
    cases child

theorem Top.self (noParent : parent node = none) : Top parent node node :=
  ⟨Within.refl node, noParent⟩

theorem top_iff_parent {next top : ν} (child : parent node = some next) :
    Top parent node top ↔ Top parent next top := by
  constructor
  · rintro ⟨within, noParent⟩
    rcases within.cases with rfl | ⟨other, otherChild, above⟩
    · rw [child] at noParent
      cases noParent
    · rw [child] at otherChild
      cases otherChild
      exact ⟨above, noParent⟩
  · rintro ⟨within, noParent⟩
    exact ⟨within.up child, noParent⟩

theorem Top.of_within {middle top : ν} (within : Within parent node middle) :
    Top parent node top ↔ Top parent middle top := by
  induction within using Relation.ReflTransGen.head_induction_on with
  | refl => exact Iff.rfl
  | head child _ ih =>
    rw [top_iff_parent child]
    exact ih

theorem Top.unique {top other : ν} (first : Top parent node top) (second : Top parent node other) :
    top = other := by
  have ofTop := (Top.of_within first.within).mp second
  exact ofTop.within.eq_of_noParent first.noParent

theorem not_within_of_agree {other : ν → Option ν} {top : ν}
    (agree : ∀ node, ¬ Within parent node top → other node = parent node)
    (outside : ¬ Within parent node top) : ¬ Within other node top := by
  intro within
  induction within using Relation.ReflTransGen.head_induction_on with
  | refl => exact outside (Within.refl _)
  | @head lower next up _ ih =>
    have sameUp : parent lower = some next := by
      rw [← agree lower outside]
      exact up
    exact ih fun within => outside (within.up sameUp)

section Redirect

variable [DecidableEq ν] {moved : ν} {target : Option ν}

theorem Within.update {node : ν} (within : Within parent node moved) :
    Within (Function.update parent moved target) node moved := by
  induction within using Relation.ReflTransGen.head_induction_on with
  | refl => exact Within.refl moved
  | @head lower next child _ ih =>
    by_cases here : lower = moved
    · rw [here]
      exact Within.refl moved
    · refine ih.up ?_
      rw [Function.update_of_ne here]
      exact child

theorem Top.update_outside {top : ν} (outside : ¬ Within parent node moved)
    (climbs : Top parent node top) : Top (Function.update parent moved target) node top := by
  obtain ⟨within, noParent⟩ := climbs
  induction within using Relation.ReflTransGen.head_induction_on with
  | refl =>
    refine Top.self ?_
    rw [Function.update_of_ne]
    · exact noParent
    · rintro rfl
      exact outside (Within.refl _)
  | @head lower next child _ ih =>
    have notMoved : lower ≠ moved := by
      rintro rfl
      exact outside (Within.refl _)
    have nextOutside : ¬ Within parent next moved := fun nextWithin => outside (nextWithin.up child)
    refine (top_iff_parent ?_).mpr (ih nextOutside)
    rw [Function.update_of_ne notMoved]
    exact child

theorem top_update_within {top : ν} (within : Within parent node moved) :
    Top (Function.update parent moved target) node top ↔
      Top (Function.update parent moved target) moved top :=
  Top.of_within within.update

theorem Top.update_below {p top : ν} (outside : ¬ Within parent p moved)
    (parentTop : Top parent p top) (climbs : Within parent node moved ∨ Top parent node top) :
    Top (Function.update parent moved (some p)) node top := by
  by_cases within : Within parent node moved
  · rw [top_update_within within, top_iff_parent (Function.update_self ..)]
    exact parentTop.update_outside outside
  · exact (climbs.resolve_left within).update_outside within

end Redirect

theorem not_top_of_cycle {next : ν} (up : parent node = some next) (cycle : Within parent next node)
    (top : ν) : ¬ Top parent node top := by
  rintro ⟨within, noParent⟩
  -- every node that is reached from here leads back
  have back : Within parent top node := by
    clear noParent
    induction within with
    | refl => exact Within.refl node
    | @tail lower upper _ above ih =>
      rcases ih.cases with rfl | ⟨other, otherUp, within⟩
      · rw [Up, up, Option.some.injEq] at above
        rwa [← above]
      · rw [Up, otherUp, Option.some.injEq] at above
        rwa [← above]
  rw [back.eq_of_noParent noParent, up] at noParent
  cases noParent

theorem not_top_of_self_parent (loop : parent node = some node) (top : ν) : ¬ Top parent node top :=
  not_top_of_cycle loop (Within.refl node) top

section Redirect

variable [DecidableEq ν] {moved : ν}

theorem exists_top_update_none (tops : ∀ node, ∃ top, Top parent node top) (node : ν) :
    ∃ top, Top (Function.update parent moved none) node top := by
  by_cases within : Within parent node moved
  · exact ⟨moved, (top_update_within within).mpr (Top.self (Function.update_self ..))⟩
  · obtain ⟨top, climbs⟩ := tops node
    exact ⟨top, climbs.update_outside within⟩

theorem exists_top_update_iff (tops : ∀ node, ∃ top, Top parent node top) (p : ν) :
    (∀ node, ∃ top, Top (Function.update parent moved (some p)) node top) ↔
      ¬ Within parent p moved := by
  constructor
  · intro keeps within
    obtain ⟨top, climbs⟩ := keeps moved
    exact not_top_of_cycle (Function.update_self ..) within.update top climbs
  · intro outside node
    obtain ⟨parentTop, parentClimbs⟩ := tops p
    obtain ⟨top, climbs⟩ := tops node
    by_cases within : Within parent node moved
    · exact ⟨parentTop, parentClimbs.update_below outside (.inl within)⟩
    · exact ⟨top, climbs.update_outside within⟩

end Redirect

theorem Within.through_child {ancestor : ν} (within : Within parent node ancestor)
    (strict : node ≠ ancestor) : ∃ child, parent child = some ancestor := by
  rcases Relation.ReflTransGen.cases_tail within with same | ⟨child, _, up⟩
  · exact absurd same.symm strict
  · exact ⟨child, up⟩

/-! ## Finite trees -/

section Finite

variable {below : ν → ν → Prop}

end Finite

/-! ## Lists of children -/

/-- A node occurs among the children of its parent, once, and nowhere else. -/
structure Listed (parent : ν → Option ν) (children : ν → List ν) : Prop where
  listed : ∀ node p, parent node = some p ↔ node ∈ children p
  once : ∀ p, (children p).Nodup

namespace Listed

variable {children : ν → List ν}

theorem within_iff (lists : Listed parent children) {ancestor : ν} :
    Within parent node ancestor ↔ Relation.ReflTransGen (fun p child => child ∈ children p)
        ancestor node := by
  rw [← Relation.reflTransGen_swap, Within]
  have sameStep : Up parent = Function.swap fun p child => child ∈ children p := by
    funext child p
    exact propext (lists.listed child p)
  rw [sameStep]

variable [DecidableEq ν] {p node : ν}

theorem attach (lists : Listed parent children) (noParent : parent node = none) (p : ν) :
    Listed (Function.update parent node (some p))
      (Function.update children p (children p ++ [node])) where
  listed other q := by
    by_cases here : other = node <;> by_cases there : q = p
    · simp [here, there]
    · rw [here, Function.update_self, Function.update_of_ne there, ← lists.listed, noParent]
      simp [Ne.symm there]
    · rw [there, Function.update_of_ne here, Function.update_self, List.mem_append, lists.listed]
      simp [here]
    · rw [Function.update_of_ne here, Function.update_of_ne there]
      exact lists.listed other q
  once q := by
    by_cases there : q = p
    · have absent : node ∉ children p := by
        rw [← lists.listed, noParent]
        simp
      rw [there, Function.update_self]
      refine List.nodup_append.mpr ⟨lists.once p, by simp, ?_⟩
      intro child member other isNode
      rw [List.mem_singleton.mp isNode]
      exact ne_of_mem_of_not_mem member absent
    · rw [Function.update_of_ne there]
      exact lists.once q

theorem detach (lists : Listed parent children) (up : parent node = some p) :
    Listed (Function.update parent node none)
      (Function.update children p ((children p).erase node)) where
  listed other q := by
    by_cases here : other = node <;> by_cases there : q = p
    · rw [here, there, Function.update_self, Function.update_self, (lists.once p).mem_erase_iff]
      simp
    · rw [here, Function.update_self, Function.update_of_ne there, ← lists.listed, up]
      simp [Ne.symm there]
    · rw [there, Function.update_of_ne here, Function.update_self, List.mem_erase_of_ne here]
      exact lists.listed other p
    · rw [Function.update_of_ne here, Function.update_of_ne there]
      exact lists.listed other q
  once q := by
    by_cases there : q = p
    · rw [there, Function.update_self]
      exact (lists.once p).erase node
    · rw [Function.update_of_ne there]
      exact lists.once q

end Listed

/-! ## Linked trees -/

/--
The links that the nodes of a forest store: a pointer to the parent, a pointer
to the root of the tree, and a list of children.
-/
@[ext] structure Links (ν : Type) where
  parent : ν → Option ν
  root : ν → ν
  children : ν → List ν

namespace Links

/--
The links agree: the root of every node is the top above it, and a node occurs
among the children of its parent, once, and nowhere else.
-/
structure Consistent (links : Links ν) : Prop where
  rootIsTop : ∀ node, Top links.parent node (links.root node)
  listed : ∀ node p, links.parent node = some p ↔ node ∈ links.children p
  once : ∀ p, (links.children p).Nodup

variable {links : Links ν}

theorem Consistent.lists (consistent : links.Consistent) : Listed links.parent links.children :=
  ⟨consistent.listed, consistent.once⟩

theorem Consistent.noParent_root (consistent : links.Consistent) (node : ν) :
    links.parent (links.root node) = none :=
  (consistent.rootIsTop node).noParent

theorem Consistent.outside_of_childless (consistent : links.Consistent) {other : ν}
    (childless : links.children node = []) (different : other ≠ node) :
    ¬ Within links.parent other node := by
  intro within
  obtain ⟨child, up⟩ := within.through_child different
  rw [consistent.listed, childless] at up
  cases up

variable [DecidableEq ν]

/-- Link a node at the end of the children of `p`, with the root of `p`. -/
def attach (links : Links ν) (p node : ν) : Links ν where
  parent := Function.update links.parent node (some p)
  root := Function.update links.root node (links.root p)
  children := Function.update links.children p (links.children p ++ [node])

/-- Unlink a node from `p` and make it its own root. -/
def detach (links : Links ν) (p node : ν) : Links ν where
  parent := Function.update links.parent node none
  root := Function.update links.root node node
  children := Function.update links.children p ((links.children p).erase node)

theorem attach_consistent_iff (consistent : links.Consistent) {p : ν}
    (noParent : links.parent node = none) (notAncestor : p ≠ node → ¬ Within links.parent p node) :
    (links.attach p node).Consistent ↔ links.children node = [] ∧ p ≠ node := by
  constructor
  · intro attached
    have parentAfter : (links.attach p node).parent node = some p := Function.update_self ..
    refine ⟨?_, ?_⟩
    · rw [List.eq_nil_iff_forall_not_mem]
      intro child member
      have up := (consistent.listed child node).mpr member
      have childNeNode : child ≠ node := by
        rintro rfl
        rw [noParent] at up
        cases up
      -- The child keeps the old root, which is the attached node itself.
      have oldRoot : links.root child = node :=
        (consistent.rootIsTop child).unique ((top_iff_parent up).mpr (Top.self noParent))
      have sameRoot : (links.attach p node).root child = node :=
        (Function.update_of_ne childNeNode ..).trans oldRoot
      have rootParent := attached.noParent_root child
      rw [sameRoot, parentAfter] at rootParent
      cases rootParent
    · rintro rfl
      exact not_top_of_self_parent parentAfter _ (attached.rootIsTop p)
  · rintro ⟨childless, different⟩
    have pOutside := notAncestor different
    have lists := consistent.lists.attach noParent p
    refine ⟨fun other => ?_, lists.listed, lists.once⟩
    by_cases here : other = node
    · subst other
      refine (top_iff_parent (Function.update_self ..)).mpr ?_
      simp only [attach, Function.update_self]
      exact (consistent.rootIsTop p).update_outside pOutside
    · simp only [attach, Function.update_of_ne here]
      exact (consistent.rootIsTop other).update_outside
        (consistent.outside_of_childless childless here)

theorem detach_consistent_iff (consistent : links.Consistent) {p : ν}
    (up : links.parent node = some p) :
    (links.detach p node).Consistent ↔ links.children node = [] := by
  constructor
  · intro detached
    rw [List.eq_nil_iff_forall_not_mem]
    intro child member
    have childUp := (consistent.listed child node).mpr member
    have childNeNode : child ≠ node := by
      rintro rfl
      exact not_top_of_self_parent childUp _ (consistent.rootIsTop child)
    have childUpAfter : (links.detach p node).parent child = some node :=
      (Function.update_of_ne childNeNode ..).trans childUp
    have nodeTop : Top (links.detach p node).parent node node := Top.self (Function.update_self ..)
    -- The child keeps the old root, which lies above the detached node.
    have sameRoot : links.root child = node :=
      (Function.update_of_ne childNeNode ..).symm.trans ((detached.rootIsTop child).unique
          ((top_iff_parent childUpAfter).mpr nodeTop))
    have rootParent := consistent.noParent_root child
    rw [sameRoot, up] at rootParent
    cases rootParent
  · intro childless
    have lists := consistent.lists.detach up
    refine ⟨fun other => ?_, lists.listed, lists.once⟩
    by_cases here : other = node
    · subst other
      simp only [detach, Function.update_self]
      exact Top.self (Function.update_self ..)
    · simp only [detach, Function.update_of_ne here]
      exact (consistent.rootIsTop other).update_outside
        (consistent.outside_of_childless childless here)

end Links

end Agar.Lib
