import Agar.Vg.Tree
import Agar.Lib.ReferenceCounts

namespace Agar.Vg

open Agar.Lib Agar.Core

/-!
# References to points

Entities refer to points of attached nodes, and the points count the
references.  Making drawings and entities, and moving the vertices of polygons,
keeps the counts right.
-/

namespace Drawings

/-- The references that a node holds, and none where there is no node -/
def refs (s : Drawings) (vn : Nat) : List Nat := ((s.heap.cells vn).map Node.refs).getD []

/-- The count of the references to a node -/
def nDeps (s : Drawings) (vn : Nat) : Nat := ((s.heap.cells vn).map Node.nDeps).getD 0

/-- The points of an entity -/
def pts (s : Drawings) (vn : Nat) : List Nat := ((s.heap.cells vn).map Node.pts).getD []

/-- The node at an address is of a class. -/
def HasClass (s : Drawings) (ops : NodeOps) (vn : Nat) : Prop :=
  ∃ handle, s.key vn = some (ops, handle)

/-- The nodes that are attached, in any drawing -/
def attached (s : Drawings) : Finset Nat :=
  (Finset.range s.heap.next).filter fun vn => s.grove.owner vn ≠ none

/--
References are valid.  The attached nodes refer to attached nodes and count
the references to them, roots are attached, and the nodes that were made and
are no longer attached have been freed, once each.
-/
structure Valid (s : Drawings) : Prop where
  counted : RefCounted s.attached s.refs s.nDeps
  rooted : ∀ vg r, s.grove.root vg = some r → r ∈ s.attached
  gone : ∀ vn, vn ∉ s.attached → s.heap.cells vn = none
  freed_iff : ∀ vn, vn ∈ s.freed ↔ (0 < vn ∧ vn < s.heap.next) ∧ vn ∉ s.attached
  freedOnce : s.freed.Nodup

/-- The points of the entities are points, and have none themselves. -/
structure Drawn (s : Drawings) : Prop where
  linked : s.grove.Linked
  valid : s.Valid
  points : ∀ vn, ∀ ref ∈ s.refs vn, s.HasClass .point ref
  plain : ∀ vn, s.HasClass .point vn → s.pts vn = []

/-- The nodes refer to their points. -/
def Paired (s : Drawings) : Prop := ∀ vn, (s.refs vn).Perm (s.pts vn)

/--
Drawings are made, entities with points that are attached are made below a
node, vertices of a polygon are added and removed, and attached nodes are
deleted.
-/
def Drawable (s : Drawings) : Request → Prop
  | .newVg => True
  | .create (some _) entity => ∀ pt ∈ entity.pts, pt ∈ s.attached ∧ s.HasClass .point pt
  | .polygonVertex vP pt => s.HasClass .polygon vP ∧ pt ∈ s.attached ∧ s.HasClass .point pt
  | .polygonDelVertex vP _ => s.HasClass .polygon vP
  | .delete vn => vn ∈ s.attached
  | _ => False

/-! ## Reading -/

section Read

variable {s after : Drawings} {vn vg : Nat} {node : Node}

theorem refs_of_cell (found : s.heap.cells vn = some node) : s.refs vn = node.refs := by
  simp [refs, found]

theorem nDeps_of_cell (found : s.heap.cells vn = some node) : s.nDeps vn = node.nDeps := by
  simp [nDeps, found]

theorem pts_of_cell (found : s.heap.cells vn = some node) : s.pts vn = node.pts := by
  simp [pts, found]

theorem mem_attached : vn ∈ s.attached ↔ s.grove.owner vn ≠ none := by
  rw [attached, Finset.mem_filter, Finset.mem_range, and_iff_right_iff_imp]
  intro owned
  obtain ⟨vg, hasVg⟩ := Option.ne_none_iff_exists'.mp owned
  obtain ⟨node, found, -⟩ := cell_of_owner hasVg
  by_contra beyond
  rw [s.heap.unused vn (Nat.le_of_not_lt beyond)] at found
  cases found

theorem mem_attached_of_owner (owned : s.grove.owner vn = some vg) : vn ∈ s.attached := by
  rw [mem_attached, owned]
  exact Option.some_ne_none vg

theorem owner_of_mem (member : vn ∈ s.attached) : ∃ vg, s.grove.owner vn = some vg :=
  Option.ne_none_iff_exists'.mp (mem_attached.mp member)

theorem bounds_of_mem (member : vn ∈ s.attached) : 0 < vn ∧ vn < s.heap.next := by
  refine ⟨Nat.pos_of_ne_zero ?_, ?_⟩
  · rintro rfl
    obtain ⟨vg, owned⟩ := owner_of_mem member
    obtain ⟨node, found, -⟩ := cell_of_owner owned
    rw [s.heap.null] at found
    cases found
  · exact Finset.mem_range.mp (Finset.mem_filter.mp member).1

theorem next_not_mem (s : Drawings) : s.heap.next ∉ s.attached :=
  fun member => Nat.lt_irrefl _ (bounds_of_mem member).2

theorem cell_of_mem (member : vn ∈ s.attached) : ∃ node, s.heap.cells vn = some node := by
  obtain ⟨vg, owned⟩ := owner_of_mem member
  obtain ⟨node, found, -⟩ := cell_of_owner owned
  exact ⟨node, found⟩

theorem key_eq_none : s.key vn = none ↔ s.heap.cells vn = none := Option.map_eq_none_iff

theorem HasClass.unique {ops other : NodeOps} (first : s.HasClass ops vn)
    (second : s.HasClass other vn) : ops = other := by
  obtain ⟨handle, key⟩ := first
  obtain ⟨otherHandle, otherKey⟩ := second
  exact (Prod.mk.inj (Option.some.inj (key.symm.trans otherKey))).1

theorem refs_eq_uses (s : Drawings) (vn : Nat) :
    s.refs vn = ((s.uses vn).map Prod.fst).getD [] := by
  rw [uses, Option.map_map]
  rfl

theorem nDeps_eq_uses (s : Drawings) (vn : Nat) :
    s.nDeps vn = ((s.uses vn).map fun used => used.2.1).getD 0 := by
  rw [uses, Option.map_map]
  rfl

theorem pts_eq_uses (s : Drawings) (vn : Nat) :
    s.pts vn = ((s.uses vn).map fun used => used.2.2).getD [] := by
  rw [uses, Option.map_map]
  rfl

theorem refs_of_uses (same : after.uses = s.uses) :
    after.refs = s.refs ∧ after.nDeps = s.nDeps ∧ after.pts = s.pts := by
  refine ⟨?_, ?_, ?_⟩ <;> funext vn
  · rw [refs_eq_uses, refs_eq_uses, same]
  · rw [nDeps_eq_uses, nDeps_eq_uses, same]
  · rw [pts_eq_uses, pts_eq_uses, same]

theorem attached_of_grove (grove : after.grove = s.grove) : after.attached = s.attached := by
  ext vn
  rw [mem_attached, mem_attached, grove]

namespace Valid

variable (valid : s.Valid)
include valid

theorem attached_of_ref {ref : Nat} (held : ref ∈ s.refs vn) : vn ∈ s.attached := by
  by_contra missing
  simp [refs, valid.gone vn missing] at held

theorem attached_ref {ref : Nat} (held : ref ∈ s.refs vn) : ref ∈ s.attached :=
  valid.counted.closed vn (valid.attached_of_ref held) ref held

end Valid

end Read

/-! ## Storing -/

section Store

variable {s : Drawings} {vn : Nat} {node : Node} {change : Node → Node}

theorem refs_setNode (found : s.heap.cells vn = some node) (change : Node → Node) :
    (s.setNode vn change).refs = Function.update s.refs vn (change node).refs :=
  read_setNode found change fun cell => (cell.map Node.refs).getD []

theorem refs_setNode_kept (s : Drawings) (vn : Nat)
    (kept : ∀ node, (change node).refs = node.refs) : (s.setNode vn change).refs = s.refs :=
  read_setNode_kept s vn (fun cell => (cell.map Node.refs).getD []) kept

theorem nDeps_setNode (found : s.heap.cells vn = some node) (change : Node → Node) :
    (s.setNode vn change).nDeps = Function.update s.nDeps vn (change node).nDeps :=
  read_setNode found change fun cell => (cell.map Node.nDeps).getD 0

theorem nDeps_setNode_kept (s : Drawings) (vn : Nat)
    (kept : ∀ node, (change node).nDeps = node.nDeps) : (s.setNode vn change).nDeps = s.nDeps :=
  read_setNode_kept s vn (fun cell => (cell.map Node.nDeps).getD 0) kept

theorem pts_setNode (found : s.heap.cells vn = some node) (change : Node → Node) :
    (s.setNode vn change).pts = Function.update s.pts vn (change node).pts :=
  read_setNode found change fun cell => (cell.map Node.pts).getD []

theorem pts_setNode_kept (s : Drawings) (vn : Nat) (kept : ∀ node, (change node).pts = node.pts) :
    (s.setNode vn change).pts = s.pts :=
  read_setNode_kept s vn (fun cell => (cell.map Node.pts).getD []) kept

end Store

/-! ## Adding and removing references -/

section References

variable {s after : Drawings} {vn ref : Nat}

/-- What a new reference changes -/
structure Referred (s : Drawings) (vn ref : Nat) (after : Drawings) : Prop where
  refs : after.refs = Function.update s.refs vn (s.refs vn ++ [ref])
  nDeps : after.nDeps = Function.update s.nDeps ref (s.nDeps ref + 1)
  pts : after.pts = s.pts

theorem addRef_referred (added : s.addRef vn ref = .ok after) : Referred s vn ref after := by
  obtain ⟨node, read, added⟩ := bind_eq_ok.mp added
  obtain ⟨refNode, readRef, added⟩ := bind_eq_ok.mp added
  obtain rfl := Except.ok.inj added
  have found := node_eq_ok.mp read
  have foundRef := node_eq_ok.mp readRef
  refine ⟨?_, ?_, ?_⟩
  · rw [refs_setNode_kept, refs_setNode found, refs_of_cell found]
    exact fun _ => rfl
  · rw [nDeps_setNode foundRef, ← nDeps_of_cell foundRef, nDeps_setNode_kept]
    exact fun _ => rfl
  · rw [pts_setNode_kept, pts_setNode_kept] <;> exact fun _ => rfl

/-- What giving up a reference changes -/
structure Released (s : Drawings) (vn ref : Nat) (after : Drawings) : Prop where
  refs : after.refs = Function.update s.refs vn ((s.refs vn).erase ref)
  nDeps : after.nDeps = Function.update s.nDeps ref (s.nDeps ref - 1)
  pts : after.pts = s.pts

theorem delRef_released {newDeps : Nat} (removed : s.delRef vn ref = .ok (newDeps, after)) :
    ref ∈ s.refs vn ∧ newDeps = s.nDeps ref - 1 ∧ Released s vn ref after := by
  obtain ⟨node, read, removed⟩ := bind_eq_ok.mp removed
  split at removed
  case isFalse => cases removed
  case isTrue held =>
    obtain ⟨refNode, readRef, removed⟩ := bind_eq_ok.mp removed
    obtain ⟨rfl, rfl⟩ := Prod.mk.inj (Except.ok.inj removed)
    have found := node_eq_ok.mp read
    have foundRef := node_eq_ok.mp readRef
    have counted : refNode.nDeps = s.nDeps ref := by
      rw [← nDeps_of_cell foundRef, nDeps_setNode_kept]
      exact fun _ => rfl
    refine ⟨?_, ?_, ?_, ?_, ?_⟩
    · rw [refs_of_cell found]
      exact held
    · rw [counted]
    · rw [refs_setNode_kept, refs_setNode found, refs_of_cell found]
      exact fun _ => rfl
    · rw [nDeps_setNode foundRef, counted, nDeps_setNode_kept]
      exact fun _ => rfl
    · rw [pts_setNode_kept, pts_setNode_kept] <;> exact fun _ => rfl

theorem delRef_ok (held : ref ∈ s.refs vn) (live : ref ∈ s.attached) :
    ∃ result, s.delRef vn ref = .ok result := by
  obtain ⟨node, found⟩ : ∃ node, s.heap.cells vn = some node := by
    rcases found : s.heap.cells vn with _ | node
    · simp [refs, found] at held
    · exact ⟨node, rfl⟩
  rw [refs_of_cell found] at held
  obtain ⟨refNode, foundRef⟩ : ∃ refNode, (s.setNode vn fun node =>
          { node with refs := node.refs.erase ref }).heap.cells ref = some refNode := by
    obtain ⟨refNode, foundRef⟩ := cell_of_mem live
    by_cases same : ref = vn
    · simp [same, found]
    · simp [same, foundRef]
  rw [delRef, node_eq_ok.mpr found, ok_bind, if_pos held]
  dsimp only
  rw [node_eq_ok.mpr foundRef, ok_bind]
  exact ⟨_, rfl⟩

theorem addRefs_referred {items : List Nat}
    (added : items.foldlM (fun s pt => s.addRef vn pt) s = .ok after) :
    after.refs = Function.update s.refs vn (s.refs vn ++ items) ∧
      (after.nDeps = fun ref => s.nDeps ref + items.count ref) ∧ after.pts = s.pts := by
  induction items generalizing s with
  | nil =>
    obtain rfl := Except.ok.inj added
    simp
  | cons pt items ih =>
    rw [List.foldlM_cons] at added
    obtain ⟨middle, first, added⟩ := bind_eq_ok.mp added
    have referred := addRef_referred first
    obtain ⟨refs, nDeps, pts⟩ := ih added
    refine ⟨?_, ?_, pts.trans referred.pts⟩
    · rw [refs, referred.refs, Function.update_self, Function.update_idem,
        List.append_assoc, List.singleton_append]
    · rw [nDeps, referred.nDeps]
      funext ref
      by_cases same : ref = pt
      · rw [same, Function.update_self, List.count_cons_self]
        omega
      · rw [Function.update_of_ne same, List.count_cons_of_ne (Ne.symm same)]

end References

/-! ## New nodes -/

section New

variable {s after : Drawings}

theorem refs_alloc (s : Drawings) (ops : NodeOps) (items : List Nat) : let after : Drawings :=
      { s with heap := s.heap.alloc (Node.init ops items) }
    after.refs = s.refs ∧ after.nDeps = s.nDeps ∧
      after.pts = Function.update s.pts s.heap.next items := by
  have fresh := s.heap.unused s.heap.next (Nat.le_refl _)
  refine ⟨?_, ?_, ?_⟩ <;>
  · funext other
    by_cases here : other = s.heap.next <;>
      simp [refs, nDeps, pts, Heap.cells_alloc, here, fresh, Node.init]

/-- What making a node, and attaching it, does to the references -/
structure Made (s : Drawings) (ops : NodeOps) (items : List Nat) (after : Drawings) : Prop where
  linked : after.grove.Linked
  attached : after.attached = insert s.heap.next s.attached
  classed : ∃ handle, after.key = Function.update s.key s.heap.next (some (ops, handle))
  refs : after.refs = Function.update s.refs s.heap.next items
  nDeps : after.nDeps = fun ref => s.nDeps ref + items.count ref
  pts : after.pts = Function.update s.pts s.heap.next items
  freed : after.freed = s.freed
  next : after.heap.next = s.heap.next + 1

theorem Made.drawn {ops : NodeOps} {items : List Nat} (made : Made s ops items after)
    (drawn : s.Drawn) (paired : s.Paired)
    (refer : ∀ pt ∈ items, pt ∈ s.attached ∧ s.HasClass .point pt)
    (plain : ops = .point → items = []) : after.Drawn ∧ after.Paired := by
  have valid := drawn.valid
  have fresh : s.heap.cells s.heap.next = none := s.heap.unused _ (Nat.le_refl _)
  obtain ⟨handle, key⟩ := made.classed
  have ownClass : after.HasClass ops s.heap.next := ⟨handle, by rw [key, Function.update_self]⟩
  have keptClass {vn : Nat} (different : vn ≠ s.heap.next) (class' : NodeOps) :
      after.HasClass class' vn ↔ s.HasClass class' vn := by
    rw [HasClass, HasClass, key, Function.update_of_ne different]
  have pointKept {pt : Nat} (live : pt ∈ s.attached) (isPoint : s.HasClass .point pt) :
      after.HasClass .point pt := by
    refine (keptClass ?_ _).mpr isPoint
    rintro rfl
    exact s.next_not_mem live
  refine ⟨⟨made.linked, ⟨?_, ?_, ?_, ?_, ?_⟩, ?_, ?_⟩, ?_⟩
  · rw [made.attached, made.refs, made.nDeps]
    refine valid.counted.insert s.next_not_mem ?_ fun pt member => (refer pt member).1
    simp [Drawings.nDeps, fresh]
  · intro vg r isRoot
    exact mem_attached_of_owner (made.linked.ownsRoot vg r isRoot).1
  · intro vn missing
    rw [made.attached, Finset.mem_insert, not_or] at missing
    rw [← key_eq_none, key, Function.update_of_ne missing.1, key_eq_none]
    exact valid.gone vn missing.2
  · intro vn
    rw [made.freed, made.next, made.attached, Finset.mem_insert, valid.freed_iff]
    refine ⟨fun ⟨bounds, missing⟩ => ⟨⟨bounds.1, by omega⟩, ?_⟩,
      fun ⟨bounds, missing⟩ => ⟨⟨bounds.1, ?_⟩, fun member => missing (.inr member)⟩⟩
    · rintro (rfl | member)
      · exact Nat.lt_irrefl _ bounds.2
      · exact missing member
    · have different : vn ≠ s.heap.next := fun same => missing (.inl same)
      omega
  · rw [made.freed]
    exact valid.freedOnce
  · intro vn ref held
    rw [made.refs] at held
    by_cases new : vn = s.heap.next
    · rw [new, Function.update_self] at held
      exact pointKept (refer ref held).1 (refer ref held).2
    · rw [Function.update_of_ne new] at held
      exact pointKept (valid.attached_ref held) (drawn.points vn ref held)
  · intro vn isPoint
    rw [made.pts]
    by_cases new : vn = s.heap.next
    · rw [new] at isPoint ⊢
      rw [Function.update_self]
      exact plain (ownClass.unique isPoint)
    · rw [Function.update_of_ne new]
      exact drawn.plain vn ((keptClass new _).mp isPoint)
  · intro vn
    rw [made.refs, made.pts]
    by_cases new : vn = s.heap.next
    · rw [new, Function.update_self, Function.update_self]
    · rw [Function.update_of_ne new, Function.update_of_ne new]
      exact paired vn

theorem attached_insert {vn vg : Nat}
    (owner : after.grove.owner = Function.update s.grove.owner vn (some vg)) :
    after.attached = insert vn s.attached := by
  ext other
  rw [Finset.mem_insert, mem_attached, mem_attached, owner]
  by_cases same : other = vn
  · simp [same]
  · simp [same]

theorem newNode_made {p : Nat} {ops : NodeOps} {items : List Nat} (linked : s.grove.Linked)
    (created : s.newNode (some p) ops items = .ok after) : Made s ops items after := by
  obtain ⟨begun, referring, grove, key, freed, next, attaches⟩ := newNode_steps created
  have unowned : begun.grove.owner s.heap.next = none := by
    rw [grove]
    exact owner_next s
  obtain ⟨vg, attached⟩ := nodeAttach_some unowned attaches
  obtain ⟨node, handle, found, renamed, -⟩ := attached.named
  have isOps : node.ops = ops := by
    have nodeKey := key_of_cell found
    rw [key, Function.update_self] at nodeKey
    exact (Prod.mk.inj (Option.some.inj nodeKey)).1.symm
  obtain ⟨refs, nDeps, pts⟩ := addRefs_referred referring
  obtain ⟨allocRefs, allocDeps, allocPts⟩ := refs_alloc s ops items
  obtain ⟨sameRefs, sameDeps, samePts⟩ := refs_of_uses attached.uses
  have fresh : s.refs s.heap.next = [] := by
    simp [Drawings.refs, s.heap.unused s.heap.next (Nat.le_refl _)]
  refine ⟨?_, ?_, ⟨handle, ?_⟩, ?_, ?_, ?_, attached.freed.trans freed, attached.next.trans next⟩
  · rw [attached.grove]
    exact (grove ▸ linked).attach unowned attached.owned
  · refine (@attached_insert _ _ _ vg ?_).trans (congrArg _ (attached_of_grove grove))
    rw [attached.grove]
    rfl
  · rw [renamed, key, Function.update_idem, isOps]
  · rw [sameRefs, refs, allocRefs, fresh, List.nil_append]
  · rw [sameDeps, nDeps, allocDeps]
  · rw [samePts, pts, allocPts]

theorem newVg_made (linked : s.grove.Linked) (made : s.newVg = .ok after) :
    Made s .point [] after := by
  obtain ⟨grove, key, unrooted⟩ := newVg_planted made
  obtain ⟨created, creates, made⟩ := bind_eq_ok.mp made
  obtain rfl := Except.ok.inj made
  obtain ⟨begun, begins, attaches⟩ := bind_eq_ok.mp creates
  obtain rfl := Except.ok.inj begins
  obtain ⟨node, read, attaches⟩ := bind_eq_ok.mp attaches
  obtain rfl := Except.ok.inj attaches
  have unused := s.heap.unused s.heap.next (Nat.le_refl _)
  refine ⟨?_, ?_, ⟨1, key⟩, ?_, ?_, ?_, rfl, rfl⟩
  · rw [grove]
    exact linked.plant (owner_next s) unrooted
  · refine @attached_insert _ _ _ s.vgs.next ?_
    rw [grove]
    rfl
  all_goals
    funext other
    by_cases here : other = s.heap.next <;>
      simp [refs, nDeps, pts, Heap.cells_alloc, here, unused, Node.init]

end New

/-! ## Vertices -/

section Vertices

variable {s after : Drawings}

/-- Changes of what an entity refers to -/
structure Edited (s : Drawings) (vP : Nat) (after : Drawings) : Prop where
  grove : after.grove = s.grove
  key : after.key = s.key
  freed : after.freed = s.freed
  next : after.heap.next = s.heap.next
  refs : ∀ vn, vn ≠ vP → after.refs vn = s.refs vn
  pts : ∀ vn, vn ≠ vP → after.pts vn = s.pts vn

theorem Edited.drawn {vP : Nat} (edited : Edited s vP after) (drawn : s.Drawn)
    (counted : RefCounted s.attached after.refs after.nDeps)
    (points : ∀ ref ∈ after.refs vP, s.HasClass .point ref)
    (plain : s.HasClass .point vP → after.pts vP = []) : after.Drawn := by
  have attached := attached_of_grove edited.grove
  have valid := drawn.valid
  have classed (ops : NodeOps) (vn : Nat) : after.HasClass ops vn ↔ s.HasClass ops vn := by
    rw [HasClass, HasClass, edited.key]
  refine ⟨edited.grove ▸ drawn.linked, ⟨?_, ?_, ?_, ?_, ?_⟩, ?_, ?_⟩
  · rw [attached]
    exact counted
  · rw [attached, edited.grove]
    exact valid.rooted
  · intro vn missing
    rw [attached] at missing
    rw [← key_eq_none, edited.key, key_eq_none]
    exact valid.gone vn missing
  · rw [attached, edited.freed, edited.next]
    exact valid.freed_iff
  · rw [edited.freed]
    exact valid.freedOnce
  · intro vn ref held
    rw [classed]
    by_cases same : vn = vP
    · rw [same] at held
      exact points ref held
    · rw [edited.refs vn same] at held
      exact drawn.points vn ref held
  · intro vn isPoint
    rw [classed] at isPoint
    by_cases same : vn = vP
    · rw [same] at isPoint ⊢
      exact plain isPoint
    · rw [edited.pts vn same]
      exact drawn.plain vn isPoint

theorem Edited.paired {vP : Nat} (edited : Edited s vP after) (paired : s.Paired)
    (refers : (after.refs vP).Perm (after.pts vP)) : after.Paired := by
  intro vn
  by_cases same : vn = vP
  · rw [same]
    exact refers
  · rw [edited.refs vn same, edited.pts vn same]
    exact paired vn

theorem polygonVertex_drawn {vP pt : Nat} (drawn : s.Drawn) (paired : s.Paired)
    (isPolygon : s.HasClass .polygon vP) (live : pt ∈ s.attached) (isPoint : s.HasClass .point pt)
    (added : s.polygonVertex vP pt = .ok after) : after.Drawn ∧ after.Paired := by
  obtain ⟨grove, key⟩ := polygonVertex_links added
  obtain ⟨polygon, read, added⟩ := bind_eq_ok.mp added
  obtain ⟨vg, hasVg, added⟩ := bind_eq_ok.mp added
  have found := node_eq_ok.mp read
  have member : vP ∈ s.attached :=
    mem_attached_of_owner ((owner_of_cell found).trans (nonNull_eq_ok.mp hasVg))
  obtain ⟨-, -, freed, next⟩ := addRef_links added
  have referred := addRef_referred added
  have refs : after.refs = Function.update s.refs vP (s.refs vP ++ [pt]) := by
    rw [referred.refs, refs_setNode_kept]
    exact fun _ => rfl
  have nDeps : after.nDeps = Function.update s.nDeps pt (s.nDeps pt + 1) := by
    rw [referred.nDeps, nDeps_setNode_kept]
    exact fun _ => rfl
  have pts : after.pts = Function.update s.pts vP (polygon.pts ++ [pt]) := by
    rw [referred.pts, pts_setNode found]
  have edited : Edited s vP after := by
    refine ⟨grove, key, freed, next, fun vn different => ?_, fun vn different => ?_⟩
    · rw [refs, Function.update_of_ne different]
    · rw [pts, Function.update_of_ne different]
  refine ⟨edited.drawn drawn ?_ (fun ref held => ?_) (fun impossible => ?_),
    edited.paired paired ?_⟩
  · rw [refs, nDeps]
    exact drawn.valid.counted.add member live
  · rw [refs, Function.update_self, List.mem_append, List.mem_singleton] at held
    rcases held with held | rfl
    · exact drawn.points vP ref held
    · exact isPoint
  · cases isPolygon.unique impossible
  · rw [refs, pts, Function.update_self, Function.update_self]
    refine List.Perm.append_right _ ?_
    rw [← pts_of_cell found]
    exact paired vP

theorem erase_perm_eraseIdx {held items : List Nat} {vtx pt : Nat} (perm : held.Perm items)
    (isVertex : items[vtx]? = some pt) : (held.erase pt).Perm (items.eraseIdx vtx) := by
  obtain ⟨inside, isVertex⟩ := List.getElem?_eq_some_iff.mp isVertex
  have member : pt ∈ items := isVertex ▸ List.getElem_mem inside
  refine (perm.erase pt).trans (List.Perm.cons_inv (a := pt) ?_)
  refine (List.perm_cons_erase member).symm.trans ?_
  rw [← isVertex]
  exact (List.getElem_cons_eraseIdx_perm inside).symm

theorem polygonDelVertex_drawn {vP vtx : Nat} (drawn : s.Drawn) (paired : s.Paired)
    (isPolygon : s.HasClass .polygon vP) (removed : s.polygonDelVertex vP vtx = .ok after) :
    after.Drawn ∧ after.Paired := by
  obtain ⟨grove, key⟩ := polygonDelVertex_links removed
  obtain ⟨polygon, read, removed⟩ := bind_eq_ok.mp removed
  obtain ⟨vg, hasVg, removed⟩ := bind_eq_ok.mp removed
  split at removed
  case h_1 =>
    obtain rfl := Except.ok.inj removed
    exact ⟨drawn, paired⟩
  case h_2 pt isVertex =>
    obtain ⟨⟨newDeps, middle⟩, deleted, removed⟩ := bind_eq_ok.mp removed
    have isAfter := Except.ok.inj removed
    have found := node_eq_ok.mp read
    obtain ⟨held, -, released⟩ := delRef_released deleted
    obtain ⟨-, middleKey, freed, next⟩ := delRef_links deleted
    have member := drawn.valid.attached_of_ref held
    obtain ⟨last, foundLast⟩ : ∃ last, middle.heap.cells vP = some last := by
      obtain ⟨handle, polygonKey⟩ := isPolygon
      rw [← middleKey] at polygonKey
      exact (Option.map_eq_some_iff.mp polygonKey).imp fun _ => And.left
    have refs : after.refs = Function.update s.refs vP ((s.refs vP).erase pt) := by
      rw [← isAfter, refs_setNode_kept, released.refs]
      exact fun _ => rfl
    have nDeps : after.nDeps = Function.update s.nDeps pt (s.nDeps pt - 1) := by
      rw [← isAfter, nDeps_setNode_kept, released.nDeps]
      exact fun _ => rfl
    have lastPts : last.pts = polygon.pts := by
      rw [← pts_of_cell foundLast, released.pts, pts_of_cell found]
    have pts : after.pts = Function.update s.pts vP (polygon.pts.eraseIdx vtx) := by
      rw [← isAfter, pts_setNode foundLast, released.pts, lastPts]
    have edited : Edited s vP after := by
      refine ⟨grove, key, isAfter ▸ freed, isAfter ▸ next,
        fun vn different => ?_, fun vn different => ?_⟩
      · rw [refs, Function.update_of_ne different]
      · rw [pts, Function.update_of_ne different]
    refine ⟨edited.drawn drawn ?_ (fun ref stillHeld => ?_)
      (fun impossible => ?_), edited.paired paired ?_⟩
    · rw [refs, nDeps]
      exact drawn.valid.counted.drop member held
    · rw [refs, Function.update_self] at stillHeld
      exact drawn.points vP ref (List.mem_of_mem_erase stillHeld)
    · cases isPolygon.unique impossible
    · rw [refs, pts, Function.update_self, Function.update_self]
      refine erase_perm_eraseIdx ?_ isVertex
      rw [← pts_of_cell found]
      exact paired vP

end Vertices

end Drawings

end Agar.Vg
