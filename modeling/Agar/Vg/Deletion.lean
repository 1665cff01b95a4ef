import Agar.Vg.References
import Agar.Vg.Detach
import Agar.Lib.Runs

namespace Agar.Vg

open Agar.Lib Agar.Core

/-!
# Deleting what is referred to

`VG_Delete` gives up the references of an entity, and deletes the points that
no other node refers to.  It detaches the nodes below what it deletes, and
frees none of them: only what has been deleted before, as one of these points,
may have been below.
-/

namespace Drawings

/-- A node is the root of its drawing. -/
def IsRoot (s : Drawings) (vn : Nat) : Prop :=
  ∃ vg, s.grove.owner vn = some vg ∧ s.grove.root vg = some vn

/-- All references to a point are those of one node. -/
def LastHeld (s : Drawings) (vn pt : Nat) : Prop :=
  pt ∈ s.refs vn ∧ s.nDeps pt = (s.refs vn).count pt

/--
What is deleted with a node as its points are given up in turn is no root, and
nothing else is below it or below the node; what is below it comes last before
it does.
-/
structure Clears (s : Drawings) (vn : Nat) (rest : List Nat) : Prop where
  keepsRoots : ∀ pt, s.LastHeld vn pt → ¬ s.IsRoot pt
  children : ∀ child ∈ s.grove.children vn, s.LastHeld vn child
  below : ∀ pt, s.LastHeld vn pt → ∀ child ∈ s.grove.children pt, s.LastHeld vn child ∧
        ∀ later, later <:+ rest → child ∈ later → pt ∈ later

/-- A node that is not in use can be deleted whole. -/
def DeletesWhole (s : Drawings) : Request → Prop
  | .delete vn => s.nDeps vn = 0 → ¬ s.IsRoot vn ∧ s.Clears vn (s.pts vn)
  | _ => True

/-- Nodes within a node, and no others, refer to a point. -/
def Loses (s : Drawings) (vn pt : Nat) : Prop :=
  (∃ holder, Within s.grove.parent holder vn ∧ pt ∈ s.refs holder) ∧
    ∀ holder ∈ s.attached, pt ∈ s.refs holder → Within s.grove.parent holder vn

/--
The node, its descendants, and the points that lose their last reference with
them are no longer attached, and are freed, once each.
-/
def Removes (s : Drawings) (vn : Nat) (after : Drawings) : Prop :=
  ∃ removed : List Nat, (∀ other, other ∈ removed ↔
        Within s.grove.parent other vn ∨ s.Loses vn other) ∧
      removed.Nodup ∧ after.freed = removed ++ s.freed ∧
      after.attached = s.attached \ removed.toFinset

/--
`VG_Delete` is defined.  It removes a node that is not in use, with what
belongs to it, and leaves everything as it is where the node is in use.
-/
def Deletes (s : Drawings) : Request → Prop
  | .delete vn =>
    ∃ deleted after, delete s.heap.next s vn = .ok (deleted, after) ∧ if s.nDeps vn = 0 then
        deleted = true ∧ s.Removes vn after
      else deleted = false ∧ after = s
  | _ => True

theorem root_ne_of_not_isRoot {s : Drawings} {vn : Nat} (linked : s.grove.Linked)
    (notRoot : ¬ s.IsRoot vn) (vg : Nat) : s.grove.root vg ≠ some vn :=
  fun isRoot => notRoot ⟨vg, (linked.ownsRoot vg vn isRoot).1, isRoot⟩

/-! ## Removing a node -/

section Leaf

variable {s after : Drawings} {p : Nat}

/-- Nodes are no longer attached, and have been freed. -/
structure Taken (s : Drawings) (removed : List Nat) (after : Drawings) : Prop where
  freed : after.freed = removed ++ s.freed
  attached : ∀ vn, vn ∈ after.attached ↔ vn ∈ s.attached ∧ vn ∉ removed
  root : after.grove.root = s.grove.root
  next : after.heap.next = s.heap.next

theorem Taken.trans {middle : Drawings} {first later : List Nat} (taken : Taken s first middle)
    (takenLater : Taken middle later after) : Taken s (later ++ first) after where
  freed := by rw [takenLater.freed, taken.freed, List.append_assoc]
  attached vn := by
    rw [takenLater.attached, taken.attached, List.mem_append]
    tauto
  root := takenLater.root.trans taken.root
  next := takenLater.next.trans taken.next

/-- What removing a node does that holds and counts no references -/
structure LeafRemoved (s : Drawings) (p : Nat) (after : Drawings) : Prop where
  drawn : after.Drawn
  taken : Taken s [p] after
  refs : after.refs = s.refs
  nDeps : after.nDeps = s.nDeps
  pts : after.pts = Function.update s.pts p []
  children : ∀ vn child, child ∈ after.grove.children vn → child ∈ s.grove.children vn ∧ child ≠ p

theorem leafRemoved_of_freed {detached : Drawings} {q vg : Nat} (drawn : s.Drawn)
    (owned : s.grove.owner p = some vg) (up : s.grove.parent p = some q)
    (childless : s.grove.children p = []) (unused : s.nDeps p = 0) (holdsNone : s.refs p = [])
    (unlinked : Unlinked s q p vg detached) (freed : Freed detached p after) :
    LeafRemoved s p after := by
  have valid := drawn.valid
  have member := mem_attached_of_owner owned
  have grove : after.grove = s.grove.detach q p vg := freed.grove.trans unlinked.grove
  have key : after.key = Function.update s.key p none := by rw [freed.key, unlinked.records.key]
  have uses : after.uses = Function.update s.uses p none := by
    rw [freed.uses, unlinked.records.uses]
  have attached : after.attached = s.attached.erase p := by
    ext other
    rw [Finset.mem_erase, mem_attached, mem_attached, grove]
    by_cases same : other = p
    · simp [Grove.detach, same]
    · simp [Grove.detach, same]
  have linked : after.grove.Linked := by
    rw [grove]
    exact drawn.linked.detach owned up childless
  have refs : after.refs = s.refs := by
    funext other
    rw [refs_eq_uses, uses]
    by_cases same : other = p
    · rw [same, Function.update_self, holdsNone]
      rfl
    · rw [Function.update_of_ne same, ← refs_eq_uses]
  have nDeps : after.nDeps = s.nDeps := by
    funext other
    rw [nDeps_eq_uses, uses]
    by_cases same : other = p
    · rw [same, Function.update_self, unused]
      rfl
    · rw [Function.update_of_ne same, ← nDeps_eq_uses]
  have pts : after.pts = Function.update s.pts p [] := by
    funext other
    rw [pts_eq_uses, uses]
    by_cases same : other = p
    · rw [same, Function.update_self, Function.update_self]
      rfl
    · rw [Function.update_of_ne same, Function.update_of_ne same, ← pts_eq_uses]
  have freedList : after.freed = p :: s.freed := by rw [freed.freed, unlinked.records.freed]
  have next : after.heap.next = s.heap.next := by rw [freed.next, unlinked.records.next]
  have bounds := bounds_of_mem member
  refine ⟨⟨linked, ⟨?_, ?_, ?_, ?_, ?_⟩, ?_, ?_⟩, ⟨freedList, ?_, ?_, next⟩, refs, nDeps, pts, ?_⟩
  · rw [attached, refs, nDeps]
    exact valid.counted.remove unused holdsNone
  · intro w r isRoot
    exact mem_attached_of_owner (linked.ownsRoot w r isRoot).1
  · intro other missing
    rw [attached, Finset.mem_erase, not_and] at missing
    rw [← key_eq_none, key]
    by_cases same : other = p
    · rw [same, Function.update_self]
    · rw [Function.update_of_ne same, key_eq_none]
      exact valid.gone other (missing same)
  · intro other
    rw [freedList, next, attached, List.mem_cons, Finset.mem_erase, valid.freed_iff]
    by_cases same : other = p
    · simp [same, bounds]
    · simp [same]
  · rw [freedList, List.nodup_cons, valid.freed_iff]
    exact ⟨fun wasFreed => wasFreed.2 member, valid.freedOnce⟩
  · intro other ref held
    rw [refs] at held
    obtain ⟨handle, isPoint⟩ := drawn.points other ref held
    have different : ref ≠ p := by
      rintro rfl
      exact valid.counted.not_mem_of_zero (valid.attached_of_ref held) unused held
    exact ⟨handle, by rw [key, Function.update_of_ne different, isPoint]⟩
  · intro other isPoint
    obtain ⟨handle, pointKey⟩ := isPoint
    rw [pts]
    by_cases same : other = p
    · rw [same, Function.update_self]
    · rw [key, Function.update_of_ne same] at pointKey
      rw [Function.update_of_ne same]
      exact drawn.plain other ⟨handle, pointKey⟩
  · intro other
    rw [attached, Finset.mem_erase, List.mem_singleton, and_comm]
  · rw [grove]
    rfl
  · intro other child below
    have childUp := (linked.lists.listed child other).mpr below
    rw [grove] at childUp
    simp only [Grove.detach] at childUp
    have different : child ≠ p := by
      rintro rfl
      rw [Function.update_self] at childUp
      cases childUp
    rw [Function.update_of_ne different] at childUp
    exact ⟨(drawn.linked.lists.listed child other).mp childUp, different⟩

theorem leaf_removed (drawn : s.Drawn) (member : p ∈ s.attached)
    (notRoot : ∀ vg, s.grove.root vg ≠ some p) (childless : s.grove.children p = [])
    (unused : s.nDeps p = 0) (holdsNone : s.refs p = []) (fuel : Nat) :
    ∃ detached after, nodeDetach (fuel + 1) s p = .ok detached ∧
        nodeDestroy (fuel + 1) detached p = .ok after ∧ LeafRemoved s p after := by
  obtain ⟨vg, owned⟩ := owner_of_mem member
  obtain ⟨node, found, hasVg⟩ := cell_of_owner owned
  obtain ⟨q, up⟩ := drawn.linked.exists_parent owned (notRoot vg)
  obtain ⟨detached, unlinks, unlinked⟩ := nodeUnlink_ok drawn.linked owned up childless
  have noChildren : node.cNodes = [] := (children_of_cell found).symm.trans childless
  have detaches : nodeDetach (fuel + 1) s p = .ok detached := by
    rw [nodeDetach, node_eq_ok.mpr found, ok_bind, nonNull_eq_ok.mpr hasVg, ok_bind, noChildren]
    exact unlinks
  have detaching := nodeDetach_detached drawn.linked detaches
  obtain ⟨left, foundLeft⟩ : ∃ left, detached.heap.cells p = some left := by
    have sameKey := key_of_cell found
    rw [← unlinked.records.key] at sameKey
    exact (Option.map_eq_some_iff.mp sameKey).imp fun _ => And.left
  obtain ⟨after, destroys, freed⟩ := nodeDestroy_ok detaching.linked detaching.alone foundLeft fuel
  exact ⟨detached, after, detaches, destroys,
    leafRemoved_of_freed drawn owned up childless unused holdsNone unlinked freed⟩

end Leaf

/-! ## Giving up the points -/

section Release

variable {s middle after : Drawings} {vn pt : Nat} {rest : List Nat}

/-- A node that is deleted still refers to the points that are left. -/
structure Releasing (s : Drawings) (vn : Nat) (rest : List Nat) : Prop where
  drawn : s.Drawn
  member : vn ∈ s.attached
  unused : s.nDeps vn = 0
  held : (s.refs vn).Perm rest
  paired : ∀ other, other ≠ vn → (s.refs other).Perm (s.pts other)
  clears : s.Clears vn rest

theorem Clears.advance {removed : List Nat} (clears : s.Clears vn (pt :: rest))
    (linked : s.grove.Linked) (taken : Taken s removed after)
    (lastHeld : ∀ x, s.LastHeld vn x ↔ x ∈ removed ∨ after.LastHeld vn x)
    (children : ∀ other child, child ∈ after.grove.children other →
        child ∈ s.grove.children other ∧ child ∉ removed) : after.Clears vn rest := by
  refine ⟨fun x still => ?_, fun child below => ?_, fun x still child below => ?_⟩
  · rintro ⟨vg, -, isRoot⟩
    rw [taken.root] at isRoot
    have notRoot := clears.keepsRoots x ((lastHeld x).mpr (.inr still))
    exact root_ne_of_not_isRoot linked notRoot vg isRoot
  · obtain ⟨wasBelow, stays⟩ := children vn child below
    exact ((lastHeld child).mp (clears.children child wasBelow)).resolve_left stays
  · obtain ⟨wasBelow, stays⟩ := children x child below
    obtain ⟨childHeld, order⟩ := clears.below x ((lastHeld x).mpr (.inr still)) child wasBelow
    exact ⟨((lastHeld child).mp childHeld).resolve_left stays,
      fun later suffix => order later (suffix.trans (List.suffix_cons pt rest))⟩

theorem Releasing.drop {newDeps : Nat} (releasing : s.Releasing vn (pt :: rest))
    (removed : s.delRef vn pt = .ok (newDeps, middle)) :
    newDeps = s.nDeps pt - 1 ∧ Edited s vn middle ∧ middle.Drawn ∧ Released s vn pt middle := by
  obtain ⟨held, counted, released⟩ := delRef_released removed
  obtain ⟨grove, key, freed, next⟩ := delRef_links removed
  have edited : Edited s vn middle := by
    refine ⟨grove, key, freed, next, fun other different => ?_, fun other _ => by rw [released.pts]⟩
    rw [released.refs, Function.update_of_ne different]
  refine ⟨counted, edited, edited.drawn releasing.drawn ?_
    (fun ref stillHeld => ?_) (fun isPoint => ?_), released⟩
  · rw [released.refs, released.nDeps]
    exact releasing.drawn.valid.counted.drop releasing.member held
  · rw [released.refs, Function.update_self] at stillHeld
    exact releasing.drawn.points vn ref (List.mem_of_mem_erase stillHeld)
  · rw [released.pts]
    exact releasing.drawn.plain vn isPoint

theorem Released.lastHeld_iff (released : Released s vn pt middle) {x : Nat} (different : x ≠ pt) :
    middle.LastHeld vn x ↔ s.LastHeld vn x := by
  rw [LastHeld, LastHeld, released.refs, released.nDeps, Function.update_self,
    Function.update_of_ne different, List.mem_erase_of_ne different,
    List.count_erase_of_ne different]

theorem Released.lastHeld_self_iff (released : Released s vn pt middle) (held : pt ∈ s.refs vn)
    (more : 1 < s.nDeps pt) : middle.LastHeld vn pt ↔ s.LastHeld vn pt := by
  have some := List.count_pos_iff.mpr held
  rw [LastHeld, LastHeld, released.refs, released.nDeps, Function.update_self,
    Function.update_self, List.count_erase_self, ← List.count_pos_iff,
    List.count_erase_self, ← List.count_pos_iff]
  omega

theorem Releasing.childless (releasing : s.Releasing vn (pt :: rest)) (last : s.LastHeld vn pt)
    (notLeft : pt ∉ rest) : s.grove.children pt = [] := by
  refine List.eq_nil_iff_forall_not_mem.mpr fun child below => ?_
  obtain ⟨childLast, order⟩ := releasing.clears.below pt last child below
  have up := (releasing.drawn.linked.lists.listed child pt).mpr below
  have different : child ≠ pt := by
    rintro rfl
    exact releasing.drawn.linked.not_within_child up (Within.refl child)
  have later : child ∈ rest :=
    (List.mem_cons.mp (releasing.held.mem_iff.mp childLast.1)).resolve_left different
  exact notLeft (order rest (List.suffix_cons pt rest) later)

theorem delete_leaf (drawn : s.Drawn) (member : pt ∈ s.attached)
    (notRoot : ∀ vg, s.grove.root vg ≠ some pt) (childless : s.grove.children pt = [])
    (unused : s.nDeps pt = 0) (holdsNone : s.refs pt = []) (noPoints : s.pts pt = []) (fuel : Nat) :
    ∃ after, delete (fuel + 2) s pt = .ok (true, after) ∧ LeafRemoved s pt after := by
  obtain ⟨vg, owned⟩ := owner_of_mem member
  obtain ⟨node, found, hasVg⟩ := cell_of_owner owned
  obtain ⟨detached, after, detaches, destroys, removed⟩ :=
    leaf_removed drawn member notRoot childless unused holdsNone fuel
  refine ⟨after, ?_, removed⟩
  have noDeps : ¬ node.nDeps > 0 := by
    rw [← nDeps_of_cell found, unused]
    exact Nat.lt_irrefl 0
  rw [delete, node_eq_ok.mpr found, ok_bind, nonNull_eq_ok.mpr hasVg, ok_bind,
    if_neg noDeps, ← pts_of_cell found, noPoints, List.foldlM_nil]
  change (nodeDetach (fuel + 1) s pt >>= _) = _
  rw [detaches, ok_bind, destroys]
  rfl

/-- One turn of the loop over the points of an entity that is deleted -/
def giveUp (fuel vn : Nat) (s : Drawings) (pt : Nat) : Except Stop Drawings := do
  let (newDeps, s) ← s.delRef vn pt
  if newDeps = 0 then do
    let (_, s) ← delete fuel s pt
    return s
  else return s

theorem giveUp_releasing (releasing : s.Releasing vn (pt :: rest)) (fuel : Nat) :
    ∃ after removed, giveUp (fuel + 2) vn s pt = .ok after ∧
      after.Releasing vn rest ∧ Taken s removed after ∧
      ∀ x, s.LastHeld vn x ↔ x ∈ removed ∨ after.LastHeld vn x := by
  have valid := releasing.drawn.valid
  have held : pt ∈ s.refs vn := releasing.held.mem_iff.mpr List.mem_cons_self
  have live := valid.attached_ref held
  obtain ⟨⟨newDeps, middle⟩, removed⟩ := delRef_ok held live
  obtain ⟨counts, edited, drawn, released⟩ := releasing.drop removed
  have different : pt ≠ vn := by
    rintro rfl
    exact valid.counted.not_mem_of_zero releasing.member releasing.unused held
  have attached := attached_of_grove edited.grove
  have heldAfter : (middle.refs vn).Perm rest := by
    rw [released.refs, Function.update_self, ← List.erase_cons_head pt rest]
    exact releasing.held.erase pt
  have unused : middle.nDeps vn = 0 := by
    rw [released.nDeps, Function.update_of_ne different.symm]
    exact releasing.unused
  have pairedAfter (other : Nat) (isOther : other ≠ vn) :
      (middle.refs other).Perm (middle.pts other) := by
    rw [edited.refs other isOther, edited.pts other isOther]
    exact releasing.paired other isOther
  have atLeast := valid.counted.count_le releasing.member live
  have some := List.count_pos_iff.mpr held
  by_cases isLast : newDeps = 0
  · -- the point is deleted: it was referred to once
    have once : s.nDeps pt = 1 := by omega
    have last : s.LastHeld vn pt := ⟨held, by omega⟩
    have notLeft : pt ∉ rest := by
      rw [← heldAfter.mem_iff, released.refs, Function.update_self,
        ← List.count_pos_iff, List.count_erase_self]
      omega
    have noPoints : middle.pts pt = [] := by
      rw [edited.pts pt different]
      exact releasing.drawn.plain pt (releasing.drawn.points vn pt held)
    have holdsNone : middle.refs pt = [] := by
      refine List.Perm.eq_nil ?_
      rw [← noPoints]
      exact pairedAfter pt different
    have noLonger : middle.nDeps pt = 0 := by rw [released.nDeps, Function.update_self, once]
    have notRoot (vg : Nat) : middle.grove.root vg ≠ Option.some pt := by
      rw [edited.grove]
      exact root_ne_of_not_isRoot releasing.drawn.linked (releasing.clears.keepsRoots pt last) vg
    have childless : middle.grove.children pt = [] := by
      rw [edited.grove]
      exact releasing.childless last notLeft
    obtain ⟨after, deletes, leaf⟩ :=
      delete_leaf drawn (attached ▸ live) notRoot childless noLonger holdsNone noPoints fuel
    have taken : Taken s [pt] after := by
      refine ⟨?_, fun other => ?_, ?_, ?_⟩
      · rw [leaf.taken.freed, edited.freed]
      · rw [leaf.taken.attached, attached]
      · rw [leaf.taken.root, edited.grove]
      · rw [leaf.taken.next, edited.next]
    have lastHeld (x : Nat) : s.LastHeld vn x ↔ x ∈ [pt] ∨ after.LastHeld vn x := by
      have same : after.LastHeld vn x ↔ middle.LastHeld vn x := by
        rw [LastHeld, LastHeld, leaf.refs, leaf.nDeps]
      rw [same, List.mem_singleton]
      by_cases isPt : x = pt
      · simp [isPt, last]
      · rw [released.lastHeld_iff isPt]
        simp [isPt]
    refine ⟨after, [pt], ?_, ?_, taken, lastHeld⟩
    · rw [giveUp, removed, ok_bind]
      dsimp only
      rw [if_pos isLast, deletes]
      rfl
    · refine ⟨leaf.drawn, ?_, ?_, ?_, fun other isOther => ?_, ?_⟩
      · rw [taken.attached, List.mem_singleton]
        exact ⟨releasing.member, different.symm⟩
      · rw [leaf.nDeps, unused]
      · rw [leaf.refs]
        exact heldAfter
      · rw [leaf.refs, leaf.pts]
        by_cases isPt : other = pt
        · rw [isPt, Function.update_self, holdsNone]
        · rw [Function.update_of_ne isPt]
          exact pairedAfter other isOther
      · refine releasing.clears.advance releasing.drawn.linked taken lastHeld
          fun other child below => ?_
        obtain ⟨below, isOther⟩ := leaf.children other child below
        rw [edited.grove] at below
        exact ⟨below, by simpa using isOther⟩
  · have more : 1 < s.nDeps pt := by omega
    have taken : Taken s [] middle := by
      refine ⟨edited.freed, fun other => ?_, ?_, edited.next⟩
      · rw [attached]
        simp
      · rw [edited.grove]
    have lastHeld (x : Nat) : s.LastHeld vn x ↔ x ∈ ([] : List Nat) ∨ middle.LastHeld vn x := by
      rw [or_iff_right List.not_mem_nil]
      by_cases isPt : x = pt
      · rw [isPt, released.lastHeld_self_iff held more]
      · rw [released.lastHeld_iff isPt]
    refine ⟨middle, [], ?_, ⟨drawn, attached ▸ releasing.member, unused,
      heldAfter, pairedAfter, ?_⟩, taken, lastHeld⟩
    · rw [giveUp, removed, ok_bind]
      dsimp only
      rw [if_neg isLast]
      rfl
    · refine releasing.clears.advance releasing.drawn.linked taken lastHeld
          fun other child below => ?_
      rw [edited.grove] at below
      exact ⟨below, List.not_mem_nil⟩

theorem giveUp_all (releasing : s.Releasing vn rest) (fuel : Nat) :
    ∃ after removed, rest.foldlM (giveUp (fuel + 2) vn) s = .ok after ∧
      after.Releasing vn [] ∧ Taken s removed after ∧ ∀ x, x ∈ removed ↔ s.LastHeld vn x := by
  induction rest generalizing s with
  | nil =>
    refine ⟨s, [], rfl, releasing, ⟨rfl, fun _ => by simp, rfl, rfl⟩, fun x => ?_⟩
    rw [LastHeld, releasing.held.eq_nil]
    simp
  | cons pt rest ih =>
    obtain ⟨middle, first, gives, next, taken, lastHeld⟩ := giveUp_releasing releasing fuel
    obtain ⟨after, later, loops, last, takenLater, removed⟩ := ih next
    refine ⟨after, later ++ first, ?_, last, taken.trans takenLater, fun x => ?_⟩
    · rw [List.foldlM_cons, gives, ok_bind, loops]
    · rw [List.mem_append, removed, lastHeld, or_comm]

theorem delete_whole (drawn : s.Drawn) (paired : s.Paired) (member : vn ∈ s.attached)
    (unused : s.nDeps vn = 0) (notRoot : ¬ s.IsRoot vn) (clears : s.Clears vn (s.pts vn)) :
    ∃ after removed, delete s.heap.next s vn = .ok (true, after) ∧
      after.Drawn ∧ after.Paired ∧ Taken s (vn :: removed) after ∧
      ∀ x, x ∈ removed ↔ s.LastHeld vn x := by
  obtain ⟨vg, owned⟩ := owner_of_mem member
  obtain ⟨node, found, hasVg⟩ := cell_of_owner owned
  -- the node and the root of the drawing are two nodes, so that the bound is 3
  obtain ⟨fuel, bound⟩ : ∃ fuel, s.heap.next = fuel + 3 := by
    obtain ⟨r, isRoot, -⟩ := drawn.linked.rooted vn vg owned
    have rootBounds := bounds_of_mem (drawn.valid.rooted vg r isRoot)
    have bounds := bounds_of_mem member
    have different : r ≠ vn := by
      rintro rfl
      exact notRoot ⟨vg, owned, isRoot⟩
    exact Nat.exists_eq_add_of_le' (by omega)
  obtain ⟨released, removed, loops, last, taken, lastHeld⟩ :=
    giveUp_all ⟨drawn, member, unused, paired vn, fun other _ => paired other, clears⟩ fuel
  have childless : released.grove.children vn = [] := by
    refine List.eq_nil_iff_forall_not_mem.mpr fun child below => ?_
    have held := (last.clears.children child below).1
    rw [last.held.eq_nil] at held
    cases held
  have stillNotRoot (w : Nat) : released.grove.root w ≠ some vn := by
    rw [taken.root]
    exact root_ne_of_not_isRoot drawn.linked notRoot w
  obtain ⟨detached, after, detaches, destroys, leaf⟩ :=
    leaf_removed last.drawn last.member stillNotRoot childless last.unused
      last.held.eq_nil (fuel + 1)
  have noDeps : ¬ node.nDeps > 0 := by
    rw [← nDeps_of_cell found, unused]
    exact Nat.lt_irrefl 0
  refine ⟨after, removed, ?_, leaf.drawn, fun other => ?_, taken.trans leaf.taken, lastHeld⟩
  · rw [bound, delete, node_eq_ok.mpr found, ok_bind, nonNull_eq_ok.mpr hasVg,
      ok_bind, if_neg noDeps, ← pts_of_cell found]
    change ((s.pts vn).foldlM (giveUp (fuel + 2) vn) s >>= _) = _
    rw [loops, ok_bind, detaches, ok_bind, destroys]
    rfl
  · rw [leaf.refs, leaf.pts]
    by_cases same : other = vn
    · rw [same, Function.update_self, last.held.eq_nil]
    · rw [Function.update_of_ne same]
      exact last.paired other same

theorem delete_in_use (member : vn ∈ s.attached) (used : s.nDeps vn ≠ 0) :
    delete s.heap.next s vn = .ok (false, s) := by
  obtain ⟨vg, owned⟩ := owner_of_mem member
  obtain ⟨node, found, hasVg⟩ := cell_of_owner owned
  obtain ⟨fuel, bound⟩ := Nat.exists_eq_succ_of_ne_zero s.heap.positive.ne'
  have hasDeps : node.nDeps > 0 := by
    rw [← nDeps_of_cell found]
    exact Nat.pos_of_ne_zero used
  rw [bound, delete, node_eq_ok.mpr found, ok_bind, nonNull_eq_ok.mpr hasVg,
    ok_bind, if_pos hasDeps]
  rfl

theorem mem_removed_iff (drawn : s.Drawn) (paired : s.Paired) (member : vn ∈ s.attached)
    (clears : s.Clears vn (s.pts vn)) (x : Nat) :
    x = vn ∨ s.LastHeld vn x ↔ Within s.grove.parent x vn ∨ s.Loses vn x := by
  have counted := drawn.valid.counted
  have onlyHolder {pt : Nat} (held : pt ∈ s.refs vn) :
      s.nDeps pt = (s.refs vn).count pt ↔ ∀ other ∈ s.attached, pt ∈ s.refs other → other = vn :=
    counted.only_holder_iff member (drawn.valid.attached_ref held)
  -- all that is below the node is among what only it refers to
  have below {node : Nat} (within : Within s.grove.parent node vn) :
      node = vn ∨ s.LastHeld vn node := by
    induction within using Relation.ReflTransGen.head_induction_on with
    | refl => exact .inl rfl
    | @head lower next up _ ih =>
      have listed := (drawn.linked.lists.listed lower next).mp up
      rcases ih with rfl | last
      · exact .inr (clears.children lower listed)
      · exact .inr (clears.below next last lower listed).1
  have holder_eq {holder pt : Nat} (within : Within s.grove.parent holder vn)
      (held : pt ∈ s.refs holder) :
      holder = vn := by
    refine (below within).resolve_right fun last => ?_
    have noPoints := drawn.plain holder (drawn.points vn holder last.1)
    have holdsNone := paired holder
    rw [noPoints] at holdsNone
    rw [holdsNone.eq_nil] at held
    cases held
  constructor
  · rintro (rfl | ⟨held, all⟩)
    · exact .inl (Within.refl x)
    · refine .inr ⟨⟨vn, Within.refl vn, held⟩, fun holder isLive holds => ?_⟩
      rw [(onlyHolder held).mp all holder isLive holds]
      exact Within.refl vn
  · rintro (within | ⟨⟨holder, within, held⟩, only⟩)
    · exact below within
    · obtain rfl := holder_eq within held
      refine .inr ⟨held, (onlyHolder held).mpr fun other isLive holds => ?_⟩
      exact holder_eq (only other isLive holds) holds

end Release

/-! ## Runs -/

section Runs

variable {s after : Drawings}

theorem deletes_of_whole {request : Request} (drawn : s.Drawn) (paired : s.Paired)
    (drawable : s.Drawable request) (whole : s.DeletesWhole request) : s.Deletes request := by
  cases request with
  | delete vn =>
    by_cases unused : s.nDeps vn = 0
    · obtain ⟨notRoot, clears⟩ := whole unused
      obtain ⟨after, removed, deletes, drawnAfter, -, taken, lastHeld⟩ :=
        delete_whole drawn paired drawable unused notRoot clears
      refine ⟨true, after, deletes, ?_⟩
      rw [if_pos unused]
      refine ⟨rfl, vn :: removed, fun other => ?_, ?_, taken.freed, ?_⟩
      · rw [List.mem_cons, lastHeld]
        exact mem_removed_iff drawn paired drawable clears other
      · have once := drawnAfter.valid.freedOnce
        rw [taken.freed] at once
        exact once.of_append_left
      · ext other
        rw [taken.attached, Finset.mem_sdiff, List.mem_toFinset]
    · refine ⟨false, s, delete_in_use drawable unused, ?_⟩
      rw [if_neg unused]
      exact ⟨rfl, rfl⟩
  | _ => trivial

theorem step_drawn {request : Request} (drawn : s.Drawn) (paired : s.Paired)
    (drawable : s.Drawable request) (whole : s.DeletesWhole request)
    (taken : s.step request = some after) : after.Drawn ∧ after.Paired := by
  have called : s.call request = .ok after := toOption_eq_some.mp taken
  cases request with
  | newVg =>
    exact (newVg_made drawn.linked called).drawn drawn paired
      (fun pt member => absurd member List.not_mem_nil) fun _ => rfl
  | create pNode entity =>
    cases pNode with
    | none => exact drawable.elim
    | some p =>
      refine (newNode_made drawn.linked called).drawn drawn paired drawable fun isPoint => ?_
      cases entity <;> first | rfl | cases isPoint
  | delete vn =>
    obtain ⟨⟨deleted, last⟩, done, isLast⟩ := bind_eq_ok.mp called
    obtain rfl := Except.ok.inj isLast
    by_cases unused : s.nDeps vn = 0
    · obtain ⟨notRoot, clears⟩ := whole unused
      obtain ⟨removed, _, deletes, drawnAfter, pairedAfter, -⟩ :=
        delete_whole drawn paired drawable unused notRoot clears
      obtain ⟨-, rfl⟩ := Prod.mk.inj (Except.ok.inj (done.symm.trans deletes))
      exact ⟨drawnAfter, pairedAfter⟩
    · rw [delete_in_use drawable unused] at done
      obtain ⟨-, rfl⟩ := Prod.mk.inj (Except.ok.inj done)
      exact ⟨drawn, paired⟩
  | polygonVertex vP pt =>
    exact polygonVertex_drawn drawn paired drawable.1 drawable.2.1 drawable.2.2 called
  | polygonDelVertex vP vtx => exact polygonDelVertex_drawn drawn paired drawable called
  | _ => exact drawable.elim

theorem empty_drawn : empty.Drawn ∧ empty.Paired := by
  refine ⟨⟨⟨⟨?_, ?_⟩, ?_, ?_, ?_, ?_, ?_⟩, ⟨⟨?_, ?_⟩, ?_, ?_, ?_, ?_⟩, ?_, ?_⟩, ?_⟩ <;>
    simp [Paired, HasClass, attached, refs, pts, key, grove, empty, Heap.empty]
  omega

/--
In every run of calls from no drawings that deletes nodes whole, the
references are valid throughout, and each `VG_Delete` removes what it should.
-/
theorem references_valid {requests : List Request}
    (drawable : EachStep step Drawable empty requests)
    (whole : EachStep step DeletesWhole empty requests) :
    AlwaysAlong step Valid empty requests ∧ EachStep step Deletes empty requests := by
  have admissible := drawable.and whole
  have kept (s : Drawings) (request : Request) (after : Drawings) (inOrder : s.Drawn ∧ s.Paired)
      (admits : s.Drawable request ∧ s.DeletesWhole request)
      (taken : s.step request = some after) :
      after.Drawn ∧ after.Paired :=
    step_drawn inOrder.1 inOrder.2 admits.1 admits.2 taken
  refine ⟨AlwaysAlong.of_invariant (fun s => s.Drawn ∧ s.Paired)
      (fun s inOrder => inOrder.1.valid) kept empty_drawn admissible,
    EachStep.of_invariant (fun s => s.Drawn ∧ s.Paired) kept (fun s request inOrder admits met =>
        deletes_of_whole inOrder.1 inOrder.2 admits.1 met)
      empty_drawn admissible whole⟩

theorem references_valid_line : AlwaysAlong step Valid empty
        [.newVg, .create (some 1) .point, .create (some 1) .point,
          .create (some 1) (.line 2 3), .create (some 1) .polygon,
          .polygonVertex 5 3, .delete 4, .delete 3] ∧
      EachStep step Deletes empty [.newVg, .create (some 1) .point, .create (some 1) .point,
          .create (some 1) (.line 2 3), .create (some 1) .polygon,
          .polygonVertex 5 3, .delete 4, .delete 3] := by
  refine references_valid ?_ ?_
  · refine .cons trivial rfl ?_
    refine .cons (fun pt member => absurd member List.not_mem_nil) rfl ?_
    refine .cons (fun pt member => absurd member List.not_mem_nil) rfl ?_
    refine .cons (List.forall_mem_cons.mpr ⟨⟨by decide, ⟨_, rfl⟩⟩,
      List.forall_mem_singleton.mpr ⟨by decide, ⟨_, rfl⟩⟩⟩) rfl ?_
    refine .cons (fun pt member => absurd member List.not_mem_nil) rfl ?_
    refine .cons ⟨⟨_, rfl⟩, by decide, ⟨_, rfl⟩⟩ rfl ?_
    refine .cons (show _ ∈ _ by decide) rfl ?_
    exact .cons (show _ ∈ _ by decide) rfl trivial
  · refine .cons trivial rfl ?_
    refine .cons trivial rfl ?_
    refine .cons trivial rfl ?_
    refine .cons trivial rfl ?_
    refine .cons trivial rfl ?_
    refine .cons trivial rfl ?_
    refine .cons (fun _ => ⟨?_, fun pt last => ?_, fun child below => ?_,
      fun pt last child below => ?_⟩) rfl ?_
    · rintro ⟨vg, owned, isRoot⟩
      cases owned
      cases isRoot
    · rintro ⟨vg, owned, isRoot⟩
      rcases List.mem_pair.mp (last.1 : pt ∈ [2, 3]) with rfl | rfl <;>
        cases owned <;> cases isRoot
    · cases below
    · rcases List.mem_pair.mp (last.1 : pt ∈ [2, 3]) with rfl | rfl <;>
        cases below
    refine .cons (fun unused => ?_) rfl trivial
    cases unused

theorem child_not_freed : EachStep step Drawable empty
        [.newVg, .create (some 1) .point, .create (some 2) .polygon, .delete 2] ∧
      ¬ AlwaysAlong step Valid empty
        [.newVg, .create (some 1) .point, .create (some 2) .polygon, .delete 2] := by
  constructor
  · refine .cons trivial rfl ?_
    refine .cons (fun pt member => absurd member List.not_mem_nil) rfl ?_
    refine .cons (fun pt member => absurd member List.not_mem_nil) rfl ?_
    exact .cons (show _ ∈ _ by decide) rfl trivial
  · intro along
    have reached := (((along.2 _ rfl).2 _ rfl).2 _ rfl).2 _ rfl
    have missing := reached.gone 3 (by decide)
    cases missing

end Runs

end Drawings

end Agar.Vg
