import Agar.Vg.Tree

namespace Agar.Vg

open Agar.Lib Agar.Core

/-!
# Merging drawings

`VG_Merge` links the root of a drawing below a node of another one, and hands
over the nodes of the tree, the children of a node before the node itself.
-/

namespace Drawings

/-- What handing over one node does -/
structure Handed (s : Drawings) (vgDst vn : Nat) (after : Drawings) : Prop where
  grove : ∃ vg, vn ∈ s.grove.members vg ∧ after.grove = s.grove.hand vn vg vgDst
  named : ∃ ops handle before, s.key vn = some (ops, before) ∧
        after.key = Function.update s.key vn (some (ops, handle)) ∧
        s.Unnamed ops handle (s.grove.members vgDst)
  uses : after.uses = s.uses
  freed : after.freed = s.freed
  next : after.heap.next = s.heap.next

/-- The nodes of a list differ in class or handle. -/
def Distinct (s : Drawings) (nodes : List Nat) : Prop :=
  ∀ vn ∈ nodes, ∀ other ∈ nodes, s.key vn = s.key other → vn = other

section Hand

variable {s after : Drawings} {vgDst given vn : Nat}

theorem Handed.mem (handed : Handed s vgDst vn after) (moving : s.grove.Moving given)
    (other : Nat) :
    other ∈ after.grove.members vgDst ↔ other = vn ∨ other ∈ s.grove.members vgDst := by
  obtain ⟨vg, listed, same⟩ := handed.grove
  rw [same]
  simp only [Grove.hand, Function.update_self, List.mem_append,
    List.mem_singleton, moving.mem_rest listed]
  by_cases here : other = vn <;> simp [here]

theorem Handed.distinct (handed : Handed s vgDst vn after) (moving : s.grove.Moving given)
    (distinct : s.Distinct (s.grove.members vgDst)) :
    after.Distinct (after.grove.members vgDst) := by
  obtain ⟨ops, handle, before, _, renamed, unnamed⟩ := handed.named
  have fresh {other : Nat} (different : other ≠ vn) (member : other ∈ after.grove.members vgDst) :
      after.key vn ≠ after.key other := by
    rw [renamed, Function.update_self, Function.update_of_ne different]
    exact Ne.symm (unnamed other (((handed.mem moving other).mp member).resolve_left different))
  intro first firstMember second secondMember same
  by_cases isFirst : first = vn <;> by_cases isSecond : second = vn
  · rw [isFirst, isSecond]
  · rw [isFirst] at same
    exact absurd same (fresh isSecond secondMember)
  · rw [isSecond] at same
    exact absurd same.symm (fresh isFirst firstMember)
  · rw [renamed, Function.update_of_ne isFirst, Function.update_of_ne isSecond] at same
    exact distinct first
      (((handed.mem moving first).mp firstMember).resolve_left isFirst) second
      (((handed.mem moving second).mp secondMember).resolve_left isSecond) same

/--
The nodes of a list are named apart, and the first point of another drawing is
among them with the handle of its root.
-/
structure RootListed (s : Drawings) (vgDst r : Nat) : Prop where
  distinct : s.Distinct (s.grove.members vgDst)
  listed : r ∈ s.grove.members vgDst
  key : s.key r = some (.point, 1)

theorem Handed.rootListed {r : Nat} (handed : Handed s vgDst vn after)
    (moving : s.grove.Moving given) (rootListed : s.RootListed vgDst r) (different : r ≠ vn) :
    after.RootListed vgDst r := by
  obtain ⟨ops, handle, before, _, renamed, _⟩ := handed.named
  refine ⟨handed.distinct moving rootListed.distinct,
    (handed.mem moving r).mpr (.inr rootListed.listed), ?_⟩
  rw [renamed, Function.update_of_ne different]
  exact rootListed.key

end Hand

/-! ## The recursion -/

/-- What handing over the nodes below does -/
structure Moved (s : Drawings) (vgDst given : Nat) (below : Nat → Prop)
    (after : Drawings) : Prop where
  moving : after.grove.Moving given
  parent : after.grove.parent = s.grove.parent
  children : after.grove.children = s.grove.children
  root : after.grove.root = s.grove.root
  within : ∀ vn, below vn → after.grove.owner vn = some vgDst
  outside : ∀ vn, ¬ below vn → after.grove.owner vn = s.grove.owner vn ∧ after.key vn = s.key vn
  rootListed : ∀ r, ¬ below r → s.RootListed vgDst r → after.RootListed vgDst r
  uses : after.uses = s.uses
  freed : after.freed = s.freed
  next : after.heap.next = s.heap.next

section Moves

variable {s middle after : Drawings} {vgDst given vn : Nat}

theorem Moved.none (moving : s.grove.Moving given) : Moved s vgDst given (fun _ => False) s where
  moving := moving
  parent := rfl
  children := rfl
  root := rfl
  within _ impossible := impossible.elim
  outside _ _ := ⟨rfl, rfl⟩
  rootListed _ _ listed := listed
  uses := rfl
  freed := rfl
  next := rfl

theorem Moved.trans {below more all : Nat → Prop} (first : Moved s vgDst given below middle)
    (second : Moved middle vgDst given more after) (either : ∀ vn, all vn ↔ below vn ∨ more vn) :
    Moved s vgDst given all after where
  moving := second.moving
  parent := second.parent.trans first.parent
  children := second.children.trans first.children
  root := second.root.trans first.root
  within vn isBelow := by
    by_cases later : more vn
    · exact second.within vn later
    · rw [(second.outside vn later).1]
      exact first.within vn (((either vn).mp isBelow).resolve_right later)
  outside vn notBelow := by
    rw [either] at notBelow
    push Not at notBelow
    obtain ⟨owner, key⟩ := first.outside vn notBelow.1
    obtain ⟨laterOwner, laterKey⟩ := second.outside vn notBelow.2
    exact ⟨laterOwner.trans owner, laterKey.trans key⟩
  rootListed r notBelow listed := by
    rw [either] at notBelow
    push Not at notBelow
    exact second.rootListed r notBelow.2 (first.rootListed r notBelow.1 listed)
  uses := second.uses.trans first.uses
  freed := second.freed.trans first.freed
  next := second.next.trans first.next

theorem Handed.moved (handed : Handed s vgDst vn after) (moving : s.grove.Moving given)
    (keeps : vgDst ≠ given) : Moved s vgDst given (fun other => other = vn) after := by
  obtain ⟨vg, listed, same⟩ := handed.grove
  obtain ⟨ops, handle, before, _, renamed, _⟩ := handed.named
  refine
    { moving := same ▸ moving.hand listed keeps
      parent := by rw [same]; rfl
      children := by rw [same]; rfl
      root := by rw [same]; rfl
      within := ?_
      outside := ?_
      rootListed := fun r different rootListed => handed.rootListed moving rootListed different
      uses := handed.uses
      freed := handed.freed
      next := handed.next }
  · rintro other rfl
    rw [same]
    exact Function.update_self ..
  · intro other different
    rw [same, renamed, Function.update_of_ne different]
    exact ⟨Function.update_of_ne different .., rfl⟩

end Moves

/-! ## Merging -/

/-- The root of each drawing is point 1. -/
def RootsNamed (s : Drawings) : Prop :=
  ∀ vg r, s.grove.root vg = some r → s.key r = some (.point, 1)

/-- The handles identify the nodes of each drawing, beside its root. -/
structure Named (s : Drawings) : Prop where
  distinct : ∀ vg, s.Distinct (s.grove.members vg)
  apart : ∀ vg, ∀ vn ∈ s.grove.members vg, s.key vn ≠ some (.point, 1)

end Drawings

end Agar.Vg
