import Agar.Vg.Detach
import Agar.Vg.Merge
import Agar.Lib.Runs

namespace Agar.Vg

open Agar.Lib Agar.Core

/-!
# Handles that identify nodes

The links of the drawings agree after any calls.  A class and a handle stand
for one node of a drawing exactly as long as no point is given a generated
handle, which is that of the root, and no node is attached again where its old
handle is taken.
-/

namespace Drawings

/--
A node is attached when it has no drawing, and a drawing is merged into
another one.
-/
def Admitted (s : Drawings) : Request → Prop
  | .attach _ pNode => s.grove.owner pNode = none
  | .merge vnDst vgSrc => s.grove.owner vnDst ≠ some vgSrc
  | _ => True

section States

variable {s after : Drawings}

theorem Shrinks.rootsNamed (shrinks : Shrinks s after) (linked : after.grove.Linked)
    (rootsNamed : s.RootsNamed) : after.RootsNamed := by
  intro vg r isRoot
  rw [(shrinks.owner r vg (linked.ownsRoot vg r isRoot).1).2]
  rw [shrinks.root] at isRoot
  exact rootsNamed vg r isRoot

theorem Shrinks.named (shrinks : Shrinks s after) (linked : s.grove.Linked)
    (afterLinked : after.grove.Linked) (named : s.Named) : after.Named := by
  have stays {vg vn : Nat} (member : vn ∈ after.grove.members vg) :
      vn ∈ s.grove.members vg ∧ after.key vn = s.key vn := by
    obtain ⟨owned, notRoot⟩ := (afterLinked.listed vg vn).mp member
    obtain ⟨ownedBefore, key⟩ := shrinks.owner vn vg owned
    rw [shrinks.root] at notRoot
    exact ⟨(linked.listed vg vn).mpr ⟨ownedBefore, notRoot⟩, key⟩
  refine ⟨fun vg first firstMember second secondMember same => ?_, fun vg vn member => ?_⟩
  · obtain ⟨firstOld, firstKey⟩ := stays firstMember
    obtain ⟨secondOld, secondKey⟩ := stays secondMember
    rw [firstKey, secondKey] at same
    exact named.distinct vg first firstOld second secondOld same
  · obtain ⟨old, key⟩ := stays member
    rw [key]
    exact named.apart vg vn old

end States

/-! ## Attaching -/

section Attach

variable {s after : Drawings} {p vn vg : Nat}

theorem Attached.linked (attached : Attached s p vn vg after) (linked : s.grove.Linked)
    (unowned : s.grove.owner vn = none) : after.grove.Linked := by
  rw [attached.grove]
  exact linked.attach unowned attached.owned

theorem Attached.rootsNamed (attached : Attached s p vn vg after) (linked : s.grove.Linked)
    (unowned : s.grove.owner vn = none) (rootsNamed : s.RootsNamed) : after.RootsNamed := by
  obtain ⟨node, handle, _, key, _⟩ := attached.named
  intro other r isRoot
  rw [attached.grove] at isRoot
  have isRootBefore : s.grove.root other = some r := isRoot
  have different : r ≠ vn := by
    rintro rfl
    rw [(linked.ownsRoot other r isRootBefore).1] at unowned
    cases unowned
  rw [key, Function.update_of_ne different]
  exact rootsNamed other r isRootBefore

end Attach

/-! ## Steps -/

/-- The links agree, and the root of each drawing is point 1. -/
structure Sound (s : Drawings) : Prop where
  linked : s.grove.Linked
  rootsNamed : s.RootsNamed

/-- What a step keeps, and when it keeps the nodes named apart -/
structure Step (s : Drawings) (names : Prop) (after : Drawings) : Prop where
  sound : after.Sound
  named_iff : s.Named → (after.Named ↔ names)

section Steps

variable {s after : Drawings}

theorem Shrinks.step (shrinks : Shrinks s after) (sound : s.Sound) (linked : after.grove.Linked) :
    Step s True after :=
  ⟨⟨linked, shrinks.rootsNamed linked sound.rootsNamed⟩, fun named =>
    iff_true_intro (shrinks.named sound.linked linked named)⟩

theorem Shrinks.before {begun : Drawings} {names : Prop} (shrinks : Shrinks s begun)
    (sound : s.Sound) (linked : begun.grove.Linked) (step : begun.Sound → Step begun names after) :
    Step s names after := by
  have first := shrinks.step sound linked
  have last := step first.sound
  exact ⟨last.sound, fun named => last.named_iff (((first.named_iff named).mpr trivial))⟩

end Steps

/-! ## Runs -/

theorem empty_sound : empty.Sound := by
  refine ⟨⟨⟨?_, ?_⟩, ?_, ?_, ?_, ?_, ?_⟩, ?_⟩ <;>
    simp [RootsNamed, grove, empty, Heap.empty]

end Drawings

end Agar.Vg
