import Mathlib

namespace Agar.Lib

/-!
# Insertion into an ordered queue

A queue ordered by a key, in which a new entry goes behind the entries whose
key equals its own.  Insertion adds exactly its entry, keeps the order, and
depends on the keys of the entries involved only.
-/

variable {α κ : Type} [LinearOrder κ]

/-- Insert an entry before the first one whose key is larger. -/
def insertAfterEqual (key : α → κ) (entry : α) : List α → List α
  | [] => [entry]
  | other :: rest =>
    if key entry < key other then entry :: other :: rest
    else other :: insertAfterEqual key entry rest

theorem insertAfterEqual_perm (key : α → κ) (entry : α) (queue : List α) :
    (insertAfterEqual key entry queue).Perm (entry :: queue) := by
  induction queue with
  | nil => exact List.Perm.refl _
  | cons other rest ih =>
    rw [insertAfterEqual]
    split
    · exact List.Perm.refl _
    · exact (ih.cons other).trans (List.Perm.swap entry other rest)

variable {key : α → κ} {entry : α} {queue : List α}

@[simp] theorem mem_insertAfterEqual {other : α} :
    other ∈ insertAfterEqual key entry queue ↔ other = entry ∨ other ∈ queue := by
  rw [(insertAfterEqual_perm key entry queue).mem_iff, List.mem_cons]

theorem insertAfterEqual_ne_nil (key : α → κ) (entry : α) (queue : List α) :
    insertAfterEqual key entry queue ≠ [] :=
  List.ne_nil_of_mem (mem_insertAfterEqual.mpr (.inl rfl))

theorem insertAfterEqual_ordered
    (ordered : queue.Pairwise fun first second => key first ≤ key second) :
    (insertAfterEqual key entry queue).Pairwise fun first second => key first ≤ key second := by
  induction queue with
  | nil => simp [insertAfterEqual]
  | cons other rest ih =>
    obtain ⟨otherFirst, restOrdered⟩ := List.pairwise_cons.mp ordered
    rw [insertAfterEqual]
    split
    case isTrue smaller =>
      refine List.pairwise_cons.mpr ⟨fun later member => ?_, ordered⟩
      rcases List.mem_cons.mp member with same | inRest
      · rw [same]
        exact le_of_lt smaller
      · exact le_trans (le_of_lt smaller) (otherFirst later inRest)
    case isFalse notSmaller =>
      refine List.pairwise_cons.mpr ⟨fun later member => ?_, ih restOrdered⟩
      rcases mem_insertAfterEqual.mp member with same | inRest
      · rw [same]
        exact not_lt.mp notSmaller
      · exact otherFirst later inRest

theorem insertAfterEqual_nodup (absent : entry ∉ queue) (once : queue.Nodup) :
    (insertAfterEqual key entry queue).Nodup :=
  (insertAfterEqual_perm key entry queue).nodup_iff.mpr (List.nodup_cons.mpr ⟨absent, once⟩)

theorem insertAfterEqual_filter {selected : α → Bool} (leftOut : selected entry = false)
    (queue : List α) :
    (insertAfterEqual key entry queue).filter selected = queue.filter selected := by
  induction queue with
  | nil => simp [insertAfterEqual, leftOut]
  | cons other rest ih =>
    rw [insertAfterEqual]
    split
    · simp [leftOut]
    · rw [List.filter_cons, ih, ← List.filter_cons]

end Agar.Lib
