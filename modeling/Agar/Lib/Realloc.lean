import Agar.Lib.ByteArray
import Agar.Lib.OwnedHeap

namespace Agar.Lib

/-!
# Blocks that are reallocated

A heap of blocks, each a list of cells, and the operations of an allocator on
it.  The allocator is free to refuse a request, to resize a block where it is,
or to move it, and it may free a block that is resized to nothing; what a new
cell holds is up to an environment.  Where a pointer leads to no block, or a
cell is outside its block, an operation is not defined.
-/

/--
What an allocator does with a request to resize a block; it is `freed` only
where no memory is asked for, and the request is refused otherwise.
-/
inductive Resizing where
  | refused
  | inPlace
  | moved
  | freed
  deriving Repr, DecidableEq

/-- The request is granted. -/
def Resizing.Granted (resizing : Resizing) : Prop := resizing = .inPlace ∨ resizing = .moved

namespace Heap

variable {β : Type}

/-- The heap after `realloc`, and the pointer that it returns -/
def realloc (fresh : Nat → β) (heap : Heap (List β)) (address size : Nat)
    (resizing : Resizing) : Option (Heap (List β) × Nat) :=
  if address = 0 then
    match resizing with
    | .refused | .freed => some (heap, 0)
    | .inPlace | .moved => some (heap.alloc (resize fresh size []), heap.next)
  else
    match heap.cells address with
    | none => none
    | some block =>
      match resizing with
      | .refused => some (heap, 0)
      | .inPlace => some (heap.modify address (resize fresh size), address)
      | .moved => some ((heap.alloc (resize fresh size block)).free address, heap.next)
      | .freed => if size = 0 then some (heap.free address, 0) else some (heap, 0)

/-- The heap after `free` -/
def release (heap : Heap (List β)) (address : Nat) : Option (Heap (List β)) :=
  if address = 0 then some heap
  else
    match heap.cells address with
    | none => none
    | some _ => some (heap.free address)

/-- Store a value in a cell of a block. -/
def storeCell (heap : Heap (List β)) (address index : Nat) (value : β) : Option (Heap (List β)) :=
  match heap.cells address with
  | none => none
  | some block =>
    if index < block.length then some (heap.modify address fun block => block.set index value)
    else none

variable {fresh : Nat → β} {heap : Heap (List β)} {address size index : Nat} {block : List β}
  {value : β}

theorem ne_null (live : heap.cells address = some block) : address ≠ 0 := by
  rintro rfl
  rw [heap.null] at live
  cases live

theorem ne_next (live : heap.cells address = some block) : address ≠ heap.next := by
  rintro rfl
  rw [heap.unused heap.next (Nat.le_refl _)] at live
  cases live

theorem realloc_inPlace (live : heap.cells address = some block) :
    heap.realloc fresh address size .inPlace =
      some (heap.modify address (resize fresh size), address) := by
  rw [realloc, if_neg (ne_null live), live]

theorem realloc_moved (live : heap.cells address = some block) :
    heap.realloc fresh address size .moved =
      some ((heap.alloc (resize fresh size block)).free address, heap.next) := by
  rw [realloc, if_neg (ne_null live), live]

theorem storeCell_inside (live : heap.cells address = some block) (inside : index < block.length) :
    heap.storeCell address index value =
      some (heap.modify address fun block => block.set index value) := by
  rw [storeCell, live]
  exact if_pos inside

theorem storeCell_freed (freed : heap.cells address = none) :
    heap.storeCell address index value = none := by
  rw [storeCell, freed]

theorem cells_modify_self (live : heap.cells address = some block) (change : List β → List β) :
    (heap.modify address change).cells address = some (change block) := by
  rw [cells_modify, Function.update_self, live]
  rfl

theorem realloc_refused {resizing : Resizing}
    (pointer : address = 0 ∨ ∃ block, heap.cells address = some block)
    (refused : ¬ resizing.Granted) (kept : resizing = .freed → address = 0 ∨ size ≠ 0) :
    heap.realloc fresh address size resizing = some (heap, 0) := by
  unfold realloc
  rcases pointer with null | ⟨block, live⟩
  · rw [if_pos null]
    cases resizing with
    | refused | freed => rfl
    | inPlace => exact absurd (.inl rfl) refused
    | moved => exact absurd (.inr rfl) refused
  · rw [if_neg (ne_null live), live]
    cases resizing with
    | refused => rfl
    | inPlace => exact absurd (.inl rfl) refused
    | moved => exact absurd (.inr rfl) refused
    | freed => exact if_neg ((kept rfl).resolve_left (ne_null live))

theorem realloc_granted {resizing : Resizing}
    (pointer : address = 0 ∨ ∃ block, heap.cells address = some block)
    (granted : resizing.Granted) :
    ∃ next new grown, heap.realloc fresh address size resizing = some (next, new) ∧
        next.cells new = some grown := by
  unfold realloc
  rcases pointer with null | ⟨block, live⟩
  · rw [if_pos null]
    rcases granted with rfl | rfl <;>
    · refine ⟨_, _, resize fresh size [], rfl, ?_⟩
      rw [cells_alloc, Function.update_self]
  · rw [if_neg (ne_null live), live]
    rcases granted with rfl | rfl
    · exact ⟨_, _, _, rfl, cells_modify_self live _⟩
    · refine ⟨_, _, resize fresh size block, rfl, ?_⟩
      rw [cells_free, Function.update_of_ne (ne_next live).symm, cells_alloc, Function.update_self]

theorem malloc_granted {resizing : Resizing} (granted : resizing.Granted) : ∃ next new,
      heap.realloc fresh 0 size resizing = some (next, new) ∧
        next.cells new = some (resize fresh size []) ∧
        ∀ other block, heap.cells other = some block →
            other ≠ new ∧ next.cells other = some block := by
  refine ⟨heap.alloc (resize fresh size []), heap.next, ?_, ?_, ?_⟩
  · rcases granted with rfl | rfl <;> rw [realloc, if_pos rfl]
  · rw [cells_alloc, Function.update_self]
  · intro other block live
    refine ⟨ne_next live, ?_⟩
    rw [cells_alloc, Function.update_of_ne (ne_next live), live]

theorem realloc_granted_live {resizing : Resizing} (live : heap.cells address = some block)
    (granted : resizing.Granted) :
    ∃ next new, heap.realloc fresh address size resizing = some (next, new) ∧
        next.cells new = some (resize fresh size block) ∧
        ∀ other otherBlock, heap.cells other = some otherBlock → other ≠ address →
              other ≠ new ∧ next.cells other = some otherBlock := by
  rcases granted with rfl | rfl
  · refine ⟨_, _, realloc_inPlace live, cells_modify_self live _, ?_⟩
    intro other otherBlock otherLive different
    refine ⟨different, ?_⟩
    rw [cells_modify, Function.update_of_ne different, otherLive]
  · refine ⟨_, _, realloc_moved live, ?_, ?_⟩
    · rw [cells_free, Function.update_of_ne (ne_next live).symm, cells_alloc, Function.update_self]
    · intro other otherBlock otherLive different
      refine ⟨ne_next otherLive, ?_⟩
      rw [cells_free, Function.update_of_ne different, cells_alloc,
        Function.update_of_ne (ne_next otherLive), otherLive]

theorem cells_free_of_realloc {resizing : Resizing} {next : Heap (List β)} {new : Nat}
    (live : heap.cells address = some block) (granted : resizing.Granted)
    (resized : heap.realloc fresh address size resizing = some (next, new)) :
    (next.free new).cells address = none := by
  rcases granted with rfl | rfl
  · rw [realloc_inPlace live, Option.some.injEq, Prod.mk.injEq] at resized
    rw [← resized.2, cells_free, Function.update_self]
  · rw [realloc_moved live, Option.some.injEq, Prod.mk.injEq] at resized
    rw [← resized.1, ← resized.2, cells_free,
      Function.update_of_ne (ne_next live), cells_free, Function.update_self]

theorem cells_free_of_malloc {resizing : Resizing} {next : Heap (List β)} {new : Nat}
    (granted : resizing.Granted) (resized : heap.realloc fresh 0 size resizing = some (next, new)) :
    (next.free new).cells = heap.cells := by
  have unused := heap.unused heap.next (Nat.le_refl _)
  rcases granted with rfl | rfl <;>
  · rw [realloc, if_pos rfl, Option.some.injEq, Prod.mk.injEq] at resized
    rw [← resized.1, ← resized.2, cells_free, cells_alloc,
      Function.update_idem, ← unused, Function.update_eq_self]

theorem cells_free_modify (change : List β → List β) :
    ((heap.modify address change).free address).cells = (heap.free address).cells := by
  rw [cells_free, cells_modify, Function.update_idem, cells_free]

theorem release_live (live : heap.cells address = some block) :
    heap.release address = some (heap.free address) := by
  rw [release, if_neg (ne_null live), live]

end Heap

end Agar.Lib
