import Mathlib

namespace Agar.Lib

/-!
# Heaps and what is owned in them

A heap maps addresses to cells; the addresses from `next` on were never
allocated, nor was the null address.  A list of addresses is owned when it
lists allocated cells of some kind, none of them twice: each can be freed, and
the others stay owned.
-/

/-- A heap of cells. -/
structure Heap (β : Type) where
  cells : Nat → Option β
  next : Nat
  unused : ∀ address, next ≤ address → cells address = none
  null : cells 0 = none
  positive : 0 < next

namespace Heap

variable {β : Type}

/-- No cell is allocated. -/
def empty : Heap β where
  cells _ := none
  next := 1
  unused _ _ := rfl
  null := rfl
  positive := Nat.zero_lt_one

/-- Allocate a cell, at the next address. -/
def alloc (heap : Heap β) (cell : β) : Heap β where
  cells := Function.update heap.cells heap.next (some cell)
  next := heap.next + 1
  unused := by
    intro address beyond
    rw [Function.update_of_ne (Nat.ne_of_gt beyond)]
    exact heap.unused address (Nat.le_of_succ_le beyond)
  null := by
    rw [Function.update_of_ne (Nat.ne_of_lt heap.positive)]
    exact heap.null
  positive := Nat.succ_pos _

/-- Free the cell at an address. -/
def free (heap : Heap β) (address : Nat) : Heap β where
  cells := Function.update heap.cells address none
  next := heap.next
  unused := by
    intro other beyond
    by_cases same : other = address
    · rw [same, Function.update_self]
    · rw [Function.update_of_ne same]
      exact heap.unused other beyond
  null := by
    by_cases same : 0 = address
    · rw [same, Function.update_self]
    · rw [Function.update_of_ne same]
      exact heap.null
  positive := heap.positive

/-- Change the cell at an address, where there is one. -/
def modify (heap : Heap β) (address : Nat) (change : β → β) : Heap β where
  cells := Function.update heap.cells address ((heap.cells address).map change)
  next := heap.next
  unused := by
    intro other beyond
    by_cases same : other = address
    · rw [same, Function.update_self, ← same, heap.unused other beyond]
      rfl
    · rw [Function.update_of_ne same]
      exact heap.unused other beyond
  null := by
    by_cases same : 0 = address
    · rw [same, Function.update_self, ← same, heap.null]
      rfl
    · rw [Function.update_of_ne same]
      exact heap.null
  positive := heap.positive

theorem cells_alloc (heap : Heap β) (cell : β) : (heap.alloc cell).cells =
      Function.update heap.cells heap.next (some cell) :=
  rfl

theorem cells_free (heap : Heap β) (address : Nat) : (heap.free address).cells =
      Function.update heap.cells address none :=
  rfl

theorem cells_modify (heap : Heap β) (address : Nat) (change : β → β) :
    (heap.modify address change).cells = Function.update heap.cells address
        ((heap.cells address).map change) :=
  rfl

/-- Some addresses of cells of a kind, none of them twice. -/
structure Owned (heap : Heap β) (kind : β → Prop) (addresses : List Nat) : Prop where
  allocated : ∀ address ∈ addresses, ∃ cell, heap.cells address = some cell ∧ kind cell
  once : addresses.Nodup

variable {heap : Heap β} {kind : β → Prop} {address : Nat} {addresses others : List Nat}

theorem owned_nil : heap.Owned kind [] where
  allocated _ member := absurd member List.not_mem_nil
  once := List.nodup_nil

theorem Owned.perm (owned : heap.Owned kind addresses) (same : addresses.Perm others) :
    heap.Owned kind others where
  allocated := by
    intro address member
    exact owned.allocated address (same.mem_iff.mpr member)
  once := same.nodup_iff.mp owned.once

theorem Owned.sublist (owned : heap.Owned kind addresses) (fewer : others.Sublist addresses) :
    heap.Owned kind others where
  allocated := by
    intro address member
    exact owned.allocated address (fewer.subset member)
  once := owned.once.sublist fewer

theorem Owned.next_not_mem (owned : heap.Owned kind addresses) : heap.next ∉ addresses := by
  intro member
  obtain ⟨cell, found, _⟩ := owned.allocated heap.next member
  rw [heap.unused heap.next le_rfl] at found
  cases found

theorem Owned.alloc (owned : heap.Owned kind addresses) {cell : β} (isKind : kind cell) :
    (heap.alloc cell).Owned kind (heap.next :: addresses) where
  allocated := by
    intro address member
    by_cases new : address = heap.next
    · exact ⟨cell, by rw [cells_alloc, new, Function.update_self], isKind⟩
    · obtain ⟨old, found, oldKind⟩ :=
        owned.allocated address ((List.mem_cons.mp member).resolve_left new)
      exact ⟨old, by rwa [cells_alloc, Function.update_of_ne new], oldKind⟩
  once := List.nodup_cons.mpr ⟨owned.next_not_mem, owned.once⟩

theorem Owned.free (owned : heap.Owned kind (address :: addresses)) :
    (heap.free address).Owned kind addresses := by
  obtain ⟨fresh, once⟩ := List.nodup_cons.mp owned.once
  refine ⟨?_, once⟩
  intro other member
  obtain ⟨cell, found, isKind⟩ := owned.allocated other (List.mem_cons_of_mem _ member)
  have different : other ≠ address := by
    rintro rfl
    exact fresh member
  exact ⟨cell, by rwa [cells_free, Function.update_of_ne different], isKind⟩

theorem Owned.modify (owned : heap.Owned kind addresses) {change : β → β}
    (kept : ∀ cell, kind cell → kind (change cell)) :
    (heap.modify address change).Owned kind addresses where
  allocated := by
    intro other member
    obtain ⟨cell, found, isKind⟩ := owned.allocated other member
    by_cases same : other = address
    · subst same
      exact ⟨change cell, by rw [cells_modify, Function.update_self, found, Option.map_some],
        kept cell isKind⟩
    · exact ⟨cell, by rwa [cells_modify, Function.update_of_ne same], isKind⟩
  once := owned.once

end Heap

end Agar.Lib
