import Mathlib

namespace Agar.Lib

/-!
# Reference counts

Live nodes hold lists of references to live nodes, and every live node counts
the references to it, as often as they are held.
-/

variable {ν : Type} [DecidableEq ν]

/-- How many references to a node the live nodes hold -/
def heldTo (live : Finset ν) (refs : ν → List ν) (node : ν) : Nat :=
  ∑ holder ∈ live, (refs holder).count node

/-- What live nodes refer to is live, and counts the references to it. -/
structure RefCounted (live : Finset ν) (refs : ν → List ν) (counts : ν → Nat) : Prop where
  closed : ∀ holder ∈ live, ∀ ref ∈ refs holder, ref ∈ live
  counted : ∀ node ∈ live, counts node = heldTo live refs node

section Held

variable {live : Finset ν} {refs : ν → List ν} {holder node : ν}

theorem heldTo_eq_add (member : holder ∈ live) (node : ν) : heldTo live refs node =
      (refs holder).count node + heldTo (live.erase holder) refs node :=
  (Finset.add_sum_erase live (fun other => (refs other).count node) member).symm

theorem heldTo_congr {others : ν → List ν} (same : ∀ holder ∈ live, others holder = refs holder)
    (node : ν) : heldTo live others node = heldTo live refs node :=
  Finset.sum_congr rfl fun holder member => by rw [same holder member]

theorem heldTo_update (member : holder ∈ live) (given : List ν) (node : ν) :
    heldTo live (Function.update refs holder given) node =
      given.count node + heldTo (live.erase holder) refs node := by
  rw [heldTo_eq_add member, Function.update_self]
  congr 1
  refine heldTo_congr (fun other isOther => ?_) node
  exact Function.update_of_ne (Finset.ne_of_mem_erase isOther) ..

end Held

namespace RefCounted

variable {live : Finset ν} {refs : ν → List ν} {counts : ν → Nat}
variable {holder node ref : ν}

theorem count_le (counted : RefCounted live refs counts) (member : holder ∈ live)
    (isLive : node ∈ live) : (refs holder).count node ≤ counts node := by
  rw [counted.counted node isLive, heldTo_eq_add member]
  exact Nat.le_add_right _ _

theorem not_mem_of_zero (counted : RefCounted live refs counts) (member : holder ∈ live)
    (zero : counts node = 0) : node ∉ refs holder := by
  intro held
  have atMost := counted.count_le member (counted.closed holder member node held)
  rw [zero] at atMost
  exact absurd (List.count_pos_iff.mpr held) (Nat.not_lt.mpr atMost)

theorem only_holder_iff (counted : RefCounted live refs counts) (member : holder ∈ live)
    (isLive : node ∈ live) :
    counts node = (refs holder).count node ↔
      ∀ other ∈ live, node ∈ refs other → other = holder := by
  rw [counted.counted node isLive, heldTo_eq_add member, Nat.add_eq_left,
    heldTo, Finset.sum_eq_zero_iff]
  refine forall_congr' fun other => ?_
  rw [Finset.mem_erase, List.count_eq_zero]
  tauto

theorem insert {given : List ν} (counted : RefCounted live refs counts) (isNew : node ∉ live)
    (zero : counts node = 0) (refer : ∀ ref ∈ given, ref ∈ live) :
    RefCounted (insert node live) (Function.update refs node given)
      fun ref => counts ref + given.count ref := by
  have older {other : ν} (member : other ∈ live) : other ≠ node := by
    rintro rfl
    exact isNew member
  have held (ref : ν) : heldTo (Insert.insert node live) (Function.update refs node given) ref =
        given.count ref + heldTo live refs ref := by
    rw [heldTo_update (Finset.mem_insert_self node live), Finset.erase_insert isNew]
  refine ⟨fun holder member ref held => ?_, fun ref member => ?_⟩
  · refine Finset.mem_insert_of_mem ?_
    rcases Finset.mem_insert.mp member with rfl | member
    · rw [Function.update_self] at held
      exact refer ref held
    · rw [Function.update_of_ne (older member)] at held
      exact counted.closed holder member ref held
  · rw [held]
    rcases Finset.mem_insert.mp member with rfl | member
    · have unheld : heldTo live refs ref = 0 := by
        refine Finset.sum_eq_zero fun holder member => ?_
        exact List.count_eq_zero.mpr fun held => isNew (counted.closed holder member ref held)
      rw [zero, unheld, Nat.add_comm]
    · rw [counted.counted ref member, Nat.add_comm]

theorem add (counted : RefCounted live refs counts) (member : holder ∈ live) (isLive : ref ∈ live) :
    RefCounted live (Function.update refs holder (refs holder ++ [ref]))
      (Function.update counts ref (counts ref + 1)) := by
  refine ⟨fun other otherMember named held => ?_, fun node nodeMember => ?_⟩
  · by_cases same : other = holder
    · rw [same, Function.update_self, List.mem_append, List.mem_singleton] at held
      rcases held with held | rfl
      · exact counted.closed holder member named held
      · exact isLive
    · rw [Function.update_of_ne same] at held
      exact counted.closed other otherMember named held
  · have before := counted.counted node nodeMember
    rw [heldTo_eq_add member] at before
    rw [heldTo_update member, List.count_append, List.count_singleton]
    by_cases same : node = ref
    · rw [same] at before ⊢
      rw [Function.update_self, before, beq_self_eq_true, if_pos rfl]
      omega
    · rw [Function.update_of_ne same, before, if_neg (by simpa using Ne.symm same)]
      omega

theorem drop (counted : RefCounted live refs counts) (member : holder ∈ live)
    (held : ref ∈ refs holder) :
    RefCounted live (Function.update refs holder ((refs holder).erase ref))
      (Function.update counts ref (counts ref - 1)) := by
  refine ⟨fun other otherMember named stillHeld => ?_, fun node nodeMember => ?_⟩
  · by_cases same : other = holder
    · rw [same, Function.update_self] at stillHeld
      exact counted.closed holder member named (List.mem_of_mem_erase stillHeld)
    · rw [Function.update_of_ne same] at stillHeld
      exact counted.closed other otherMember named stillHeld
  · have before := counted.counted node nodeMember
    rw [heldTo_eq_add member] at before
    rw [heldTo_update member]
    by_cases same : node = ref
    · rw [same] at before ⊢
      have some := List.count_pos_iff.mpr held
      rw [Function.update_self, List.count_erase_self, before]
      omega
    · rw [Function.update_of_ne same, List.count_erase_of_ne same, before]

theorem remove (counted : RefCounted live refs counts) (zero : counts node = 0)
    (holdsNone : refs node = []) : RefCounted (live.erase node) refs counts := by
  refine ⟨fun holder member ref held => ?_, fun other member => ?_⟩
  · have isLive := Finset.mem_of_mem_erase member
    refine Finset.mem_erase.mpr ⟨?_, counted.closed holder isLive ref held⟩
    rintro rfl
    exact counted.not_mem_of_zero isLive zero held
  · rw [counted.counted other (Finset.mem_of_mem_erase member)]
    by_cases isLive : node ∈ live
    · rw [heldTo_eq_add isLive, holdsNone, List.count_nil, Nat.zero_add]
    · rw [Finset.erase_eq_of_notMem isLive]

end RefCounted

end Agar.Lib
