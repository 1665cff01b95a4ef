import Agar.Lib.Forest

namespace Agar.Lib

/-!
# Groves

A grove is a forest whose trees have owners.  An owner names the root of its
tree, and lists the other nodes of it; every node of a tree names the owner.
A node without an owner is alone.
-/

variable {ν ω : Type}

/-! ## Paths -/

namespace Listed

variable {parent : ν → Option ν} {children : ν → List ν} {top node : ν}

end Listed

/-! ## Owners -/

/-- The links of a forest, and what is stored about the owners of its trees -/
@[ext] structure Grove (ν ω : Type) where
  parent : ν → Option ν
  children : ν → List ν
  owner : ν → Option ω
  root : ω → Option ν
  members : ω → List ν

namespace Grove

/--
The links agree: the nodes that an owner lists are those that name it, its
root apart, and all of them are below the root; nodes that name no owner have
neither parent nor children.
-/
structure Linked (grove : Grove ν ω) : Prop where
  lists : Listed grove.parent grove.children
  listed : ∀ w node, node ∈ grove.members w ↔ grove.owner node = some w ∧ grove.root w ≠ some node
  once : ∀ w, (grove.members w).Nodup
  ownsRoot : ∀ w r, grove.root w = some r → grove.owner r = some w ∧ grove.parent r = none
  rooted : ∀ node w, grove.owner node = some w →
      ∃ r, grove.root w = some r ∧ Top grove.parent node r
  alone : ∀ node, grove.owner node = none → grove.parent node = none ∧ grove.children node = []

section Facts

variable {grove : Grove ν ω} {node p r : ν} {w : ω}

theorem Linked.top (linked : grove.Linked) (isRoot : grove.root w = some r)
    (owned : grove.owner node = some w) : Top grove.parent node r := by
  obtain ⟨other, otherRoot, isTop⟩ := linked.rooted node w owned
  rwa [Option.some.inj (isRoot.symm.trans otherRoot)]

theorem Linked.owner_of_top (linked : grove.Linked) (isRoot : grove.root w = some r)
    (isTop : Top grove.parent node r) : grove.owner node = some w := by
  rcases owned : grove.owner node with _ | other
  · -- a node without an owner is its own top
    have same := isTop.within.eq_of_noParent (linked.alone node owned).1
    rw [← same] at isRoot
    rw [← owned]
    exact (linked.ownsRoot w node isRoot).1
  · obtain ⟨otherRoot, otherIsRoot, otherTop⟩ := linked.rooted node other owned
    obtain rfl := isTop.unique otherTop
    rw [← (linked.ownsRoot w r isRoot).1, ← (linked.ownsRoot other r otherIsRoot).1]

theorem Linked.owner_parent (linked : grove.Linked) (up : grove.parent node = some p) :
    ∃ w, grove.owner node = some w ∧ grove.owner p = some w := by
  rcases owned : grove.owner node with _ | w
  · rw [(linked.alone node owned).1] at up
    cases up
  · obtain ⟨r, isRoot, isTop⟩ := linked.rooted node w owned
    exact ⟨w, rfl, linked.owner_of_top isRoot ((top_iff_parent up).mp isTop)⟩

theorem Linked.ne_root_of_parent (linked : grove.Linked) (up : grove.parent node = some p) :
    grove.root w ≠ some node := by
  intro isRoot
  rw [(linked.ownsRoot w node isRoot).2] at up
  cases up

theorem Linked.exists_parent (linked : grove.Linked) (owned : grove.owner node = some w)
    (notRoot : grove.root w ≠ some node) : ∃ p, grove.parent node = some p := by
  rcases up : grove.parent node with _ | p
  · obtain ⟨r, isRoot, isTop⟩ := linked.rooted node w owned
    rw [isTop.within.eq_of_noParent up] at notRoot
    exact absurd isRoot notRoot
  · exact ⟨p, rfl⟩

theorem Linked.not_within_child (linked : grove.Linked) {child : ν}
    (up : grove.parent child = some p) : ¬ Within grove.parent p child := by
  intro within
  obtain ⟨w, owned, -⟩ := linked.owner_parent up
  obtain ⟨r, -, isTop⟩ := linked.rooted child w owned
  exact not_top_of_cycle up within r isTop

theorem Linked.eq_of_within_alone (linked : grove.Linked) (unowned : grove.owner p = none)
    (within : Within grove.parent node p) : node = p := by
  by_contra different
  obtain ⟨child, up⟩ := within.through_child different
  have member := (linked.lists.listed child p).mp up
  rw [(linked.alone p unowned).2] at member
  cases member

end Facts

/-! ## Changes -/

section Changes

variable [DecidableEq ν] [DecidableEq ω]

/-- A new owner with a root -/
def plant (grove : Grove ν ω) (w : ω) (r : ν) : Grove ν ω :=
  { grove with
    owner := Function.update grove.owner r (some w)
    root := Function.update grove.root w (some r) }

/-- A node is linked last below another one, and listed. -/
def attach (grove : Grove ν ω) (p node : ν) (w : ω) : Grove ν ω :=
  { grove with
    parent := Function.update grove.parent node (some p)
    children := Function.update grove.children p (grove.children p ++ [node])
    owner := Function.update grove.owner node (some w)
    members := Function.update grove.members w (grove.members w ++ [node]) }

/-- A node is unlinked from the one above, and no longer listed. -/
def detach (grove : Grove ν ω) (p node : ν) (w : ω) : Grove ν ω :=
  { grove with
    parent := Function.update grove.parent node none
    children := Function.update grove.children p ((grove.children p).erase node)
    owner := Function.update grove.owner node none
    members := Function.update grove.members w ((grove.members w).erase node) }

variable {grove : Grove ν ω} {node p r : ν} {w : ω}

theorem Linked.plant (linked : grove.Linked) (unowned : grove.owner r = none)
    (unrooted : grove.root w = none) : (grove.plant w r).Linked := by
  have nobody (other : ν) : grove.owner other ≠ some w := by
    intro owned
    obtain ⟨root, isRoot, -⟩ := linked.rooted other w owned
    rw [unrooted] at isRoot
    cases isRoot
  have noMember (other : ν) : other ∉ grove.members w :=
    fun member => nobody other ((linked.listed w other).mp member).1
  refine ⟨linked.lists, fun v other => ?_, linked.once, fun v root isRoot => ?_,
    fun other v owned => ?_, fun other unowned => ?_⟩
  · simp only [Grove.plant]
    by_cases new : v = w
    · subst new
      rw [Function.update_self]
      by_cases same : other = r
      · simp [same, noMember]
      · rw [Function.update_of_ne same]
        simp [noMember, nobody]
    · rw [Function.update_of_ne new, linked.listed]
      by_cases same : other = r
      · rw [same, Function.update_self, unowned]
        simp [Ne.symm new]
      · rw [Function.update_of_ne same]
  · simp only [Grove.plant] at isRoot ⊢
    by_cases new : v = w
    · rw [new, Function.update_self] at isRoot
      obtain rfl := Option.some.inj isRoot
      rw [new, Function.update_self]
      exact ⟨rfl, (linked.alone r unowned).1⟩
    · rw [Function.update_of_ne new] at isRoot
      obtain ⟨owned, noParent⟩ := linked.ownsRoot v root isRoot
      have different : root ≠ r := by
        rintro rfl
        rw [unowned] at owned
        cases owned
      rw [Function.update_of_ne different]
      exact ⟨owned, noParent⟩
  · simp only [Grove.plant] at owned ⊢
    by_cases same : other = r
    · rw [same, Function.update_self] at owned
      obtain rfl := Option.some.inj owned
      rw [Function.update_self, same]
      exact ⟨r, rfl, Top.self (linked.alone r unowned).1⟩
    · rw [Function.update_of_ne same] at owned
      have old : v ≠ w := by
        rintro rfl
        exact nobody other owned
      rw [Function.update_of_ne old]
      exact linked.rooted other v owned
  · simp only [Grove.plant] at unowned ⊢
    by_cases same : other = r
    · rw [same, Function.update_self] at unowned
      cases unowned
    · rw [Function.update_of_ne same] at unowned
      exact linked.alone other unowned

theorem Linked.attach (linked : grove.Linked) (unowned : grove.owner node = none)
    (owned : grove.owner p = some w) : (grove.attach p node w).Linked := by
  obtain ⟨noParent, childless⟩ := linked.alone node unowned
  have different : p ≠ node := by
    rintro rfl
    rw [unowned] at owned
    cases owned
  have outside : ¬ Within grove.parent p node :=
    fun within => different (linked.eq_of_within_alone unowned within)
  have notRoot (v : ω) : grove.root v ≠ some node := by
    intro isRoot
    rw [(linked.ownsRoot v node isRoot).1] at unowned
    cases unowned
  refine ⟨linked.lists.attach noParent p, fun v other => ?_, fun v => ?_,
    fun v root isRoot => ?_, fun other v otherOwned => ?_,
    fun other otherUnowned => ?_⟩
  · simp only [Grove.attach]
    by_cases same : other = node
    · rw [same, Function.update_self]
      by_cases here : v = w
      · rw [here, Function.update_self]
        simp [notRoot w]
      · rw [Function.update_of_ne here, linked.listed, unowned]
        simp [Ne.symm here]
    · rw [Function.update_of_ne same]
      by_cases here : v = w
      · rw [here, Function.update_self, List.mem_append, linked.listed]
        simp [same]
      · rw [Function.update_of_ne here, linked.listed]
  · simp only [Grove.attach]
    by_cases here : v = w
    · rw [here, Function.update_self]
      refine List.nodup_append.mpr ⟨linked.once w, List.nodup_singleton _, ?_⟩
      intro member isMember other isNode
      rw [List.mem_singleton.mp isNode]
      rintro rfl
      rw [((linked.listed w member).mp isMember).1] at unowned
      cases unowned
    · rw [Function.update_of_ne here]
      exact linked.once v
  · obtain ⟨rootOwned, rootTop⟩ := linked.ownsRoot v root isRoot
    have other : root ≠ node := by
      rintro rfl
      exact notRoot v isRoot
    simp only [Grove.attach]
    rw [Function.update_of_ne other, Function.update_of_ne other]
    exact ⟨rootOwned, rootTop⟩
  · simp only [Grove.attach] at otherOwned ⊢
    obtain ⟨root, isRoot, parentTop⟩ := linked.rooted p w owned
    by_cases same : other = node
    · rw [same, Function.update_self] at otherOwned
      obtain rfl := Option.some.inj otherOwned
      refine ⟨root, isRoot, ?_⟩
      rw [same]
      exact parentTop.update_below outside (.inl (Within.refl _))
    · rw [Function.update_of_ne same] at otherOwned
      obtain ⟨otherRoot, otherIsRoot, isTop⟩ := linked.rooted other v otherOwned
      exact ⟨otherRoot, otherIsRoot, isTop.update_outside
        fun within => same (linked.eq_of_within_alone unowned within)⟩
  · simp only [Grove.attach] at otherUnowned ⊢
    have other_ne : other ≠ node := by
      rintro rfl
      rw [Function.update_self] at otherUnowned
      cases otherUnowned
    rw [Function.update_of_ne other_ne] at otherUnowned ⊢
    have notParent : other ≠ p := by
      rintro rfl
      rw [owned] at otherUnowned
      cases otherUnowned
    rw [Function.update_of_ne notParent]
    exact linked.alone other otherUnowned

theorem Linked.detach (linked : grove.Linked) (owned : grove.owner node = some w)
    (up : grove.parent node = some p) (childless : grove.children node = []) :
    (grove.detach p node w).Linked := by
  have outside {other : ν} (different : other ≠ node) : ¬ Within grove.parent other node := by
    intro within
    obtain ⟨child, childUp⟩ := within.through_child different
    have member := (linked.lists.listed child node).mp childUp
    rw [childless] at member
    cases member
  refine ⟨linked.lists.detach up, fun v other => ?_, fun v => ?_,
    fun v root isRoot => ?_, fun other v otherOwned => ?_,
    fun other otherUnowned => ?_⟩
  · simp only [Grove.detach]
    by_cases same : other = node
    · rw [same, Function.update_self]
      by_cases here : v = w
      · rw [here, Function.update_self, (linked.once w).mem_erase_iff]
        simp
      · rw [Function.update_of_ne here, linked.listed, owned]
        simp [Ne.symm here]
    · rw [Function.update_of_ne same]
      by_cases here : v = w
      · rw [here, Function.update_self, List.mem_erase_of_ne same, linked.listed]
      · rw [Function.update_of_ne here, linked.listed]
  · simp only [Grove.detach]
    by_cases here : v = w
    · rw [here, Function.update_self]
      exact (linked.once w).erase node
    · rw [Function.update_of_ne here]
      exact linked.once v
  · obtain ⟨rootOwned, rootTop⟩ := linked.ownsRoot v root isRoot
    have other : root ≠ node := by
      rintro rfl
      exact linked.ne_root_of_parent up isRoot
    simp only [Grove.detach]
    rw [Function.update_of_ne other, Function.update_of_ne other]
    exact ⟨rootOwned, rootTop⟩
  · simp only [Grove.detach] at otherOwned ⊢
    have different : other ≠ node := by
      rintro rfl
      rw [Function.update_self] at otherOwned
      cases otherOwned
    rw [Function.update_of_ne different] at otherOwned
    obtain ⟨root, isRoot, isTop⟩ := linked.rooted other v otherOwned
    exact ⟨root, isRoot, isTop.update_outside (outside different)⟩
  · simp only [Grove.detach] at otherUnowned ⊢
    by_cases same : other = node
    · rw [same, Function.update_self]
      refine ⟨rfl, ?_⟩
      by_cases own : node = p
      · rw [own] at childless
        rw [own, Function.update_self, childless]
        rfl
      · rw [Function.update_of_ne own]
        exact childless
    · rw [Function.update_of_ne same] at otherUnowned ⊢
      obtain ⟨noParent, otherChildless⟩ := linked.alone other otherUnowned
      refine ⟨noParent, ?_⟩
      by_cases own : other = p
      · rw [own] at otherChildless
        rw [own, Function.update_self, otherChildless]
        rfl
      · rw [Function.update_of_ne own]
        exact otherChildless

/-! ## Moving a tree -/

/--
A grove while the tree of an owner who gives it up is moved: the root has been
linked already, and the owner still names it.
-/
structure Moving (grove : Grove ν ω) (given : ω) : Prop where
  lists : Listed grove.parent grove.children
  listed : ∀ w node, node ∈ grove.members w ↔ grove.owner node = some w ∧ grove.root w ≠ some node
  once : ∀ w, (grove.members w).Nodup
  ownsRoot : ∀ w r, w ≠ given → grove.root w = some r → grove.owner r = some w

/-- A node is taken from the list of its owner and listed last by another. -/
def hand (grove : Grove ν ω) (node : ν) (w dst : ω) : Grove ν ω :=
  let rest := Function.update grove.members w ((grove.members w).erase node)
  { grove with
    owner := Function.update grove.owner node (some dst)
    members := Function.update rest dst (rest dst ++ [node]) }

theorem Moving.mem_rest {given : ω} (moving : grove.Moving given) (listed : node ∈ grove.members w)
    (v : ω) (other : ν) :
    other ∈ Function.update grove.members w ((grove.members w).erase node) v ↔
      other ≠ node ∧ other ∈ grove.members v := by
  by_cases here : v = w
  · rw [here, Function.update_self, (moving.once w).mem_erase_iff]
  · rw [Function.update_of_ne here]
    refine ⟨fun member => ⟨?_, member⟩, fun member => member.2⟩
    rintro rfl
    have owned := ((moving.listed w other).mp listed).1
    rw [((moving.listed v other).mp member).1] at owned
    exact here (Option.some.inj owned)

omit [DecidableEq ν] [DecidableEq ω] in
theorem Moving.ne_root {given v : ω} (moving : grove.Moving given) (listed : node ∈ grove.members w)
    (keeps : v ≠ given) : grove.root v ≠ some node := by
  intro isRoot
  obtain ⟨owned, notRoot⟩ := (moving.listed w node).mp listed
  rw [moving.ownsRoot v node keeps isRoot] at owned
  rw [Option.some.inj owned] at isRoot
  exact notRoot isRoot

theorem Moving.hand {given dst : ω} (moving : grove.Moving given) (listed : node ∈ grove.members w)
    (keeps : dst ≠ given) : (grove.hand node w dst).Moving given := by
  have restMember := moving.mem_rest listed
  have restOnce (v : ω) : (Function.update grove.members w
        ((grove.members w).erase node) v).Nodup := by
    by_cases here : v = w
    · rw [here, Function.update_self]
      exact (moving.once w).erase node
    · rw [Function.update_of_ne here]
      exact moving.once v
  refine ⟨moving.lists, fun v other => ?_, fun v => ?_, fun v r other isRoot => ?_⟩
  · simp only [Grove.hand]
    by_cases same : other = node
    · rw [same, Function.update_self]
      by_cases here : v = dst
      · rw [here, Function.update_self]
        simp [moving.ne_root listed keeps]
      · rw [Function.update_of_ne here, restMember]
        simp [Ne.symm here]
    · rw [Function.update_of_ne same, ← moving.listed]
      by_cases here : v = dst
      · rw [here, Function.update_self, List.mem_append, restMember]
        simp [same]
      · rw [Function.update_of_ne here, restMember]
        simp [same]
  · simp only [Grove.hand]
    by_cases here : v = dst
    · rw [here, Function.update_self]
      refine List.nodup_append.mpr ⟨restOnce dst, List.nodup_singleton _, ?_⟩
      intro member isMember last isLast
      rw [List.mem_singleton.mp isLast]
      exact ((restMember dst member).mp isMember).1
    · rw [Function.update_of_ne here]
      exact restOnce v
  · have different : r ≠ node := by
      rintro rfl
      exact moving.ne_root listed other isRoot
    simp only [Grove.hand, Function.update_of_ne different]
    exact moving.ownsRoot v r other isRoot

end Changes

end Grove

end Agar.Lib
