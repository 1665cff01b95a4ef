import Agar.Gui.Tlist
import Agar.Lib.UpdateFirst

namespace Agar.Gui

open Agar.Core Agar.Lib

/-!
# The selection of a list and its binding

`SelectItem` and `DeselectItem` set the flag of an item and the `selected`
binding together.  `AG_TlistDel` and `AG_TlistClear` remove a selected item
and leave its pointer in the binding, and `AG_TlistRestore` sets flags only, so
the two agree over a run exactly while none of these meets a selected item
with another pointer than the binding is to hold.
-/

namespace Tlist

/-- A binding follows the selection among some items. -/
def Agrees (selected : Option Nat) (items : List TlistItem)
    (isSelected : TlistItem → Prop) : Prop :=
  (selected = none ∧ ∀ it ∈ items, ¬ isSelected it) ∨ ∃ it ∈ items,
      isSelected it ∧ selected = it.data.p1 ∧ ∀ other ∈ items, isSelected other → other = it

/--
At most one item is selected, the binding is its user pointer, and the items
are counted.
-/
def Follows (tl : Tlist) : Prop :=
  Agrees tl.selected tl.items (·.selected ≠ 0) ∧ tl.nitems = tl.items.length

/-- A single selection, of items at different addresses, that is followed. -/
structure Sound (tl : Tlist) : Prop where
  single : tl.flags.multi = false
  distinct : (tl.items.map (·.self)).Nodup
  follows : tl.Follows

/-- The calls on a list -/
inductive Call where
  | add
      (self : TlistItemRef)
      (text : List UInt8)
      (p1 : Option Nat)
      (insHead : Bool)
  | setArgs
      (self : TlistItemRef)
      (cat : List UInt8)
      (depth : Nat)
      (flags : TlistItemFlags)
  | del (self : TlistItemRef)
  | clear
  | restore
  | select (self : TlistItemRef)
  | deselect (self : TlistItemRef)
  | deselectAll

/-- Make a call, where that is defined. -/
def step (tl : Tlist) : Call → Option Tlist
  | .add self text p1 insHead =>
    if insHead then some (tl.tlistAddPtrHead self text p1) else some (tl.tlistAddPtr self text p1)
  | .setArgs self cat depth flags => some (tl.setArgs self cat depth flags)
  | .del self => (tl.tlistDel self).toOption
  | .clear => some tl.tlistClear
  | .restore => some tl.tlistRestore
  | .select self => (tl.tlistSelect self).toOption
  | .deselect self => (tl.tlistDeselect self).toOption
  | .deselectAll => some tl.tlistDeselectAll

/-- New items have new addresses, other calls are about items of the list. -/
def Admitted (tl : Tlist) : Call → Prop
  | .add self _ _ _ => self ∉ tl.items.map (·.self) ∧ self ∉ tl.selitems.map (·.self)
  | .del self | .select self | .deselect self => self ∈ tl.items.map (·.self)
  | .setArgs .. | .clear | .restore | .deselectAll => True

/-- An item is selected in the version of it that was saved last. -/
def SelectedEarlier (tl : Tlist) (cit : TlistItem) : Prop :=
  match tl.lastVersion tl.selitems cit with
  | some sit => if tl.flags.noSelState then cit.selected ≠ 0 else sit.selected ≠ 0
  | none => cit.selected ≠ 0

/-- When a call leaves the binding with what it is to hold. -/
def KeepsBinding (tl : Tlist) : Call → Prop
  | .del self => ∀ it ∈ tl.items, it.self = self → it.selected ≠ 0 → it.data.p1 = none
  | .clear => tl.selected = none
  | .restore => Agrees tl.selected tl.items tl.SelectedEarlier
  | .deselect self => tl.selected = none ∨ ∀ it ∈ tl.items, it.self = self → it.selected ≠ 0
  | .add .. | .setArgs .. | .select _ | .deselectAll => True

variable {tl next : Tlist} {it : TlistItem} {self : TlistItemRef}

/-! ## What the operations do to the items -/

/-- An item that is not selected any more -/
def deselected (it : TlistItem) : TlistItem := { it with selected := 0 }

theorem deselectItem_items (tl : Tlist) (it : TlistItem) : (tl.deselectItem it).items =
      tl.items.map fun other =>
        if other.self = it.self then deselected other else other := by
  apply List.map_congr_left
  intro other _
  by_cases same : other.self = it.self <;>
    by_cases selected : other.selected = 0
  · rw [if_neg (fun both => both.2 selected), if_pos same, deselected, ← selected]
  · rw [if_pos ⟨same, selected⟩, if_pos same, deselected]
  · rw [if_neg (fun both => same both.1), if_neg same]
  · rw [if_neg (fun both => same both.1), if_neg same]

theorem foldl_deselectItem (tl : Tlist) (its : List TlistItem) : its.foldl deselectItem tl =
      { tl with
        selected := if its = [] then tl.selected else none
        items := tl.items.map fun other =>
          if other.self ∈ its.map (·.self) then deselected other
          else
            other } := by
  induction its generalizing tl with
  | nil => simp
  | cons it rest ih =>
    have items : (tl.deselectItem it).items.map (fun other =>
            if other.self ∈ rest.map (·.self) then deselected other else other) =
          tl.items.map fun other =>
            if other.self ∈ (it :: rest).map (·.self) then deselected other
            else
              other := by
      rw [deselectItem_items, List.map_map]
      apply List.map_congr_left
      intro other _
      by_cases first : other.self = it.self <;>
        by_cases later : other.self ∈ rest.map (·.self) <;>
        simp [first, later, deselected] <;> grind
    rw [List.foldl_cons, ih, items]
    have binding : (if rest = [] then (tl.deselectItem it).selected else none) = none := by
      split <;> rfl
    rw [binding, if_neg (List.cons_ne_nil it rest)]
    rfl

theorem tlistDeselectAll_eq (tl : Tlist) : tl.tlistDeselectAll =
      { tl with
        selected := if tl.items = [] then tl.selected else none
        items := tl.items.map deselected } := by
  rw [tlistDeselectAll, foldl_deselectItem]
  congr 1
  apply List.map_congr_left
  intro other member
  rw [if_pos (List.mem_map_of_mem member)]

theorem selectItem_deselectAll_items (tl : Tlist) (it : TlistItem) :
    (tl.tlistDeselectAll.selectItem it).items = tl.items.map fun other =>
        if other.self = it.self then { other with selected := 1 }
        else
          deselected other := by
  rw [tlistDeselectAll_eq]
  change (tl.items.map deselected).map _ = _
  rw [List.map_map]
  apply List.map_congr_left
  intro other _
  by_cases same : other.self = it.self <;> simp [same, deselected]

/-! ## When the binding follows -/

variable {selected : Option Nat} {items : List TlistItem} {isSelected : TlistItem → Prop}

theorem agrees_map {f : TlistItem → TlistItem} (distinct : (items.map (·.self)).Nodup)
    (keepsSelf : ∀ it, (f it).self = it.self) (keepsP1 : ∀ it, (f it).data.p1 = it.data.p1) :
    Agrees selected (items.map f) isSelected ↔
      Agrees selected items fun it => isSelected (f it) := by
  have injective : ∀ it ∈ items, ∀ other ∈ items, f other = f it → other = it := by
    intro it member other otherMember same
    have sameSelf : other.self = it.self := by rw [← keepsSelf other, same, keepsSelf it]
    exact List.inj_on_of_nodup_map distinct otherMember member sameSelf
  unfold Agrees
  constructor
  · rintro (⟨empty, nobody⟩ | ⟨_, inside, chosen, binding, only⟩)
    · exact .inl ⟨empty, fun it member => nobody (f it) (List.mem_map_of_mem member)⟩
    · obtain ⟨it, member, rfl⟩ := List.mem_map.mp inside
      refine .inr ⟨it, member, chosen, ?_, fun other otherMember also => ?_⟩
      · rw [binding, keepsP1]
      · exact injective it member other otherMember
          (only (f other) (List.mem_map_of_mem otherMember) also)
  · rintro (⟨empty, nobody⟩ | ⟨it, member, chosen, binding, only⟩)
    · refine .inl ⟨empty, fun image inside => ?_⟩
      obtain ⟨it, member, rfl⟩ := List.mem_map.mp inside
      exact nobody it member
    · refine .inr ⟨f it, List.mem_map_of_mem member, chosen, ?_, ?_⟩
      · rw [binding, keepsP1]
      · intro image inside also
        obtain ⟨other, otherMember, rfl⟩ := List.mem_map.mp inside
        rw [only other otherMember also]

theorem agrees_congr {also : TlistItem → Prop} (same : ∀ it ∈ items, isSelected it ↔ also it) :
    Agrees selected items isSelected ↔ Agrees selected items also := by
  unfold Agrees
  refine or_congr (and_congr Iff.rfl ?_) (exists_congr fun it => ?_)
  · exact forall₂_congr fun it member => not_congr (same it member)
  · refine and_congr_right fun member => and_congr (same it member) ?_
    refine and_congr Iff.rfl ?_
    exact forall₂_congr fun other otherMember => imp_congr_left (same other otherMember)

theorem agrees_of_mem_iff {more : List TlistItem} (notSelected : ¬ isSelected it)
    (members : ∀ other, other ∈ more ↔ other = it ∨ other ∈ items) :
    Agrees selected more isSelected ↔ Agrees selected items isSelected := by
  unfold Agrees
  constructor
  · rintro (⟨empty, nobody⟩ | ⟨chosen, inside, isChosen, binding, only⟩)
    · exact .inl ⟨empty, fun other member => nobody other ((members other).mpr (.inr member))⟩
    · rcases (members chosen).mp inside with rfl | member
      · exact absurd isChosen notSelected
      · exact .inr ⟨chosen, member, isChosen, binding, fun other otherMember =>
          only other ((members other).mpr (.inr otherMember))⟩
  · rintro (⟨empty, nobody⟩ | ⟨chosen, member, isChosen, binding, only⟩)
    · refine .inl ⟨empty, fun other inside => ?_⟩
      rcases (members other).mp inside with rfl | otherMember
      · exact notSelected
      · exact nobody other otherMember
    · refine .inr ⟨chosen, (members chosen).mpr (.inr member), isChosen,
        binding, fun other inside also => ?_⟩
      rcases (members other).mp inside with rfl | otherMember
      · exact absurd also notSelected
      · exact only other otherMember also

theorem agrees_of_nobody (nobody : ∀ it ∈ items, ¬ isSelected it) :
    Agrees selected items isSelected ↔ selected = none := by
  constructor
  · rintro (⟨empty, _⟩ | ⟨it, member, isChosen, _⟩)
    · exact empty
    · exact absurd isChosen (nobody it member)
  · exact fun empty => .inl ⟨empty, nobody⟩

theorem Agrees.of_selected (agrees : Agrees selected items isSelected) (member : it ∈ items)
    (isChosen : isSelected it) :
    selected = it.data.p1 ∧ ∀ other ∈ items, isSelected other → other = it := by
  rcases agrees with ⟨_, nobody⟩ | ⟨chosen, _, _, binding, only⟩
  · exact absurd isChosen (nobody it member)
  · rw [only it member isChosen]
    exact ⟨binding, only⟩

theorem agrees_without_selected {binding : Option Nat} (agrees : Agrees selected items isSelected)
    (member : it ∈ items) (isChosen : isSelected it) :
    Agrees binding items (fun other => other ≠ it ∧ isSelected other) ↔ binding = none := by
  apply agrees_of_nobody
  rintro other otherMember ⟨different, also⟩
  exact different ((agrees.of_selected member isChosen).2 other otherMember also)

theorem agrees_without_other (notSelected : ¬ isSelected it) :
    Agrees selected items (fun other => other ≠ it ∧ isSelected other) ↔
      Agrees selected items isSelected := by
  apply agrees_congr
  intro other _
  constructor
  · exact fun ⟨_, also⟩ => also
  · exact fun also => ⟨fun same => notSelected (same ▸ also), also⟩

theorem agrees_of_removed {fewer : List TlistItem}
    (members : ∀ other, other ∈ fewer ↔ other ∈ items ∧ other ≠ it) :
    Agrees selected fewer isSelected ↔ Agrees selected items
        (fun other => other ≠ it ∧ isSelected other) := by
  unfold Agrees
  constructor
  · rintro (⟨empty, nobody⟩ | ⟨chosen, inside, isChosen, binding, only⟩)
    · exact .inl ⟨empty, fun other member ⟨different, also⟩ =>
        nobody other ((members other).mpr ⟨member, different⟩) also⟩
    · obtain ⟨member, different⟩ := (members chosen).mp inside
      exact .inr ⟨chosen, member, ⟨different, isChosen⟩, binding,
        fun other otherMember ⟨otherDifferent, also⟩ =>
          only other ((members other).mpr ⟨otherMember, otherDifferent⟩) also⟩
  · rintro (⟨empty, nobody⟩ | ⟨chosen, member, isChosen, binding, only⟩)
    · refine .inl ⟨empty, fun other inside also => ?_⟩
      obtain ⟨otherMember, different⟩ := (members other).mp inside
      exact nobody other otherMember ⟨different, also⟩
    · refine .inr ⟨chosen, (members chosen).mpr ⟨member, isChosen.1⟩,
        isChosen.2, binding, fun other inside also => ?_⟩
      obtain ⟨otherMember, different⟩ := (members other).mp inside
      exact only other otherMember ⟨different, also⟩

/-! ## The calls one by one -/

theorem find_self (distinct : (tl.items.map (·.self)).Nodup)
    (member : self ∈ tl.items.map (·.self)) :
    ∃ it, it ∈ tl.items ∧ it.self = self ∧ tl.items.find? (·.self = self) = some it :=
  exists_find?_key distinct member

theorem map_self_of_keeps {f : TlistItem → TlistItem} (keepsSelf : ∀ it, (f it).self = it.self) :
    (items.map f).map (·.self) = items.map (·.self) := by
  rw [List.map_map]
  exact List.map_congr_left fun it _ => keepsSelf it

theorem Sound.insertItem (sound : tl.Sound) (fresh : it.self ∉ tl.items.map (·.self))
    (notSelected : it.selected = 0) (insHead : Bool) : (tl.insertItem it insHead).Sound := by
  obtain ⟨single, distinct, agrees, counted⟩ := sound
  have members : ∀ other, other ∈ (tl.insertItem it insHead).items ↔
          other = it ∨ other ∈ tl.items := by
    intro other
    cases insHead <;> simp [Tlist.insertItem, or_comm]
  refine ⟨single, ?_, ?_, ?_⟩
  · cases insHead with
    | true => exact List.nodup_cons.mpr ⟨fresh, distinct⟩
    | false =>
      change ((tl.items ++ [it]).map _).Nodup
      rw [List.map_append]
      exact List.Nodup.append distinct (List.nodup_singleton _) (List.disjoint_singleton.mpr fresh)
  · exact (agrees_of_mem_iff (not_not.mpr notSelected) members).mpr agrees
  · cases insHead <;> simp [Tlist.insertItem, counted]

theorem Sound.map {f : TlistItem → TlistItem} {binding : Option Nat} {saved : List TlistItem}
    (sound : tl.Sound) (keepsSelf : ∀ it, (f it).self = it.self)
    (keepsP1 : ∀ it, (f it).data.p1 = it.data.p1) :
    Sound
        { tl with selected := binding, items := tl.items.map f, selitems := saved } ↔
      Agrees binding tl.items fun it => (f it).selected ≠ 0 := by
  obtain ⟨single, distinct, _, counted⟩ := sound
  have same : Agrees binding (tl.items.map f) (·.selected ≠ 0) ↔
        Agrees binding tl.items fun it => (f it).selected ≠ 0 :=
    agrees_map distinct keepsSelf keepsP1
  rw [← same]
  constructor
  · exact fun later => later.follows.1
  · intro agrees
    refine ⟨single, ?_, agrees, ?_⟩
    · rwa [map_self_of_keeps keepsSelf]
    · rw [counted, List.length_map]

theorem tlistDel_sound_iff (sound : tl.Sound) (member : self ∈ tl.items.map (·.self)) : ∃ next,
      tl.tlistDel self = .ok next ∧ (next.Follows → tl.KeepsBinding (.del self)) ∧
        (tl.KeepsBinding (.del self) → next.Sound) := by
  obtain ⟨single, distinct, agrees, counted⟩ := sound
  obtain ⟨it, inside, rfl, found⟩ := find_self distinct member
  have unique : ∀ other ∈ tl.items, other.self = it.self → other = it :=
    fun other otherMember same => List.inj_on_of_nodup_map distinct otherMember inside same
  have members : ∀ other, other ∈ tl.items.eraseP (·.self = it.self) ↔
          other ∈ tl.items ∧ other ≠ it := by
    intro other
    rw [mem_eraseP_of_nodup distinct]
    refine and_congr_right fun otherMember => not_congr ?_
    exact ⟨unique other otherMember, fun same => by rw [same]⟩
  have length : ((tl.items.eraseP (·.self = it.self)).length : Int) = tl.items.length - 1 := by
    rw [List.length_eraseP_of_mem inside (by simp)]
    have := List.length_pos_of_mem inside
    omega
  have exactly : Agrees tl.selected (tl.items.eraseP (·.self = it.self)) (·.selected ≠ 0) ↔
        tl.KeepsBinding (.del it.self) := by
    rw [agrees_of_removed members]
    by_cases isChosen : it.selected = 0
    · rw [agrees_without_other (not_not.mpr isChosen)]
      refine ⟨fun _ other otherMember same chosen => ?_, fun _ => agrees⟩
      rw [unique other otherMember same] at chosen
      exact absurd isChosen chosen
    · rw [agrees_without_selected agrees inside isChosen, (agrees.of_selected inside isChosen).1]
      constructor
      · intro empty other otherMember same _
        rw [unique other otherMember same, empty]
      · exact fun keeps => keeps it inside rfl isChosen
  have result : ∃ next, tl.tlistDel it.self = .ok next ∧ next.selected = tl.selected ∧
          next.items = tl.items.eraseP (·.self = it.self) ∧
          next.nitems = tl.nitems - 1 ∧ next.flags = tl.flags := by
    unfold tlistDel
    rw [found]
    dsimp only
    split
    · exact ⟨_, rfl, rfl, rfl, rfl, rfl⟩
    · exact ⟨_, rfl, rfl, rfl, rfl, rfl⟩
  obtain ⟨next, deleted, binding, left, countedNext, flags⟩ := result
  refine ⟨next, deleted, fun follows => ?_, fun keeps => ⟨?_, ?_, ?_, ?_⟩⟩
  · rw [← exactly, ← binding, ← left]
    exact follows.1
  · rw [flags, single]
  · rw [left]
    exact distinct.sublist (List.eraseP_sublist.map _)
  · rw [binding, left]
    exact exactly.mpr keeps
  · rw [countedNext, left, length, counted]

theorem Sound.map_follows {f : TlistItem → TlistItem} {binding : Option Nat}
    {saved : List TlistItem} (sound : tl.Sound) (keepsSelf : ∀ it, (f it).self = it.self)
    (keepsP1 : ∀ it, (f it).data.p1 = it.data.p1) :
    Follows
        { tl with selected := binding, items := tl.items.map f, selitems := saved } →
      Agrees binding tl.items fun it => (f it).selected ≠ 0 :=
  fun follows => (agrees_map sound.distinct keepsSelf keepsP1).mp follows.1

theorem restored_agrees_iff (tl : Tlist) : Agrees tl.selected tl.items
        (fun it => (tl.restored tl.selitems it).selected ≠ 0) ↔
      tl.KeepsBinding .restore := by
  apply agrees_congr
  intro it _
  unfold SelectedEarlier restored
  cases tl.lastVersion tl.selitems it with
  | none => exact Iff.rfl
  | some sit =>
    change (tl.withState it sit).selected ≠ 0 ↔ _
    unfold withState
    cases tl.flags.noSelState <;> exact Iff.rfl

theorem tlistRestore_eq (tl : Tlist) : tl.tlistRestore =
      { tl with items := tl.items.map (tl.restored tl.selitems), selitems := [] } := by
  rw [← tlistRestore_items]
  rfl

theorem deselectItem_eq (tl : Tlist) (it : TlistItem) : tl.deselectItem it =
      { tl with
        selected := none
        items := tl.items.map fun other =>
          if other.self = it.self then deselected other else other } := by
  rw [← deselectItem_items]
  rfl

theorem deselected_agrees_iff (sound : tl.Sound) (inside : it ∈ tl.items) : Agrees none tl.items
        (fun other => (if other.self = it.self then deselected other else other).selected ≠ 0) ↔
      tl.KeepsBinding (.deselect it.self) := by
  have unique : ∀ other ∈ tl.items, other.self = it.self → other = it :=
    fun other otherMember same => List.inj_on_of_nodup_map sound.distinct otherMember inside same
  have others : Agrees none tl.items (fun other =>
            (if other.self = it.self then deselected other else other).selected ≠ 0) ↔
        Agrees none tl.items (fun other => other ≠ it ∧ other.selected ≠ 0) := by
    apply agrees_congr
    intro other otherMember
    by_cases same : other.self = it.self
    · rw [if_pos same]
      exact ⟨fun chosen => absurd rfl chosen,
        fun both => absurd (unique other otherMember same) both.1⟩
    · rw [if_neg same]
      exact ⟨fun chosen => ⟨fun equal => same (by rw [equal]), chosen⟩, fun both => both.2⟩
  rw [others]
  obtain ⟨agrees, _⟩ := sound.follows
  by_cases isChosen : it.selected = 0
  · rw [agrees_without_other (not_not.mpr isChosen)]
    constructor
    · intro empty
      rcases empty with ⟨_, nobody⟩ | ⟨other, member, chosen, binding, _⟩
      · exact .inl ((agrees_of_nobody nobody).mp agrees)
      · exact .inl ((agrees.of_selected member chosen).1.trans binding.symm)
    · rintro (empty | chosen)
      · rwa [empty] at agrees
      · exact absurd isChosen (chosen it inside rfl)
  · rw [agrees_without_selected agrees inside isChosen]
    refine ⟨fun _ => .inr fun other otherMember same => ?_, fun _ => rfl⟩
    rwa [unique other otherMember same]

theorem Sound.select (sound : tl.Sound) (inside : it ∈ tl.items) :
    (tl.tlistDeselectAll.selectItem it).Sound := by
  have result : tl.tlistDeselectAll.selectItem it =
        { tl with
          selected := it.data.p1
          items := tl.items.map fun other =>
            if other.self = it.self then { other with selected := 1 }
            else
              deselected other } := by
    rw [← selectItem_deselectAll_items, tlistDeselectAll_eq]
    rfl
  rw [result]
  apply (sound.map (fun _ => by split <;> rfl) (fun _ => by split <;> rfl)).mpr
  refine .inr ⟨it, inside, ?_, rfl, fun other otherMember chosen => ?_⟩
  · dsimp only
    rw [if_pos rfl]
    exact one_ne_zero
  · by_cases same : other.self = it.self
    · exact List.inj_on_of_nodup_map sound.distinct otherMember inside same
    · dsimp only at chosen
      rw [if_neg same] at chosen
      exact absurd rfl chosen

theorem Sound.deselectAll (sound : tl.Sound) : tl.tlistDeselectAll.Sound := by
  rw [tlistDeselectAll_eq]
  apply (sound.map (f := deselected) (fun _ => rfl) (fun _ => rfl)).mpr
  apply (agrees_of_nobody fun _ _ => not_not.mpr rfl).mpr
  split
  case isTrue empty =>
    refine (agrees_of_nobody fun it member => ?_).mp sound.follows.1
    rw [empty] at member
    cases member
  case isFalse => rfl

theorem Sound.step (sound : tl.Sound) {call : Call} (admitted : tl.Admitted call) : ∃ next,
      tl.step call = some next ∧ (next.Follows → tl.KeepsBinding call) ∧
        (tl.KeepsBinding call → next.Sound) := by
  cases call with
  | add self text p1 insHead =>
    have added : (tl.insertItem (allocItem self p1 text) insHead).Sound :=
      sound.insertItem admitted.1 rfl insHead
    cases insHead <;>
      exact ⟨_, rfl, fun _ => trivial, fun _ => added⟩
  | setArgs self cat depth flags =>
    refine ⟨_, rfl, fun _ => trivial, fun _ => ?_⟩
    apply (sound.map (fun it => ?_) (fun it => ?_)).mpr
    · refine (agrees_congr fun it _ => ?_).mp sound.follows.1
      split <;> exact Iff.rfl
    · split <;> rfl
    · split <;> rfl
  | del self =>
    obtain ⟨next, deleted, needs, keeps⟩ := tlistDel_sound_iff sound admitted
    exact ⟨next, toOption_eq_some.mpr deleted, needs, keeps⟩
  | clear =>
    refine ⟨_, rfl, fun follows => ?_, fun empty => ?_⟩
    · exact (agrees_of_nobody fun _ => nofun).mp follows.1
    · exact ⟨sound.single, List.nodup_nil, (agrees_of_nobody fun _ => nofun).mpr empty, rfl⟩
  | restore =>
    refine ⟨_, rfl, ?_, ?_⟩ <;> rw [tlistRestore_eq]
    · exact fun follows => (restored_agrees_iff tl).mp (sound.map_follows (fun _ => restored_self)
          (fun _ => by rw [restored_data]) follows)
    · exact fun keeps =>
        (sound.map (fun _ => restored_self) (fun _ => by rw [restored_data])).mpr
          ((restored_agrees_iff tl).mpr keeps)
  | select self =>
    obtain ⟨it, inside, rfl, found⟩ := find_self sound.distinct admitted
    have result : tl.tlistSelect it.self = .ok (tl.tlistDeselectAll.selectItem it) := by
      rw [tlistSelect, found]
      dsimp only
      rw [sound.single, if_neg Bool.false_ne_true]
    exact ⟨_, toOption_eq_some.mpr result, fun _ => trivial, fun _ => sound.select inside⟩
  | deselect self =>
    obtain ⟨it, inside, rfl, found⟩ := find_self sound.distinct admitted
    have result : tl.tlistDeselect it.self = .ok (tl.deselectItem it) := by
      rw [tlistDeselect, found]
    refine ⟨_, toOption_eq_some.mpr result, ?_, ?_⟩ <;> rw [deselectItem_eq]
    · exact fun follows => (deselected_agrees_iff sound inside).mp
        (sound.map_follows (fun _ => by split <;> rfl) (fun _ => by split <;> rfl) follows)
    · exact fun keeps =>
        (sound.map (fun _ => by split <;> rfl) (fun _ => by split <;> rfl)).mpr
          ((deselected_agrees_iff sound inside).mpr keeps)
  | deselectAll => exact ⟨_, rfl, fun _ => trivial, fun _ => sound.deselectAll⟩

theorem new_sound (flags : TlistFlags) (nvisitems : Int)
    (compareFn : TlistItemData → TlistItemData → Bool) (single : flags.multi = false) :
    (new flags nvisitems compareFn).Sound :=
  ⟨single, List.nodup_nil, .inl ⟨rfl, fun _ => nofun⟩, rfl⟩

end Tlist

/--
In a single selection, from a new list on, at most one item is selected, the
binding is its pointer and the items are counted after every call, exactly
when each call keeps the binding.
-/
theorem binding_follows_iff (flags : TlistFlags) (nvisitems : Int)
    (compareFn : TlistItemData → TlistItemData → Bool)
    (single : flags.multi = false ∧ flags.multiToggle = false) (calls : List Tlist.Call)
    (admitted : EachStep Tlist.step Tlist.Admitted (Tlist.new flags nvisitems compareFn) calls) :
    RunsWell Tlist.step Tlist.Follows (Tlist.new flags nvisitems compareFn) calls ↔
      EachStep Tlist.step Tlist.KeepsBinding (Tlist.new flags nvisitems compareFn) calls := by
  refine runsWell_iff_eachStep_of_admitted Tlist.Sound ?_ ?_ ?_
    (Tlist.new_sound flags nvisitems compareFn single.1) admitted
  · exact fun tl sound => sound.follows
  · intro tl call sound admits keeps
    obtain ⟨next, taken, _, later⟩ := sound.step admits
    exact ⟨next, taken, later keeps⟩
  · intro tl call next sound admits taken follows
    obtain ⟨other, otherTaken, needs, _⟩ := sound.step admits
    obtain rfl := Option.some.inj (otherTaken.symm.trans taken)
    exact needs follows

theorem binding_follows_iff_change : RunsWell Tlist.step Tlist.Follows
      (Tlist.new ⟨false, false, false⟩ 5 Tlist.comparePtrs)
      [.add 1 [] (some 7) false, .add 2 [] (some 8) true, .select 1, .select 2, .del 1] := by
  apply (binding_follows_iff ⟨false, false, false⟩ 5 Tlist.comparePtrs ⟨rfl, rfl⟩ _ ?_).mpr
  · refine .cons trivial rfl (.cons trivial rfl (.cons trivial rfl
      (.cons trivial rfl (.cons ?_ rfl trivial))))
    unfold Tlist.KeepsBinding
    decide
  · refine .cons ?_ rfl (.cons ?_ rfl (.cons ?_ rfl (.cons ?_ rfl (.cons ?_ rfl trivial)))) <;>
      unfold Tlist.Admitted <;> decide

theorem deleted_pointer_stays : ¬ RunsWell Tlist.step Tlist.Follows
      (Tlist.new ⟨false, false, false⟩ 5 Tlist.comparePtrs)
      [.add 1 [] (some 7) false, .select 1, .del 1] := by
  rintro ⟨_, _, added, _, _, chosen, _, _, deleted, follows⟩
  cases added
  cases chosen
  cases deleted
  have empty := (Tlist.agrees_of_nobody fun _ => nofun).mp follows.1
  cases empty

end Agar.Gui
