import Agar.Gui.Tlist

namespace Agar.Gui

open Agar.Core Agar.Lib

/-!
# Refreshing a list

`AG_TlistClear`, new items and `AG_TlistRestore` show a list again.  The saved
items are searched in the order in which they were saved last, those of an
earlier `AG_TlistClear` that nothing restored at the end, so that these
decide where they compare equal to a new item.
-/

namespace Tlist

/-- Clear a list and add items to it, each with the state it is given. -/
def repopulate (tl : Tlist) (added : List (TlistItem × Bool)) : Tlist :=
  added.foldl (fun tl one => tl.insertItem one.1 one.2) tl.tlistClear

/-- What is to become of an added item, given the items that were there. -/
structure KeptState (tl : Tlist) (cit later : TlistItem) : Prop where
  sameItem : later.self = cit.self ∧ later.data = cit.data
  selection : ∀ earlier ∈ tl.items, tl.compareFn earlier.data cit.data = true →
      if tl.flags.noSelState then later.selected = cit.selected
      else (later.selected ≠ 0 ↔ earlier.selected ≠ 0)
  expansion : ∀ earlier ∈ tl.items, tl.compareFn earlier.data cit.data = true →
      earlier.flags.hasChildren = true → later.flags.visibleChildren = earlier.flags.visibleChildren
  asAdded : (∀ earlier ∈ tl.items, tl.compareFn earlier.data cit.data = false) → later = cit

/-- A refresh keeps the state of the items, and saves none of them further. -/
def RefreshKeepsState (tl : Tlist) (added : List (TlistItem × Bool)) : Prop :=
  (tl.repopulate added).tlistRestore.selitems = [] ∧
    List.Forall₂ tl.KeptState (tl.repopulate added).items (tl.repopulate added).tlistRestore.items

/--
An item saved before the refresh, of the same state as the one in the list or,
where there is none, as the added one
-/
structure LeftoverAgrees (tl : Tlist) (cit left : TlistItem) : Prop where
  selection : tl.flags.noSelState = false →
      ∀ earlier ∈ tl.items, tl.compareFn earlier.data cit.data = true →
        (left.selected ≠ 0 ↔ earlier.selected ≠ 0)
  expansion : ∀ earlier ∈ tl.items, tl.compareFn earlier.data cit.data = true →
      earlier.flags.hasChildren = true → left.flags.visibleChildren = earlier.flags.visibleChildren
  asAdded : (∀ earlier ∈ tl.items, tl.compareFn earlier.data cit.data = false) →
      (tl.flags.noSelState = false → left.selected = cit.selected) ∧
        left.flags.visibleChildren = cit.flags.visibleChildren

/--
When an added item gets the state of its earlier version: an item that an
earlier `AG_TlistClear` left saved agrees with it, and without such an item
it is not added as selected where the version in the list is not saved.
-/
def Restorable (tl : Tlist) (cit : TlistItem) : Prop :=
  match tl.lastVersion tl.selitems cit with
  | some left => tl.LeftoverAgrees cit left
  | none =>
    tl.flags.noSelState = false → ∀ earlier ∈ tl.items, tl.compareFn earlier.data cit.data = true →
        ¬ tl.Saves earlier → cit.selected = 0

variable {tl : Tlist} {cit : TlistItem}

/-! ## What is saved -/

theorem repopulate_keeps (tl : Tlist) (added : List (TlistItem × Bool)) :
    (tl.repopulate added).flags = tl.flags ∧ (tl.repopulate added).compareFn = tl.compareFn ∧
      (tl.repopulate added).selitems = tl.tlistClear.selitems := by
  unfold repopulate
  generalize cleared : tl.tlistClear = start
  have flags : start.flags = tl.flags := by rw [← cleared]; rfl
  have compareFn : start.compareFn = tl.compareFn := by rw [← cleared]; rfl
  rw [← flags, ← compareFn]
  clear cleared flags compareFn
  induction added generalizing start with
  | nil => exact ⟨rfl, rfl, rfl⟩
  | cons one rest ih => exact ih (start.insertItem one.1 one.2)

theorem mem_repopulate (tl : Tlist) (added : List (TlistItem × Bool)) (cit : TlistItem) :
    cit ∈ (tl.repopulate added).items ↔ ∃ insHead, (cit, insHead) ∈ added := by
  have generally : ∀ start : Tlist, cit ∈ (added.foldl (fun tl one => tl.insertItem one.1 one.2)
            start).items ↔
          cit ∈ start.items ∨ ∃ insHead, (cit, insHead) ∈ added := by
    induction added with
    | nil => simp
    | cons one rest ih =>
      intro start
      rw [List.foldl_cons, ih]
      obtain ⟨it, insHead⟩ := one
      cases insHead <;> simp [insertItem] <;> grind
  rw [repopulate, generally]
  simp [tlistClear]

theorem lastVersion_cleared (tl : Tlist) (cit : TlistItem) :
    tl.lastVersion tl.tlistClear.selitems cit = (tl.lastVersion tl.selitems cit).or
        ((tl.items.filter fun it => decide (tl.Saves it)).find? fun sit =>
          tl.compareFn sit.data cit.data) := by
  change tl.lastVersion (tl.clearItems tl.selitems tl.items) cit = _
  rw [clearItems_eq, lastVersion, List.reverse_append, List.reverse_reverse, List.find?_append]
  rfl

theorem earlier_unique (equivalence : Equivalence fun a b => tl.compareFn a b = true)
    (different : tl.items.Pairwise fun it other => tl.compareFn it.data other.data = false)
    {earlier other : TlistItem} (member : earlier ∈ tl.items)
    (equal : tl.compareFn earlier.data cit.data = true) (otherMember : other ∈ tl.items)
    (otherEqual : tl.compareFn other.data cit.data = true) : other = earlier := by
  have symmetric : Std.Symm fun it other : TlistItem =>
        tl.compareFn it.data other.data = false := by
    refine ⟨fun it other unequal => ?_⟩
    rw [← Bool.not_eq_true] at unequal ⊢
    exact fun reversed => unequal (equivalence.symm reversed)
  by_contra distinct
  have unequal := different.forall otherMember member distinct
  have bothEqual := equivalence.trans otherEqual (equivalence.symm equal)
  rw [bothEqual] at unequal
  cases unequal

theorem find_saved_of_earlier (equivalence : Equivalence fun a b => tl.compareFn a b = true)
    (different : tl.items.Pairwise fun it other => tl.compareFn it.data other.data = false)
    {earlier : TlistItem} (member : earlier ∈ tl.items)
    (equal : tl.compareFn earlier.data cit.data = true) :
    ((tl.items.filter fun it => decide (tl.Saves it)).find? fun sit =>
        tl.compareFn sit.data cit.data) =
      if tl.Saves earlier then some earlier else none := by
  have only : ∀ other ∈ tl.items.filter fun it => decide (tl.Saves it),
        tl.compareFn other.data cit.data = true → other = earlier :=
    fun other inside otherEqual =>
      earlier_unique equivalence different member equal (List.mem_of_mem_filter inside) otherEqual
  split
  case isTrue saves =>
    have kept : earlier ∈ tl.items.filter fun it => decide (tl.Saves it) :=
      List.mem_filter.mpr ⟨member, decide_eq_true saves⟩
    have isFound : ((tl.items.filter fun it => decide (tl.Saves it)).find? fun sit =>
          tl.compareFn sit.data cit.data).isSome :=
      List.find?_isSome.mpr ⟨earlier, kept, equal⟩
    obtain ⟨found, finds⟩ := Option.isSome_iff_exists.mp isFound
    have equalToo : tl.compareFn found.data cit.data = true := by simpa using List.find?_some finds
    rw [finds, only found (List.mem_of_find?_eq_some finds) equalToo]
  case isFalse frees =>
    refine List.find?_eq_none.mpr fun other inside otherEqual => frees ?_
    rw [← only other inside otherEqual]
    exact of_decide_eq_true (List.mem_filter.mp inside).2

theorem find_saved_of_new
    (fresh : ∀ earlier ∈ tl.items, tl.compareFn earlier.data cit.data = false) :
    ((tl.items.filter fun it => decide (tl.Saves it)).find? fun sit =>
        tl.compareFn sit.data cit.data) = none := by
  refine List.find?_eq_none.mpr fun other inside => ?_
  rw [fresh other (List.mem_of_mem_filter inside)]
  exact Bool.false_ne_true

/-! ## What is restored -/

theorem keptState_withState_iff (left : TlistItem) :
    tl.KeptState cit (tl.withState cit left) ↔ tl.LeftoverAgrees cit left := by
  constructor
  · rintro ⟨_, selection, expansion, asAdded⟩
    refine ⟨fun selState earlier member equal => ?_, expansion, fun fresh => ?_⟩
    · have kept := selection earlier member equal
      rw [selState, if_neg Bool.false_ne_true] at kept
      rwa [withState, selState, if_neg Bool.false_ne_true] at kept
    · have same := asAdded fresh
      refine ⟨fun selState => ?_, ?_⟩
      · have selected := congrArg TlistItem.selected same
        rwa [withState, selState, if_neg Bool.false_ne_true] at selected
      · have visible :=
          congrArg (fun it : TlistItem => it.flags.visibleChildren) same
        exact visible
  · rintro ⟨selection, expansion, asAdded⟩
    refine ⟨⟨rfl, rfl⟩, fun earlier member equal => ?_, expansion, fun fresh => ?_⟩
    · unfold withState
      split
      case isTrue noSelState => rfl
      case isFalse selState =>
        exact selection (Bool.eq_false_of_not_eq_true selState) earlier member equal
    · obtain ⟨selected, visible⟩ := asAdded fresh
      unfold withState
      rw [visible]
      split
      case isTrue noSelState => rfl
      case isFalse selState => rw [selected (Bool.eq_false_of_not_eq_true selState)]

theorem keptState_of_saved (equivalence : Equivalence fun a b => tl.compareFn a b = true)
    (different : tl.items.Pairwise fun it other => tl.compareFn it.data other.data = false)
    {earlier : TlistItem} (member : earlier ∈ tl.items)
    (equal : tl.compareFn earlier.data cit.data = true) :
    tl.KeptState cit (tl.withState cit earlier) := by
  have unique : ∀ other ∈ tl.items, tl.compareFn other.data cit.data = true → other = earlier :=
    fun other otherMember otherEqual =>
      earlier_unique equivalence different member equal otherMember otherEqual
  refine (keptState_withState_iff earlier).mpr ⟨?_, ?_, fun fresh => ?_⟩
  · intro _ other otherMember otherEqual
    rw [unique other otherMember otherEqual]
  · intro other otherMember otherEqual _
    rw [unique other otherMember otherEqual]
  · rw [fresh earlier member] at equal
    cases equal

theorem keptState_self_iff
    (frees : ∀ earlier ∈ tl.items, tl.compareFn earlier.data cit.data = true → ¬ tl.Saves earlier) :
    tl.KeptState cit cit ↔ (tl.flags.noSelState = false →
        ∀ earlier ∈ tl.items, tl.compareFn earlier.data cit.data = true →
          ¬ tl.Saves earlier → cit.selected = 0) := by
  have unselected : tl.flags.noSelState = false →
        ∀ earlier ∈ tl.items, tl.compareFn earlier.data cit.data = true → earlier.selected = 0 := by
    intro selState earlier member equal
    by_contra selected
    exact frees earlier member equal (.inl ⟨selState, selected⟩)
  constructor
  · rintro ⟨_, selection, _, _⟩ selState earlier member equal _
    have kept := selection earlier member equal
    rw [selState, if_neg Bool.false_ne_true] at kept
    by_contra selected
    exact kept.mp selected (unselected selState earlier member equal)
  · intro unselectedToo
    refine ⟨⟨rfl, rfl⟩, fun earlier member equal => ?_,
      fun earlier member equal hasChildren => ?_, fun _ => rfl⟩
    · split
      case isTrue noSelState => rfl
      case isFalse selState =>
        have selState := Bool.eq_false_of_not_eq_true selState
        rw [unselectedToo selState earlier member equal
          (frees earlier member equal), unselected selState earlier member
          equal]
    · exact absurd (.inr hasChildren) (frees earlier member equal)

theorem keptState_restored_iff (equivalence : Equivalence fun a b => tl.compareFn a b = true)
    (different : tl.items.Pairwise fun it other => tl.compareFn it.data other.data = false)
    (cit : TlistItem) :
    tl.KeptState cit (tl.restored tl.tlistClear.selitems cit) ↔ tl.Restorable cit := by
  unfold restored Restorable
  rw [lastVersion_cleared]
  cases tl.lastVersion tl.selitems cit with
  | some left => exact keptState_withState_iff left
  | none =>
    rw [Option.none_or]
    by_cases known : ∃ earlier ∈ tl.items, tl.compareFn earlier.data cit.data = true
    · obtain ⟨earlier, member, equal⟩ := known
      have unique : ∀ other ∈ tl.items, tl.compareFn other.data cit.data = true → other = earlier :=
        fun other otherMember otherEqual =>
          earlier_unique equivalence different member equal otherMember otherEqual
      rw [find_saved_of_earlier equivalence different member equal]
      by_cases saves : tl.Saves earlier
      · rw [if_pos saves]
        have kept := keptState_of_saved equivalence different member equal
        refine ⟨fun _ _ other otherMember otherEqual frees => ?_, fun _ => kept⟩
        rw [unique other otherMember otherEqual] at frees
        exact absurd saves frees
      · rw [if_neg saves]
        apply keptState_self_iff
        intro other otherMember otherEqual
        rwa [unique other otherMember otherEqual]
    · have unknown : ∀ earlier ∈ tl.items, tl.compareFn earlier.data cit.data ≠ true :=
        fun earlier member equal => known ⟨earlier, member, equal⟩
      rw [find_saved_of_new fun earlier member =>
        Bool.eq_false_of_not_eq_true (unknown earlier member)]
      apply keptState_self_iff
      exact fun earlier member equal => absurd equal (unknown earlier member)

end Tlist

/--
With a comparison that is an equivalence, under which the items of a list
differ, a refresh keeps the state of its items exactly when each added item
can be restored.
-/
theorem refresh_keeps_state_iff (tl : Tlist)
    (equivalence : Equivalence fun a b => tl.compareFn a b = true)
    (different : tl.items.Pairwise fun it other => tl.compareFn it.data other.data = false)
    (added : List (TlistItem × Bool)) :
    tl.RefreshKeepsState added ↔ ∀ one ∈ added, tl.Restorable one.1 := by
  obtain ⟨flags, compareFn, selitems⟩ := tl.repopulate_keeps added
  have sameRestored : (tl.repopulate added).restored (tl.repopulate added).selitems =
        tl.restored tl.tlistClear.selitems := by
    funext cit
    unfold Tlist.restored Tlist.lastVersion Tlist.withState
    rw [flags, compareFn, selitems]
  have items : List.Forall₂ tl.KeptState (tl.repopulate added).items
          (tl.repopulate added).tlistRestore.items ↔
        ∀ cit ∈ (tl.repopulate added).items, tl.Restorable cit := by
    rw [Tlist.tlistRestore_items, sameRestored, List.forall₂_map_right_iff, List.forall₂_same]
    exact forall₂_congr fun cit _ => Tlist.keptState_restored_iff equivalence different cit
  unfold Tlist.RefreshKeepsState
  rw [items]
  constructor
  · rintro ⟨_, each⟩ ⟨cit, insHead⟩ member
    exact each cit ((tl.mem_repopulate added cit).mpr ⟨insHead, member⟩)
  · intro each
    refine ⟨rfl, fun cit member => ?_⟩
    obtain ⟨insHead, inside⟩ := (tl.mem_repopulate added cit).mp member
    exact each (cit, insHead) inside

theorem comparePtrs_equivalence : Equivalence fun a b => Tlist.comparePtrs a b = true := by
  constructor
  · intro data
    exact decide_eq_true rfl
  · intro data other equal
    exact decide_eq_true (of_decide_eq_true equal).symm
  · intro data other third equal equalToo
    exact decide_eq_true ((of_decide_eq_true equal).trans (of_decide_eq_true equalToo))

theorem refresh_keeps_state_iff_reordered : ∃ tl,
      ((Tlist.new ⟨false, false, false⟩ 5 Tlist.comparePtrs).tlistAddPtr 1 []
          (some 7)).tlistSelect 1 = .ok tl ∧
        tl.RefreshKeepsState
          [(Tlist.allocItem 2 (some 8) [], false), (Tlist.allocItem 3 (some 7) [], false)] := by
  refine ⟨_, rfl, ?_⟩
  apply (refresh_keeps_state_iff _ comparePtrs_equivalence ?_ _).mpr
  · intro one member
    rcases List.mem_pair.mp member with rfl | rfl
    · intro _ earlier inside equal
      rw [List.mem_singleton.mp inside] at equal
      exact absurd equal (by decide)
    · intro _ earlier inside _ frees
      rw [List.mem_singleton.mp inside] at frees
      exact absurd (.inl ⟨rfl, one_ne_zero⟩) frees
  · exact List.pairwise_singleton _ _

theorem leftover_is_restored : ∃ tl,
      ((Tlist.new ⟨false, false, false⟩ 5 Tlist.comparePtrs).tlistAddPtr 1 []
          (some 7)).tlistSelect 1 = .ok tl ∧
        (Equivalence fun a b => tl.compareFn a b = true) ∧
        ((tl.tlistClear.tlistAddPtr 2 [] (some 7)).items.Pairwise
          fun it other => tl.compareFn it.data other.data = false) ∧
        ¬ (tl.tlistClear.tlistAddPtr 2 [] (some 7)).RefreshKeepsState
          [(Tlist.allocItem 3 (some 7) [], false)] := by
  refine ⟨_, rfl, comparePtrs_equivalence, List.pairwise_singleton _ _, ?_⟩
  rintro ⟨_, kept⟩
  cases kept with
  | cons one _ =>
    have selection := one.selection _ List.mem_cons_self (by decide)
    revert selection
    decide

end Agar.Gui
