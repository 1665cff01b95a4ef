import Mathlib

namespace Agar.Lib

/-!
# Changing the first element of a kind

The first element of a list that a test selects is found, changed or erased.
Two lists that are related element by element, with related elements selected
alike, stay related.
-/

variable {α β : Type}

/-- Change the first selected element. -/
def updateFirst (selected : α → Bool) (change : α → α) : List α → List α
  | [] => []
  | first :: rest =>
    if selected first then change first :: rest else first :: updateFirst selected change rest

variable {selected : α → Bool} {change : α → α}

theorem map_updateFirst {part : α → β} (kept : ∀ element, part (change element) = part element)
    (list : List α) : (updateFirst selected change list).map part = list.map part := by
  induction list with
  | nil => rfl
  | cons first rest ih =>
    unfold updateFirst
    split
    · rw [List.map_cons, kept, List.map_cons]
    · rw [List.map_cons, ih, List.map_cons]

theorem length_updateFirst (selected : α → Bool) (change : α → α) (list : List α) :
    (updateFirst selected change list).length = list.length := by
  induction list with
  | nil => rfl
  | cons first rest ih =>
    unfold updateFirst
    split
    · rfl
    · rw [List.length_cons, ih, List.length_cons]

variable {list : List α}

theorem find?_updateFirst_self {found : α} (first : list.find? selected = some found)
    (stays : selected (change found) = true) :
    (updateFirst selected change list).find? selected = some (change found) := by
  induction list with
  | nil => cases first
  | cons head rest ih =>
    unfold updateFirst
    by_cases chosen : selected head = true
    · rw [List.find?_cons_of_pos chosen, Option.some.injEq] at first
      subst first
      rw [if_pos chosen, List.find?_cons_of_pos stays]
    · rw [List.find?_cons_of_neg chosen] at first
      rw [if_neg chosen, List.find?_cons_of_neg chosen]
      exact ih first

theorem mem_updateFirst {found : α} (first : list.find? selected = some found) :
    change found ∈ updateFirst selected change list := by
  induction list with
  | nil => cases first
  | cons head rest ih =>
    unfold updateFirst
    by_cases chosen : selected head = true
    · rw [List.find?_cons_of_pos chosen, Option.some.injEq] at first
      subst first
      rw [if_pos chosen]
      exact List.mem_cons_self
    · rw [List.find?_cons_of_neg chosen] at first
      rw [if_neg chosen]
      exact List.mem_cons_of_mem _ (ih first)

theorem find?_of_nodup [DecidableEq β] {part : α → β} {element : α}
    (unique : (list.map part).Nodup) (member : element ∈ list) :
    list.find? (fun other => part other = part element) = some element := by
  induction list with
  | nil => cases member
  | cons head rest ih =>
    rw [List.map_cons, List.nodup_cons] at unique
    obtain ⟨fresh, uniqueRest⟩ := unique
    rcases List.mem_cons.mp member with rfl | later
    · exact List.find?_cons_of_pos (decide_eq_true rfl)
    · have other : part head ≠ part element := by
        intro same
        apply fresh
        rw [same]
        exact List.mem_map_of_mem later
      rw [List.find?_cons, decide_eq_false other]
      exact ih uniqueRest later

theorem of_mem_updateFirst {element : α} (member : element ∈ updateFirst selected change list) :
    element ∈ list ∨ ∃ found, list.find? selected = some found ∧ element = change found := by
  induction list with
  | nil => cases member
  | cons head rest ih =>
    unfold updateFirst at member
    split at member
    case isTrue chosen =>
      rcases List.mem_cons.mp member with rfl | later
      · exact .inr ⟨head, List.find?_cons_of_pos chosen, rfl⟩
      · exact .inl (List.mem_cons_of_mem _ later)
    case isFalse passed =>
      rcases List.mem_cons.mp member with rfl | later
      · exact .inl List.mem_cons_self
      · rw [List.find?_cons_of_neg passed]
        exact (ih later).imp_left (List.mem_cons_of_mem _)

section Keyed

variable [DecidableEq β] {part : α → β} {key other : β} {list : List α}

theorem find?_updateFirst_other (kept : ∀ element, part (change element) = part element)
    (different : other ≠ key) :
    (updateFirst (fun element => part element = key) change list).find?
        (fun element => part element = other) =
      list.find? fun element => part element = other := by
  induction list with
  | nil => rfl
  | cons head rest ih =>
    unfold updateFirst
    split
    case isTrue chosen =>
      have passed : ¬ part head = other := by
        rw [of_decide_eq_true chosen]
        exact Ne.symm different
      rw [List.find?_cons_of_neg (by simpa [kept] using passed),
        List.find?_cons_of_neg (by simpa using passed)]
    case isFalse => rw [List.find?_cons, List.find?_cons, ih]

theorem find?_eraseP_other (different : other ≠ key) :
    (list.eraseP fun element => part element = key).find? (fun element => part element = other) =
      list.find? fun element => part element = other := by
  induction list with
  | nil => rfl
  | cons head rest ih =>
    by_cases chosen : part head = key
    · have passed : ¬ part head = other := by
        rw [chosen]
        exact Ne.symm different
      rw [List.eraseP_cons_of_pos (by simpa using chosen),
        List.find?_cons_of_neg (by simpa using passed)]
    · rw [List.eraseP_cons_of_neg (by simpa using chosen), List.find?_cons, List.find?_cons, ih]

theorem find?_eraseP_self (unique : (list.map part).Nodup) :
    (list.eraseP fun element => part element = key).find?
        (fun element => part element = key) = none := by
  induction list with
  | nil => rfl
  | cons head rest ih =>
    obtain ⟨fresh, uniqueRest⟩ := List.nodup_cons.mp unique
    by_cases chosen : part head = key
    · rw [List.eraseP_cons_of_pos (by simpa using chosen), List.find?_eq_none]
      intro element member same
      exact fresh (List.mem_map.mpr ⟨element, member, (of_decide_eq_true same).trans chosen.symm⟩)
    · rw [List.eraseP_cons_of_neg (by simpa using chosen),
        List.find?_cons_of_neg (by simpa using chosen),
        ih uniqueRest]

theorem mem_eraseP_of_nodup (unique : (list.map part).Nodup) (element : α) :
    element ∈ list.eraseP (fun element => part element = key) ↔
      element ∈ list ∧ part element ≠ key := by
  by_cases same : part element = key
  · constructor
    · intro member
      have absent := List.find?_eq_none.mp (find?_eraseP_self unique) element member
      exact absurd (decide_eq_true same) absent
    · exact fun ⟨_, different⟩ => absurd same different
  · rw [List.mem_eraseP_of_neg (by simpa using same)]
    exact ⟨fun member => ⟨member, same⟩, fun ⟨member, _⟩ => member⟩

theorem exists_find?_key (unique : (list.map part).Nodup) (member : key ∈ list.map part) :
    ∃ element, element ∈ list ∧ part element = key ∧
        list.find? (fun element => part element = key) = some element := by
  obtain ⟨element, inside, rfl⟩ := List.mem_map.mp member
  exact ⟨element, inside, rfl, find?_of_nodup unique inside⟩

end Keyed

theorem updateFirst_append {front : List α} (none : front.find? selected = none) (back : List α) :
    updateFirst selected change (front ++ back) = front ++ updateFirst selected change back := by
  induction front with
  | nil => rfl
  | cons head front ih =>
    have other : ¬ selected head = true := List.find?_eq_none.mp none head List.mem_cons_self
    rw [List.find?_cons_of_neg other] at none
    rw [List.cons_append, updateFirst, if_neg other, ih none, List.cons_append]

theorem split_first {found : α} (first : list.find? selected = some found) : ∃ front back,
      list = front ++ found :: back ∧ (∀ change,
          updateFirst selected change list = front ++ change found :: back) ∧
        list.eraseP selected = front ++ back ∧ front.find? selected = none := by
  induction list with
  | nil => cases first
  | cons head rest ih =>
    by_cases chosen : selected head = true
    · rw [List.find?_cons_of_pos chosen, Option.some.injEq] at first
      subst first
      refine ⟨[], rest, rfl, fun change => if_pos chosen, ?_, rfl⟩
      rw [List.eraseP_cons_of_pos chosen, List.nil_append]
    · rw [List.find?_cons_of_neg chosen] at first
      obtain ⟨front, back, whole, updated, erased, before⟩ := ih first
      refine ⟨head :: front, back, ?_, fun change => ?_, ?_, ?_⟩
      · rw [whole, List.cons_append]
      · rw [updateFirst, if_neg chosen, updated, List.cons_append]
      · rw [List.eraseP_cons_of_neg chosen, erased, List.cons_append]
      · rwa [List.find?_cons_of_neg chosen]

section Related

variable {related : α → β → Prop} {first : List α} {second : List β} {selected : α → Bool}
  {chosen : β → Bool}

theorem forall₂_map_eq {γ : Type} {part : α → γ} {other : β → γ}
    (lists : List.Forall₂ related first second) (agree : ∀ a b, related a b → part a = other b) :
    first.map part = second.map other := by
  induction lists with
  | nil => rfl
  | @cons a b _ _ here _ ih => rw [List.map_cons, List.map_cons, agree a b here, ih]

theorem forall₂_mem (lists : List.Forall₂ related first second) {a : α} (member : a ∈ first) :
    ∃ b ∈ second, related a b := by
  induction lists with
  | nil => cases member
  | @cons c d _ _ here _ ih =>
    rcases List.mem_cons.mp member with rfl | later
    · exact ⟨d, List.mem_cons_self, here⟩
    · obtain ⟨b, listed, relates⟩ := ih later
      exact ⟨b, List.mem_cons_of_mem _ listed, relates⟩

theorem forall₂_find? (lists : List.Forall₂ related first second)
    (alike : ∀ a b, related a b → selected a = chosen b) :
    first.find? selected = none ∧ second.find? chosen = none ∨ ∃ a b,
        first.find? selected = some a ∧ second.find? chosen = some b ∧ related a b := by
  induction lists with
  | nil => exact .inl ⟨rfl, rfl⟩
  | @cons a b _ _ here _ ih =>
    have same := alike a b here
    by_cases isSelected : selected a = true
    · have isChosen : chosen b = true := same ▸ isSelected
      exact .inr ⟨a, b, List.find?_cons_of_pos isSelected, List.find?_cons_of_pos isChosen, here⟩
    · have notChosen : ¬ chosen b = true := same ▸ isSelected
      rwa [List.find?_cons_of_neg isSelected, List.find?_cons_of_neg notChosen]

theorem forall₂_updateFirst {alter : β → β} (lists : List.Forall₂ related first second)
    (alike : ∀ a b, related a b → selected a = chosen b)
    (changed : ∀ a b, first.find? selected = some a → related a b → related (change a) (alter b)) :
    List.Forall₂ related (updateFirst selected change first) (updateFirst chosen alter second) := by
  induction lists with
  | nil => exact .nil
  | @cons a b rest others here later ih =>
    have same := alike a b here
    unfold updateFirst
    by_cases isSelected : selected a = true
    · have isChosen : chosen b = true := same ▸ isSelected
      rw [if_pos isSelected, if_pos isChosen]
      exact .cons (changed a b (List.find?_cons_of_pos isSelected) here) later
    · have notChosen : ¬ chosen b = true := same ▸ isSelected
      rw [if_neg isSelected, if_neg notChosen]
      apply List.Forall₂.cons here
      apply ih
      intro c d found
      apply changed c d
      rwa [List.find?_cons_of_neg isSelected]

theorem forall₂_eraseP (lists : List.Forall₂ related first second)
    (alike : ∀ a b, related a b → selected a = chosen b) :
    List.Forall₂ related (first.eraseP selected) (second.eraseP chosen) := by
  induction lists with
  | nil => exact .nil
  | @cons a b _ _ here later ih =>
    have same := alike a b here
    rw [List.eraseP_cons, List.eraseP_cons, ← same]
    cases selected a
    · exact .cons here ih
    · exact later

theorem forall₂_getElem? (lists : List.Forall₂ related first second) (index : Nat) :
    first[index]? = none ∧ second[index]? = none ∨ ∃ a b,
        first[index]? = some a ∧ second[index]? = some b ∧ related a b := by
  have lengths := lists.length_eq
  by_cases inside : index < first.length
  · have insideSecond : index < second.length := lengths ▸ inside
    exact .inr ⟨_, _, List.getElem?_eq_getElem inside,
      List.getElem?_eq_getElem insideSecond, lists.get inside insideSecond⟩
  · exact .inl ⟨List.getElem?_eq_none (Nat.le_of_not_lt inside),
      List.getElem?_eq_none (lengths ▸ Nat.le_of_not_lt inside)⟩

theorem forall₂_head? (lists : List.Forall₂ related first second) {a : α}
    (isFirst : first.head? = some a) : ∃ b, second.head? = some b ∧ related a b := by
  cases lists with
  | nil => cases isFirst
  | @cons c d _ _ here _ =>
    obtain rfl : c = a := Option.some.inj isFirst
    exact ⟨d, rfl, here⟩

theorem forall₂_getLast? (lists : List.Forall₂ related first second) {a : α} {b : β}
    (isLast : first.getLast? = some a) (isLastSecond : second.getLast? = some b) : related a b := by
  rw [← List.head?_reverse] at isLast isLastSecond
  obtain ⟨c, isFirst, relates⟩ := forall₂_head? (List.forall₂_reverse_iff.mpr lists) isLast
  rw [isFirst] at isLastSecond
  rwa [← Option.some.inj isLastSecond]

theorem forall₂_eraseIdx (lists : List.Forall₂ related first second) (index : Nat) :
    List.Forall₂ related (first.eraseIdx index) (second.eraseIdx index) := by
  induction lists generalizing index with
  | nil => exact .nil
  | cons here later ih =>
    cases index with
    | zero => exact later
    | succ index => exact .cons here (ih index)

theorem forall₂_set {relatedAfter : α → β → Prop} (lists : List.Forall₂ related first second)
    {index : Nat} {a : α} {b : β} (here : relatedAfter a b)
    (elsewhere : ∀ other c d, other ≠ index → first[other]? = some c → related c d →
        relatedAfter c d) : List.Forall₂ relatedAfter (first.set index a) (second.set index b) := by
  induction lists generalizing index with
  | nil => exact .nil
  | @cons c d firstRest secondRest relates later ih =>
    cases index with
    | zero =>
      refine .cons here ?_
      rw [List.forall₂_iff_get]
      refine ⟨later.length_eq, fun other inFirst inSecond => ?_⟩
      exact elsewhere (other + 1) _ _ (Nat.succ_ne_zero other)
        (List.getElem?_eq_getElem inFirst) (later.get inFirst inSecond)
    | succ index =>
      refine .cons ?_ (ih ?_)
      · exact elsewhere 0 c d (Nat.succ_ne_zero index).symm rfl relates
      · intro other e f different found
        exact elsewhere (other + 1) e f (fun same => different (Nat.succ.inj same)) found

end Related

end Agar.Lib
