import Agar.Gui.Treetbl

namespace Agar.Gui

open Agar.Lib OrderedForest

/-!
# The rows that the operations of a tree table reach

A click follows the pointers of `visible.items`, which `AG_TreetblDelRow`
leaves as they are until the next redraw.  All other operations are given rows
of the tree, and reach only such rows.
-/

namespace Treetbl

/-- The calls on a table, and what its user does -/
inductive Call where
  | addRow
      (pRow : Option TreetblRowRef)
      (rowID : Int)
      (self : TreetblRowRef)
      (granted : Bool)
  | delRow (row : TreetblRowRef)
  | clearRows
  | expandRow (row : TreetblRowRef)
  | collapseRow (row : TreetblRowRef)
  | selectRow (row : TreetblRowRef)
  | deselectRow (row : Option TreetblRowRef)
  | click
      (kmod : KeyMod)
      (x y : Int)
  | doubleClickTimeout
  | draw
  | scroll (value : Int)
  | scrollColumns (value : Int)
  | sizeAllocate
      (column : List TreetblCol)
      (rW rH : Int)

/-- Make a call, where it reaches only rows of the tree. -/
def step (tt : Treetbl) : Call → Option Treetbl
  | .addRow pRow rowID self granted => (tt.addRow pRow rowID self granted).toOption
  | .delRow row => (tt.delRow row).toOption
  | .clearRows => tt.clearRows.toOption
  | .expandRow row => (tt.expandRow row).toOption
  | .collapseRow row => (tt.collapseRow row).toOption
  | .selectRow row => (tt.selectRow row).toOption
  | .deselectRow row => (tt.deselectRow row).toOption
  | .click kmod x y => (tt.mouseButtonDown kmod x y).toOption
  | .doubleClickTimeout => some { tt with dblClicked := false }
  | .draw => some tt.draw
  | .scroll value => some { tt with vBarValue := value, dirty := true }
  | .scrollColumns value => some { tt with hBarValue := value }
  | .sizeAllocate column rW rH => some (tt.sizeAllocate column rW rH)

/-- Calls are about rows of the tree, and new rows have new addresses. -/
def Admitted (tt : Treetbl) : Call → Prop
  | .addRow pRow _ self _ =>
    (∀ p, pRow = some p → p ∈ tt.rowRefs) ∧ self ∉ tt.rowRefs ∧ self ∉ tt.backstore.map (·.self)
  | .delRow row | .expandRow row | .collapseRow row | .selectRow row => row ∈ tt.rowRefs
  | .deselectRow row => ∀ r, row = some r → r ∈ tt.rowRefs
  | .clearRows | .click .. | .doubleClickTimeout | .draw | .scroll _
  | .scrollColumns _ | .sizeAllocate .. => True

/-- Rows of the tree have different addresses. -/
def Sound (tt : Treetbl) : Prop := tt.rowRefs.Nodup

/-- What a click on a row finds -/
structure Target where
  rowIdx : Nat
  row : TreetblRowRef
  depth : Nat
  col : TreetblCol
  x1 : Int

/-- The row in the view that is under a position -/
def target (tt : Treetbl) (x y : Int) : Option Target :=
  if tt.hCol > 0 ∧ y < tt.hCol then none
  else
    match tt.columnUnder x with
    | none => none
    | some (x1, _, col) =>
      match slotUnder tt.hRow y tt.items 0 tt.hCol with
      | none | some (_, none) => none
      | some (rowIdx, some (row, depth)) => some ⟨rowIdx, row, depth, col, x1⟩

/-- A slot of the view is empty or shows a row of the tree. -/
def SlotInTree (tt : Treetbl) (slot : Option (TreetblRowRef × Nat)) : Prop :=
  ∀ row depth, slot = some (row, depth) → row ∈ tt.rowRefs

/-- A slot of the view shows a selected row of the tree. -/
def slotSelected (tt : Treetbl) (slot : Option (TreetblRowRef × Nat)) : Bool :=
  slot.any fun shown => (locate TreetblRow.self shown.1 [] tt.children).any (·.label.selected)

/--
The slots of the view up to the first one with a selected row, and from there
to the one that is clicked, show rows of the tree.
-/
def RangeInTree (tt : Treetbl) (rowIdx : Nat) : Prop :=
  (∀ slot ∈ tt.items.takeWhile (! tt.slotSelected ·), tt.SlotInTree slot) ∧
    ∀ j, tt.items.findIdx? tt.slotSelected = some j →
      ∀ slot ∈ tt.slotsBetween (min j rowIdx) (max j rowIdx), tt.SlotInTree slot

/-- A click that selects a range -/
def ClicksRange (tt : Treetbl) (kmod : KeyMod) : Prop :=
  tt.flags.multiToggle = false ∧ kmod.ctrlOrMeta = false ∧ kmod.shift = true

/-- The click is on the button of the row at a place, which has children. -/
def OnButton (tt : Treetbl) (found : Target) (x : Int) (place : Place TreetblRow) : Prop :=
  tt.OnExpander found.col found.x1 x found.depth ∧ place.children ≠ .empty

/-- A click is on the button of a row that it finds in the tree. -/
def HitsExpander (tt : Treetbl) (found : Target) (x : Int) : Prop :=
  ∃ place, locate TreetblRow.self found.row [] tt.children = some place ∧ tt.OnButton found x place

/--
When a click meets rows of the tree only: the one in the slot that is clicked
and, where it selects a range, those in the slots of the range.
-/
def ClickInTree (tt : Treetbl) (kmod : KeyMod) (x y : Int) : Prop :=
  ∀ found, tt.target x y = some found → found.row ∈ tt.rowRefs ∧
      (tt.ClicksRange kmod → ¬ tt.HitsExpander found x → tt.RangeInTree found.rowIdx)

/-- When a call meets rows of the tree only -/
def InTree (tt : Treetbl) : Call → Prop
  | .click kmod x y => tt.ClickInTree kmod x y
  | _ => True

variable {tt next : Treetbl} {row : TreetblRowRef} {place : Place TreetblRow}

/-! ## Pointers to rows -/

theorem access_eq_ok : tt.access row = .ok place ↔
      locate TreetblRow.self row [] tt.children = some place := by
  unfold access
  cases locate TreetblRow.self row [] tt.children <;> simp

theorem exists_access (inTree : row ∈ tt.rowRefs) : ∃ place, tt.access row = .ok place := by
  obtain ⟨place, located⟩ := exists_locate [] inTree
  exact ⟨place, access_eq_ok.mpr located⟩

theorem mem_rowRefs_of_access (accessed : tt.access row = .ok place) : row ∈ tt.rowRefs :=
  mem_keys_of_locate (access_eq_ok.mp accessed)

variable {x : Int}

theorem hitsExpander_iff {found : Target} (accessed : tt.access found.row = .ok place) :
    tt.HitsExpander found x ↔ tt.OnButton found x place := by
  unfold HitsExpander
  rw [access_eq_ok.mp accessed]
  simp

/-! ## Changes of the selection -/

/-- The rows without their selection -/
def unselected (q : TreetblRowQ) : TreetblRowQ := map ({ · with selected := false }) q

theorem keys_unselected (q : TreetblRowQ) :
    keys TreetblRow.self (unselected q) = keys TreetblRow.self q :=
  keys_map (f := ({ · with selected := false })) (fun _ => rfl) q

theorem unselected_deselectAll (q : TreetblRowQ) : unselected (deselectAll q) = unselected q := by
  induction q with
  | empty => rfl
  | node row children next childrenIh nextIh =>
    unfold unselected at *
    rw [deselectAll, map, map, nextIh]
    split
    case isTrue => rw [childrenIh]
    case isFalse => rfl

/-- Only the selection of rows is different. -/
def SameRows (tt next : Treetbl) : Prop :=
  ∃ children, next = { tt with children := children } ∧ unselected children = unselected tt.children

theorem SameRows.refl (tt : Treetbl) : tt.SameRows tt := ⟨tt.children, rfl, rfl⟩

theorem SameRows.trans {third : Treetbl} (first : tt.SameRows next) (second : next.SameRows third) :
    tt.SameRows third := by
  obtain ⟨children, rfl, same⟩ := first
  obtain ⟨later, rfl, sameToo⟩ := second
  exact ⟨later, rfl, sameToo.trans same⟩

theorem SameRows.rowRefs (same : tt.SameRows next) : next.rowRefs = tt.rowRefs := by
  obtain ⟨children, rfl, sameRows⟩ := same
  unfold Treetbl.rowRefs
  rw [← keys_unselected, sameRows, keys_unselected]

/-- The view shows the same rows, all of which are still in the tree. -/
structure SameSlots (tt next : Treetbl) : Prop where
  flags : next.flags = tt.flags
  items : next.items = tt.items
  rowRefs : next.rowRefs = tt.rowRefs
  dirty : next.dirty = false → tt.dirty = false

theorem SameSlots.trans {third : Treetbl} (first : tt.SameSlots next)
    (second : next.SameSlots third) : tt.SameSlots third :=
  ⟨second.flags.trans first.flags, second.items.trans first.items,
    second.rowRefs.trans first.rowRefs,
    fun clean => first.dirty (second.dirty clean)⟩

theorem SameRows.sameSlots (same : tt.SameRows next) : tt.SameSlots next := by
  have rowRefs := same.rowRefs
  obtain ⟨children, rfl, _⟩ := same
  exact ⟨rfl, rfl, rowRefs, fun clean => clean⟩

theorem sameRows_deselectAll (tt : Treetbl) :
    tt.SameRows { tt with children := deselectAll tt.children } :=
  ⟨_, rfl, unselected_deselectAll tt.children⟩

theorem unselected_adjust {change : TreetblRow → TreetblRowQ → TreetblRowQ → TreetblRowQ}
    (keeps : ∀ label children next, unselected (change label children next) =
          unselected (node label children next)) (row : TreetblRowRef) (q : TreetblRowQ) :
    unselected (adjust TreetblRow.self row change q) = unselected q :=
  map_adjust keeps row q

theorem sameRows_setRow (tt : Treetbl) (row : TreetblRowRef) (selected : Bool) :
    tt.SameRows (tt.setRow row ({ · with selected := selected })) := by
  refine ⟨_, rfl, unselected_adjust ?_ row tt.children⟩
  exact fun _ _ _ => rfl

theorem sameRows_setChildren (tt : Treetbl) (row : TreetblRowRef) :
    tt.SameRows (tt.setChildren row deselectAll) := by
  refine ⟨_, rfl, unselected_adjust (fun label children next => ?_) row _⟩
  have same := unselected_deselectAll children
  unfold unselected at *
  rw [map, map, same]

/-! ## Slots of the view -/

theorem selectSlots_eq_ok (slots : List (Option (TreetblRowRef × Nat))) (tt : Treetbl) :
    (∃ next, tt.selectSlots slots = .ok next) ↔ ∀ slot ∈ slots, tt.SlotInTree slot := by
  induction slots generalizing tt with
  | nil => exact ⟨fun _ _ => nofun, fun _ => ⟨tt, rfl⟩⟩
  | cons slot rest ih =>
    rw [List.forall_mem_cons]
    rcases slot with _ | ⟨row, depth⟩
    · rw [selectSlots, ih]
      exact ⟨fun later => ⟨fun _ _ => nofun, later⟩, fun both => both.2⟩
    · have later : (∀ slot ∈ rest, (tt.setRow row ({ · with selected := true })).SlotInTree slot) ↔
            ∀ slot ∈ rest, tt.SlotInTree slot := by
        unfold SlotInTree
        rw [(sameRows_setRow tt row true).rowRefs]
      rw [selectSlots, ← later, ← ih]
      constructor
      · rintro ⟨next, selected⟩
        obtain ⟨place, accessed, rest⟩ := bind_eq_ok.mp selected
        refine ⟨?_, next, rest⟩
        rintro _ _ ⟨⟩
        exact mem_rowRefs_of_access accessed
      · rintro ⟨inTree, next, selected⟩
        obtain ⟨place, accessed⟩ := exists_access (inTree row depth rfl)
        exact ⟨next, bind_eq_ok.mpr ⟨place, accessed, selected⟩⟩

theorem selectSlots_sameRows {slots : List (Option (TreetblRowRef × Nat))}
    (selected : tt.selectSlots slots = .ok next) : tt.SameRows next := by
  induction slots generalizing tt with
  | nil =>
    cases selected
    exact SameRows.refl _
  | cons slot rest ih =>
    rcases slot with _ | ⟨row, depth⟩
    · exact ih selected
    · obtain ⟨_, _, later⟩ := bind_eq_ok.mp selected
      exact (sameRows_setRow tt row true).trans (ih later)

theorem slotSelected_of_access (accessed : tt.access row = .ok place) (depth : Nat) :
    tt.slotSelected (some (row, depth)) = place.label.selected := by
  unfold slotSelected
  rw [Option.any_some, access_eq_ok.mp accessed, Option.any_some]

theorem slotSelected_of_notMem (outside : row ∉ tt.rowRefs) (depth : Nat) :
    tt.slotSelected (some (row, depth)) = false := by
  unfold slotSelected
  rw [Option.any_some, locate_eq_none.mpr outside, Option.any_none]

theorem firstSelected_eq_ok (slots : List (Option (TreetblRowRef × Nat))) (j : Nat)
    (found : Option Nat) :
    tt.firstSelected slots j = .ok found ↔
      (∀ slot ∈ slots.takeWhile (! tt.slotSelected ·), tt.SlotInTree slot) ∧
        found = (slots.findIdx? tt.slotSelected).map (· + j) := by
  induction slots generalizing j with
  | nil =>
    rw [firstSelected, Except.ok.injEq]
    exact ⟨fun same => ⟨fun _ => nofun, same.symm⟩, fun both => both.2.symm⟩
  | cons slot rest ih =>
    have later : ((rest.findIdx? tt.slotSelected).map (· + 1)).map (· + j) =
          (rest.findIdx? tt.slotSelected).map (· + (j + 1)) := by
      rw [Option.map_map]
      congr 1
      funext i
      exact Nat.add_right_comm i 1 j
    rw [List.findIdx?_cons, List.takeWhile_cons]
    rcases slot with _ | ⟨row, depth⟩
    · rw [firstSelected, ih]
      change _ ↔ (∀ slot ∈ none :: rest.takeWhile _, _) ∧ found = _
      rw [List.forall_mem_cons]
      change _ ↔ _ ∧ found = ((rest.findIdx? tt.slotSelected).map (· + 1)).map (· + j)
      rw [later]
      exact ⟨fun both => ⟨⟨fun _ _ => nofun, both.1⟩, both.2⟩, fun both => ⟨both.1.2, both.2⟩⟩
    · by_cases inTree : row ∈ tt.rowRefs
      · obtain ⟨place, accessed⟩ := exists_access inTree
        have inTreeToo : tt.SlotInTree (some (row, depth)) := by
          rintro _ _ ⟨⟩
          exact inTree
        rw [slotSelected_of_access accessed, firstSelected, accessed]
        change (if place.label.selected then _ else _) = _ ↔ _
        cases place.label.selected with
        | true =>
          rw [if_pos rfl, pure_eq_ok]
          exact ⟨fun same => ⟨fun _ => nofun, same ▸ by simp⟩, fun both => by rw [both.2]; simp⟩
        | false =>
          rw [if_neg Bool.false_ne_true, ih]
          change _ ↔ (∀ slot ∈ _ :: rest.takeWhile _, _) ∧
            found = ((rest.findIdx? tt.slotSelected).map (· + 1)).map (· + j)
          rw [List.forall_mem_cons, later]
          exact ⟨fun both => ⟨⟨inTreeToo, both.1⟩, both.2⟩, fun both => ⟨both.1.2, both.2⟩⟩
      · rw [slotSelected_of_notMem inTree, firstSelected]
        constructor
        · intro defined
          obtain ⟨_, accessed, _⟩ := bind_eq_ok.mp defined
          exact absurd (mem_rowRefs_of_access accessed) inTree
        · rintro ⟨inTreeToo, _⟩
          exact absurd (inTreeToo _ List.mem_cons_self row depth rfl) inTree

theorem clickedShift_iff (rowIdx : Nat) : tt.clickedShift rowIdx = .ok next ↔
      (∀ slot ∈ tt.items.takeWhile (! tt.slotSelected ·), tt.SlotInTree slot) ∧
        (tt.items.findIdx? tt.slotSelected = none ∧ next = tt ∨ ∃ j,
            tt.items.findIdx? tt.slotSelected = some j ∧ tt.selectSlots
                  (tt.slotsBetween (min j rowIdx) (max j rowIdx)) =
                .ok next) := by
  have found : ∀ result, tt.firstSelected tt.items 0 = .ok result ↔
        (∀ slot ∈ tt.items.takeWhile (! tt.slotSelected ·), tt.SlotInTree slot) ∧
          result = tt.items.findIdx? tt.slotSelected := by
    intro result
    rw [firstSelected_eq_ok]
    simp
  have range : ∀ j, (if j < rowIdx then
            tt.selectSlots (tt.slotsBetween j rowIdx)
          else tt.selectSlots (tt.slotsBetween rowIdx j)) =
          tt.selectSlots (tt.slotsBetween (min j rowIdx) (max j rowIdx)) := by
    intro j
    split
    case isTrue less => rw [Nat.min_eq_left less.le, Nat.max_eq_right less.le]
    case isFalse notLess =>
      have least := Nat.le_of_not_lt notLess
      rw [Nat.min_eq_right least, Nat.max_eq_left least]
  unfold clickedShift
  rw [bind_eq_ok]
  simp only [found, and_assoc, exists_and_left, exists_eq_left]
  refine and_congr_right fun _ => ?_
  cases tt.items.findIdx? tt.slotSelected with
  | none =>
    simp only [false_and, exists_false, or_false, true_and, reduceCtorEq]
    exact pure_eq_ok.trans eq_comm
  | some j => simp [range]

theorem clickedShift_eq_ok (rowIdx : Nat) :
    (∃ next, tt.clickedShift rowIdx = .ok next) ↔ tt.RangeInTree rowIdx := by
  simp only [clickedShift_iff, exists_and_left]
  refine and_congr_right fun _ => ?_
  cases tt.items.findIdx? tt.slotSelected with
  | none => simp
  | some j => simp [selectSlots_eq_ok]

variable {rowIdx : Nat}

theorem clickedShift_sameRows (clicked : tt.clickedShift rowIdx = .ok next) : tt.SameRows next := by
  obtain ⟨_, ⟨_, rfl⟩ | ⟨j, _, selected⟩⟩ := (clickedShift_iff _).mp clicked
  · exact SameRows.refl _
  · exact selectSlots_sameRows selected

/-! ## Clicks -/

theorem rowRefs_setRow {change : TreetblRow → TreetblRow}
    (keeps : ∀ row, (change row).self = row.self) (tt : Treetbl) (row : TreetblRowRef) :
    (tt.setRow row change).rowRefs = tt.rowRefs := by
  apply keys_adjust
  intro label children next
  rw [keys_node, keys_node, keeps]

theorem sameSlots_setRow {change : TreetblRow → TreetblRow}
    (keeps : ∀ row, (change row).self = row.self) (tt : Treetbl) (row : TreetblRowRef) :
    tt.SameSlots (tt.setRow row change) :=
  ⟨rfl, rfl, rowRefs_setRow keeps tt row, fun clean => clean⟩

theorem SameSlots.count (same : tt.SameSlots next) (nExpandedRows : Int) :
    tt.SameSlots { next with nExpandedRows := nExpandedRows, dirty := true } :=
  ⟨same.flags, same.items, same.rowRefs, fun clean => nomatch clean⟩

theorem expandAt_sameSlots (tt : Treetbl) (row : TreetblRowRef) (place : Place TreetblRow) :
    tt.SameSlots (tt.expandAt row place) := by
  have changed : tt.SameSlots (tt.setRow row ({ · with expanded := true })) := by
    apply sameSlots_setRow
    exact fun _ => rfl
  unfold expandAt
  split
  · exact (SameRows.refl tt).sameSlots
  · dsimp only
    split
    · exact changed.count _
    · exact changed

theorem collapseAt_sameSlots (tt : Treetbl) (row : TreetblRowRef) (place : Place TreetblRow) :
    tt.SameSlots (tt.collapseAt row place) := by
  have changed : tt.SameSlots (tt.setRow row ({ · with expanded := false })) := by
    apply sameSlots_setRow
    exact fun _ => rfl
  unfold collapseAt
  split
  · dsimp only
    split
    · exact changed.count _
    · exact changed
  · exact (SameRows.refl tt).sameSlots

theorem clickedAgain_sameSlots (tt : Treetbl) (row : TreetblRowRef) (place : Place TreetblRow) :
    tt.SameSlots (tt.clickedAgain row place) := by
  unfold clickedAgain
  split
  · split
    · exact collapseAt_sameSlots tt row place
    · exact expandAt_sameSlots tt row place
  · exact ((sameRows_deselectAll tt).trans (sameRows_setRow _ row true)).sameSlots

theorem clickedExpander_sameSlots (tt : Treetbl) (row : TreetblRowRef) (place : Place TreetblRow) :
    tt.SameSlots (tt.clickedExpander row place) := by
  have changed : ∀ expanded, tt.SameSlots (tt.setRow row ({ · with expanded := expanded })) := by
    intro expanded
    apply sameSlots_setRow
    exact fun _ => rfl
  unfold clickedExpander
  split
  · exact ((changed false).trans (sameRows_setChildren _ row).sameSlots).count _
  · exact (changed true).count _

theorem clickedToggle_sameRows (tt : Treetbl) (row : TreetblRowRef) (place : Place TreetblRow) :
    tt.SameRows (tt.clickedToggle row place) := by
  unfold clickedToggle
  split
  · exact sameRows_setRow tt row false
  · split
    · exact (sameRows_deselectAll tt).trans (sameRows_setRow _ row true)
    · exact sameRows_setRow tt row true

theorem clickedSelect_eq_ok (inTree : row ∈ tt.rowRefs) (kmod : KeyMod) (rowIdx : Nat) :
    (∃ next, tt.clickedSelect kmod rowIdx row = .ok next) ↔
      (tt.ClicksRange kmod → tt.RangeInTree rowIdx) := by
  unfold clickedSelect ClicksRange
  by_cases toggles : tt.flags.multiToggle = true ∨ kmod.ctrlOrMeta = true
  · obtain ⟨place, accessed⟩ := exists_access inTree
    rw [if_pos toggles, accessed]
    refine ⟨fun _ clicks => ?_, fun _ => ⟨_, rfl⟩⟩
    rw [clicks.1, clicks.2.1] at toggles
    exact absurd toggles (by decide)
  · rw [if_neg toggles]
    rw [not_or, Bool.not_eq_true, Bool.not_eq_true] at toggles
    cases shift : kmod.shift with
    | true =>
      rw [if_pos rfl, clickedShift_eq_ok]
      exact ⟨fun range _ => range, fun range => range ⟨toggles.1, toggles.2, rfl⟩⟩
    | false =>
      have inTreeToo : row ∈ { tt with children := deselectAll tt.children }.rowRefs := by
        rwa [(sameRows_deselectAll tt).rowRefs]
      obtain ⟨place, accessed⟩ := exists_access inTreeToo
      rw [if_neg Bool.false_ne_true]
      refine ⟨fun _ range => (nomatch range.2.2), fun _ => ?_⟩
      exact ⟨_, bind_eq_ok.mpr ⟨place, accessed, rfl⟩⟩

variable {kmod : KeyMod}

theorem clickedSelect_sameRows (clicked : tt.clickedSelect kmod rowIdx row = .ok next) :
    tt.SameRows next := by
  unfold clickedSelect at clicked
  split at clicked
  · obtain ⟨place, _, later⟩ := bind_eq_ok.mp clicked
    cases later
    exact clickedToggle_sameRows tt row place
  · split at clicked
    · exact clickedShift_sameRows clicked
    · obtain ⟨place, _, later⟩ := bind_eq_ok.mp clicked
      cases later
      split
      · exact sameRows_deselectAll tt
      · exact (sameRows_deselectAll tt).trans (sameRows_setRow _ row true)

theorem clickedTwice_eq_ok (inTree : row ∈ tt.rowRefs) :
    ∃ next, tt.clickedTwice row = .ok next ∧ tt.SameSlots next := by
  obtain ⟨place, accessed⟩ := exists_access inTree
  have same := clickedAgain_sameSlots tt row place
  unfold clickedTwice
  split
  · rw [accessed]
    exact ⟨_, rfl, same.flags, same.items, same.rowRefs, same.dirty⟩
  · exact ⟨_, rfl, rfl, rfl, rfl, fun clean => clean⟩

variable {y : Int}

theorem clickedRow_eq_ok {depth : Nat} {col : TreetblCol} {x1 : Int}
    (under : slotUnder tt.hRow y tt.items 0 tt.hCol = some (rowIdx, some (row, depth))) :
    (∃ next, tt.clickedRow kmod col x1 x y = .ok next) ↔ row ∈ tt.rowRefs ∧ (tt.ClicksRange kmod →
          ¬ tt.HitsExpander ⟨rowIdx, row, depth, col, x1⟩ x → tt.RangeInTree rowIdx) := by
  unfold clickedRow
  rw [under]
  dsimp only
  by_cases inTree : row ∈ tt.rowRefs
  · obtain ⟨place, accessed⟩ := exists_access inTree
    rw [accessed]
    rw [hitsExpander_iff accessed, ok_bind]
    unfold OnButton
    split
    case isTrue expander =>
      exact ⟨fun _ => ⟨inTree, fun _ missed => absurd expander missed⟩, fun _ => ⟨_, rfl⟩⟩
    case isFalse missed =>
      have selects : (tt.ClicksRange kmod →
              ¬ (tt.OnExpander col x1 x depth ∧ place.children ≠ .empty) → tt.RangeInTree rowIdx) ↔
            ∃ next, tt.clickedSelect kmod rowIdx row = .ok next := by
        rw [clickedSelect_eq_ok inTree]
        exact ⟨fun range clicks => range clicks missed, fun range clicks _ => range clicks⟩
      rw [selects, and_iff_right inTree]
      constructor
      · rintro ⟨_, defined⟩
        obtain ⟨selected, clicked, _⟩ := bind_eq_ok.mp defined
        exact ⟨selected, clicked⟩
      · rintro ⟨selected, clicked⟩
        have inTreeToo : row ∈ selected.rowRefs := by rwa [(clickedSelect_sameRows clicked).rowRefs]
        obtain ⟨next, twice, _⟩ := clickedTwice_eq_ok inTreeToo
        exact ⟨next, bind_eq_ok.mpr ⟨selected, clicked, twice⟩⟩
  · constructor
    · rintro ⟨_, defined⟩
      obtain ⟨_, accessed, _⟩ := bind_eq_ok.mp defined
      exact absurd (mem_rowRefs_of_access accessed) inTree
    · exact fun both => absurd both.1 inTree

theorem mouseButtonDown_eq (tt : Treetbl) (kmod : KeyMod) (x y : Int) : (∃ found,
        tt.target x y = some found ∧ slotUnder tt.hRow y tt.items 0 tt.hCol =
            some (found.rowIdx, some (found.row, found.depth)) ∧
          tt.mouseButtonDown kmod x y = tt.clickedRow kmod found.col found.x1 x y) ∨
      tt.target x y = none ∧ ∃ next, tt.mouseButtonDown kmod x y = .ok next ∧ (next = tt ∨
              next = { tt with children := deselectAll tt.children }) := by
  unfold mouseButtonDown target
  by_cases header : tt.hCol > 0 ∧ y < tt.hCol
  · rw [if_pos header, if_pos header]
    exact .inr ⟨rfl, tt, rfl, .inl rfl⟩
  · rw [if_neg header, if_neg header]
    cases tt.columnUnder x with
    | none => exact .inr ⟨rfl, tt, rfl, .inl rfl⟩
    | some range =>
      obtain ⟨x1, x2, col⟩ := range
      unfold clickedRow
      dsimp only
      rcases slotUnder tt.hRow y tt.items 0 tt.hCol with
        _ | ⟨rowIdx, _ | ⟨row, depth⟩⟩
      · exact .inr ⟨rfl, _, rfl, .inr rfl⟩
      · exact .inr ⟨rfl, _, rfl, .inr rfl⟩
      · exact .inl ⟨_, rfl, rfl, rfl⟩

theorem mouseButtonDown_eq_ok (tt : Treetbl) (kmod : KeyMod) (x y : Int) :
    (∃ next, tt.mouseButtonDown kmod x y = .ok next) ↔ tt.ClickInTree kmod x y := by
  unfold ClickInTree
  rcases mouseButtonDown_eq tt kmod x y with
    ⟨found, targeted, under, same⟩ | ⟨untargeted, next, same, _⟩
  · rw [same, clickedRow_eq_ok under, targeted]
    simp only [Option.some.injEq, forall_eq']
  · rw [untargeted]
    exact ⟨fun _ => nofun, fun _ => ⟨next, same⟩⟩

theorem clickedTwice_cases (clicked : tt.clickedTwice row = .ok next) :
    tt.dblClicked = false ∧ next = { tt with dblClicked := true } ∨ tt.dblClicked = true ∧ ∃ place,
          tt.access row = .ok place ∧
            next = { tt.clickedAgain row place with dblClicked := false } := by
  unfold clickedTwice at clicked
  split at clicked
  case isTrue twice =>
    obtain ⟨place, accessed, same⟩ := bind_eq_ok.mp clicked
    cases same
    exact .inr ⟨twice, place, accessed, rfl⟩
  case isFalse once =>
    cases clicked
    exact .inl ⟨Bool.eq_false_of_not_eq_true once, rfl⟩

theorem mouseButtonDown_cases (clicked : tt.mouseButtonDown kmod x y = .ok next) :
    tt.target x y = none ∧ (next = tt ∨ next = { tt with children := deselectAll tt.children }) ∨
      ∃ found place, tt.target x y = some found ∧ tt.access found.row = .ok place ∧
          (tt.OnButton found x place ∧ next = tt.clickedExpander found.row place ∨
            ¬ tt.OnButton found x place ∧ ∃ selected,
                tt.clickedSelect kmod found.rowIdx found.row = .ok selected ∧
                  selected.clickedTwice found.row = .ok next) := by
  rcases mouseButtonDown_eq tt kmod x y with
    ⟨found, targeted, under, same⟩ | ⟨untargeted, after, same, cleared⟩
  · rw [same] at clicked
    unfold clickedRow at clicked
    rw [under] at clicked
    obtain ⟨place, accessed, later⟩ := bind_eq_ok.mp clicked
    refine .inr ⟨found, place, targeted, accessed, ?_⟩
    split at later
    case isTrue button =>
      cases later
      exact .inl ⟨button, rfl⟩
    case isFalse elsewhere => exact .inr ⟨elsewhere, bind_eq_ok.mp later⟩
  · cases same.symm.trans clicked
    exact .inl ⟨untargeted, cleared⟩

theorem mouseButtonDown_sameSlots (clicked : tt.mouseButtonDown kmod x y = .ok next) :
    tt.SameSlots next := by
  rcases mouseButtonDown_cases clicked with
    ⟨_, rfl | rfl⟩ | ⟨found, place, _, accessed, byButton | elsewhere⟩
  · exact (SameRows.refl next).sameSlots
  · exact (sameRows_deselectAll tt).sameSlots
  · rw [byButton.2]
    exact clickedExpander_sameSlots tt found.row place
  · obtain ⟨_, selected, first, twice⟩ := elsewhere
    have sameRows := clickedSelect_sameRows first
    have inTree := sameRows.rowRefs ▸ mem_rowRefs_of_access accessed
    obtain ⟨last, lastTwice, same⟩ := clickedTwice_eq_ok inTree
    cases lastTwice.symm.trans twice
    exact sameRows.sameSlots.trans same

/-! ## Additions -/

/-- The rows with a new one, below a row of the tree or at the end -/
def withRow (children : TreetblRowQ) (pRow : Option TreetblRowRef)
    (row : TreetblRow) : TreetblRowQ :=
  match pRow with
  | some p =>
    adjust TreetblRow.self p (fun label children next => .node label (insertTail row children) next)
      children
  | none => insertTail row children

/-- The ancestors that a new row gets -/
def aboveRow (children : TreetblRowQ) : Option TreetblRowRef → List TreetblRow
  | some p =>
    match locate TreetblRow.self p [] children with
    | some place => place.label :: place.above
    | none => []
  | none => []

variable {pRow : Option TreetblRowRef}

theorem paths_withRow (sound : tt.Sound) (inTree : ∀ p, pRow = some p → p ∈ tt.rowRefs)
    (row : TreetblRow) :
    (paths [] (withRow tt.children pRow row)).Perm
      ((row, aboveRow tt.children pRow) :: paths [] tt.children) := by
  cases pRow with
  | none =>
    rw [withRow, aboveRow, paths_insertTail]
    exact List.perm_append_singleton _ _
  | some p =>
    obtain ⟨place, located⟩ := exists_locate [] (inTree p rfl)
    rw [withRow, aboveRow, located]
    exact paths_insertBelow sound located

theorem rowRefs_withRow (sound : tt.Sound) (inTree : ∀ p, pRow = some p → p ∈ tt.rowRefs)
    (row : TreetblRow) :
    (keys TreetblRow.self (withRow tt.children pRow row)).Perm (row.self :: tt.rowRefs) := by
  have added := (paths_withRow sound inTree row).map fun path => path.1.self
  have keysOfPaths : ∀ q : TreetblRowQ, (paths [] q).map (fun path => path.1.self) =
          keys TreetblRow.self q := by
    intro q
    rw [keys, ← map_fst_paths [], List.map_map]
    rfl
  rwa [List.map_cons, keysOfPaths, keysOfPaths] at added

/-- The table with a new row -/
def added (tt : Treetbl) (pRow : Option TreetblRowRef) (row : TreetblRow) : Treetbl :=
  { tt with
    children := withRow tt.children pRow row
    nExpandedRows :=
      if (aboveRow tt.children pRow).all (·.expanded) then tt.nExpandedRows + 1
      else tt.nExpandedRows
    dirty := true }

theorem sound_added (sound : tt.Sound) (inTree : ∀ p, pRow = some p → p ∈ tt.rowRefs)
    {row : TreetblRow} (fresh : row.self ∉ tt.rowRefs) : (tt.added pRow row).Sound :=
  (rowRefs_withRow sound inTree row).nodup_iff.mpr (List.nodup_cons.mpr ⟨fresh, sound⟩)

theorem addRow_eq {rowID : Int} {self : TreetblRowRef} {granted : Bool} (sound : tt.Sound)
    (inTree : ∀ p, pRow = some p → p ∈ tt.rowRefs) (fresh : self ∉ tt.rowRefs) :
    tt.addRow pRow rowID self granted = .ok (if tt.flags.noDupChecks = false ∧ tt.lookupRow rowID ∨
            granted = false then
          tt
        else
          tt.added pRow ⟨self, rowID, false, false⟩) := by
  unfold addRow
  by_cases duplicate : tt.flags.noDupChecks = false ∧ tt.lookupRow rowID
  · rw [if_pos duplicate, if_pos (.inl duplicate)]
  · rw [if_neg duplicate]
    cases granted with
    | false => rw [if_pos rfl, if_pos (.inr rfl)]
    | true =>
      have adds : ¬ (tt.flags.noDupChecks = false ∧ tt.lookupRow rowID ∨ true = false) := by
        simpa using duplicate
      rw [if_neg (by decide), if_neg adds]
      have inserted := paths_withRow sound inTree ⟨self, rowID, false, false⟩
      obtain ⟨place, located, _, above⟩ :=
        locate_of_mem_paths (sound_added sound inTree fresh)
          (inserted.mem_iff.mpr List.mem_cons_self)
      have visible : rowIsVisible place = (aboveRow tt.children pRow).all (·.expanded) := by
        rw [rowIsVisible, above]
      unfold added
      rw [← visible]
      cases pRow with
      | none => exact bind_eq_ok.mpr ⟨_, rfl, bind_eq_ok.mpr ⟨place, access_eq_ok.mpr located, rfl⟩⟩
      | some p =>
        obtain ⟨parent, accessed⟩ := exists_access (inTree p rfl)
        refine bind_eq_ok.mpr ⟨parent, accessed, bind_eq_ok.mpr ⟨_, rfl, ?_⟩⟩
        exact bind_eq_ok.mpr ⟨place, access_eq_ok.mpr located, rfl⟩

/-! ## Removals -/

theorem paths_removeAt (sound : tt.Sound) (accessed : tt.access row = .ok place)
    (childless : place.children = .empty) :
    ((place.label, place.above) :: paths [] (tt.removeAt row place).children).Perm
      (paths [] tt.children) :=
  paths_remove sound (access_eq_ok.mp accessed) childless

theorem rowRefs_removeAt (sound : tt.Sound) (accessed : tt.access row = .ok place)
    (childless : place.children = .empty) :
    (row :: (tt.removeAt row place).rowRefs).Perm tt.rowRefs := by
  have removed := (paths_removeAt sound accessed childless).map fun path => path.1.self
  have keysOfPaths : ∀ q : TreetblRowQ, (paths [] q).map (fun path => path.1.self) =
          keys TreetblRow.self q := by
    intro q
    rw [keys, ← map_fst_paths [], List.map_map]
    rfl
  rw [List.map_cons, keysOfPaths, keysOfPaths, key_of_locate (access_eq_ok.mp accessed)] at removed
  exact removed

theorem sound_removeAt (sound : tt.Sound) (accessed : tt.access row = .ok place)
    (childless : place.children = .empty) : (tt.removeAt row place).Sound :=
  (List.nodup_cons.mp ((rowRefs_removeAt sound accessed childless).nodup_iff.mpr sound)).2

theorem removeRow_eq (accessed : tt.access row = .ok place) :
    tt.removeRow row = .ok (tt.removeAt row place) := by
  unfold removeRow
  rw [accessed]
  rfl

/-- The queue of rows of the table, or the one below a row -/
def queue (tt : Treetbl) (parent : Option TreetblRowRef) (q : TreetblRowQ) : Prop :=
  match parent with
  | none => tt.children = q
  | some row => ∃ place, locate TreetblRow.self row [] tt.children = some place ∧ place.children = q

/-- The rows with another queue in the table, or below a row -/
def withQueue (children : TreetblRowQ) (parent : Option TreetblRowRef)
    (q : TreetblRowQ) : TreetblRowQ :=
  match parent with
  | none => q
  | some row => adjust TreetblRow.self row (fun label _ next => .node label q next) children

variable {parent : Option TreetblRowRef}

theorem locate_of_queue {first : TreetblRow} {children rest : TreetblRowQ} (sound : tt.Sound)
    (queued : tt.queue parent (.node first children rest)) :
    ∃ place, tt.access first.self = .ok place ∧ place.children = children ∧ place.next = rest := by
  cases parent with
  | none =>
    refine ⟨⟨[], first, children, rest⟩, access_eq_ok.mpr ?_, rfl, rfl⟩
    rw [show tt.children = _ from queued, locate, if_pos rfl]
  | some row =>
    obtain ⟨parentPlace, located, same⟩ := queued
    refine ⟨⟨parentPlace.label :: parentPlace.above, first, children, rest⟩,
      access_eq_ok.mpr ?_, rfl, rfl⟩
    have below : first.self ∈ keys TreetblRow.self parentPlace.children := by
      rw [same, keys_node]
      exact List.mem_cons_self
    rw [locate_below sound located below, same, locate, if_pos rfl]

theorem withQueue_removed {first : TreetblRow} {children rest : TreetblRowQ} (sound : tt.Sound)
    (queued : tt.queue parent (.node first children rest)) :
    adjust TreetblRow.self first.self (fun _ _ next => next)
        (withQueue tt.children (some first.self) .empty) =
      withQueue tt.children parent rest := by
  have both : adjust TreetblRow.self first.self (fun _ _ next => next)
          (withQueue tt.children (some first.self) .empty) =
        adjust TreetblRow.self first.self (fun _ _ next => next)
          tt.children :=
    adjust_adjust (fun _ => .empty) sound
  rw [both]
  cases parent with
  | none => rw [show tt.children = _ from queued, withQueue, adjust, if_pos rfl]
  | some row =>
    obtain ⟨place, located, same⟩ := queued
    have below : first.self ∈ keys TreetblRow.self place.children := by
      rw [same, keys_node]
      exact List.mem_cons_self
    rw [adjust_below sound located below, withQueue]
    refine adjust_congr sound located ?_
    rw [same, adjust, if_pos rfl]

theorem queue_withQueue {q : TreetblRowQ} (queued : tt.queue parent q) (other : TreetblRowQ)
    (same : next.children = withQueue tt.children parent other) : next.queue parent other := by
  cases parent with
  | none => exact same
  | some row =>
    obtain ⟨place, located, _⟩ := queued
    obtain ⟨later, found⟩ := locate_adjust_children (fun _ => other) located
    refine ⟨⟨place.above, place.label, other, later⟩, ?_, rfl⟩
    rw [same]
    exact found

theorem withQueue_withQueue (sound : tt.Sound) (parent : Option TreetblRowRef)
    (q other : TreetblRowQ) :
    withQueue (withQueue tt.children parent q) parent other =
      withQueue tt.children parent other := by
  cases parent with
  | none => rfl
  | some row => exact adjust_adjust (fun _ => q) sound

theorem delRows_rule {keeps : Treetbl → Prop}
    (kept : ∀ tt row place, tt.Sound → keeps tt → tt.access row = .ok place →
          place.children = .empty → keeps (tt.removeAt row place)) {q : TreetblRowQ}
    (sound : tt.Sound) (initially : keeps tt) (queued : tt.queue parent q) :
    ∃ next, delRows q tt = .ok next ∧ next.Sound ∧ keeps next ∧
        next.children = withQueue tt.children parent .empty := by
  induction q generalizing parent tt with
  | empty =>
    refine ⟨tt, rfl, sound, initially, ?_⟩
    cases parent with
    | none => exact queued
    | some row =>
      obtain ⟨place, located, same⟩ := queued
      have unchanged : withQueue tt.children (some row) .empty =
            adjust TreetblRow.self row .node tt.children :=
        adjust_congr sound located (by rw [same])
      rw [unchanged, adjust_node]
  | node first children rest childrenIh restIh =>
    obtain ⟨place, accessed, sameChildren, _⟩ := locate_of_queue sound queued
    have ofFirst : tt.queue (some first.self) children :=
      ⟨place, access_eq_ok.mp accessed, sameChildren⟩
    obtain ⟨without, deleted, withoutSound, withoutKeeps, withoutChildren⟩ :=
      childrenIh sound initially ofFirst
    obtain ⟨childless, located, noChildren⟩ := queue_withQueue ofFirst .empty withoutChildren
    have reached := access_eq_ok.mpr located
    have removedChildren : (without.removeAt first.self childless).children =
          withQueue tt.children parent rest := by
      rw [← withQueue_removed sound queued, ← withoutChildren]
      rfl
    obtain ⟨next, restDeleted, nextSound, nextKeeps, nextChildren⟩ :=
      restIh (sound_removeAt withoutSound reached noChildren)
        (kept _ _ _ withoutSound withoutKeeps reached noChildren)
        (queue_withQueue queued rest removedChildren)
    refine ⟨next, ?_, nextSound, nextKeeps, ?_⟩
    · exact bind_eq_ok.mpr ⟨without, deleted, bind_eq_ok.mpr ⟨_, removeRow_eq reached, restDeleted⟩⟩
    · rw [nextChildren, removedChildren, withQueue_withQueue sound]

section Rule

variable (keeps : Treetbl → Prop)
  (kept : ∀ tt row place, tt.Sound → keeps tt → tt.access row = .ok place →
  place.children = .empty → keeps (tt.removeAt row place))

include kept

theorem delRow_rule (sound : tt.Sound) (initially : keeps tt) (inTree : row ∈ tt.rowRefs) :
    ∃ next, tt.delRow row = .ok next ∧ next.Sound ∧ keeps next := by
  obtain ⟨place, accessed⟩ := exists_access inTree
  have queued : tt.queue (some row) place.children := ⟨place, access_eq_ok.mp accessed, rfl⟩
  obtain ⟨without, deleted, withoutSound, withoutKeeps, withoutChildren⟩ :=
    delRows_rule kept sound initially queued
  obtain ⟨childless, located, noChildren⟩ := queue_withQueue queued .empty withoutChildren
  have reached := access_eq_ok.mpr located
  refine ⟨without.removeAt row childless, ?_, sound_removeAt withoutSound reached noChildren,
    kept _ _ _ withoutSound withoutKeeps reached noChildren⟩
  exact bind_eq_ok.mpr ⟨place, accessed, bind_eq_ok.mpr ⟨without, deleted, removeRow_eq reached⟩⟩

theorem clearRows_rule (sound : tt.Sound) (initially : keeps tt) : ∃ without, tt.clearRows =
          .ok { without with children := .empty, nExpandedRows := 0, dirty := true } ∧
        keeps without := by
  have queued : tt.queue none tt.children := rfl
  obtain ⟨without, deleted, _, withoutKeeps, _⟩ := delRows_rule kept sound initially queued
  exact ⟨without, bind_eq_ok.mpr ⟨without, deleted, rfl⟩, withoutKeeps⟩

end Rule

/-! ## Runs -/

theorem expandRow_eq (accessed : tt.access row = .ok place) :
    tt.expandRow row = .ok (tt.expandAt row place) := by
  unfold expandRow
  rw [accessed]
  rfl

theorem collapseRow_eq (accessed : tt.access row = .ok place) :
    tt.collapseRow row = .ok (tt.collapseAt row place) := by
  unfold collapseRow
  rw [accessed]
  rfl

theorem selectRow_sameRows (inTree : row ∈ tt.rowRefs) :
    ∃ next, tt.selectRow row = .ok next ∧ tt.SameRows next := by
  have selects : ∀ first, tt.SameRows first → ∃ next, (first.access row >>= fun _ =>
            pure (first.setRow row ({ · with selected := true }))) = .ok next ∧
            tt.SameRows next := by
    intro first same
    obtain ⟨place, accessed⟩ := exists_access (same.rowRefs ▸ inTree)
    exact ⟨_, bind_eq_ok.mpr ⟨place, accessed, rfl⟩, same.trans (sameRows_setRow first row true)⟩
  unfold selectRow
  split
  · exact selects _ (sameRows_deselectAll tt)
  · exact selects _ (SameRows.refl tt)

theorem deselectRow_sameRows {row : Option TreetblRowRef}
    (inTree : ∀ r, row = some r → r ∈ tt.rowRefs) :
    ∃ next, tt.deselectRow row = .ok next ∧ tt.SameRows next := by
  cases row with
  | none => exact ⟨_, rfl, sameRows_deselectAll tt⟩
  | some row =>
    obtain ⟨place, accessed⟩ := exists_access (inTree row rfl)
    exact ⟨_, bind_eq_ok.mpr ⟨place, accessed, rfl⟩, sameRows_setChildren tt row⟩

theorem Sound.of_rowRefs (sound : tt.Sound) (same : next.rowRefs = tt.rowRefs) : next.Sound := by
  unfold Sound
  rwa [same]

theorem draw_rowRefs (tt : Treetbl) : tt.draw.rowRefs = tt.rowRefs := by
  unfold draw
  split <;> rfl

variable {call : Call}

theorem step_sound (sound : tt.Sound) (admitted : tt.Admitted call) (inTree : tt.InTree call) :
    ∃ next, tt.step call = some next ∧ next.Sound := by
  have defined : ∀ {outcome : Except StaleRow Treetbl},
        (∃ next, outcome = .ok next ∧ next.rowRefs = tt.rowRefs) →
          ∃ next, outcome.toOption = some next ∧ next.Sound := by
    rintro outcome ⟨next, computed, same⟩
    exact ⟨next, toOption_eq_some.mpr computed, sound.of_rowRefs same⟩
  cases call with
  | addRow pRow rowID self granted =>
    refine ⟨_, toOption_eq_some.mpr (addRow_eq sound admitted.1 admitted.2.1), ?_⟩
    split
    · exact sound
    · exact sound_added sound admitted.1 admitted.2.1
  | delRow row =>
    obtain ⟨next, deleted, nextSound, _⟩ :=
      delRow_rule (fun _ => True) (fun _ _ _ _ _ _ _ => trivial) sound trivial admitted
    exact ⟨next, toOption_eq_some.mpr deleted, nextSound⟩
  | clearRows =>
    obtain ⟨without, cleared, _⟩ :=
      clearRows_rule (fun _ => True) (fun _ _ _ _ _ _ _ => trivial) sound trivial
    exact ⟨_, toOption_eq_some.mpr cleared, List.nodup_nil⟩
  | expandRow row =>
    obtain ⟨place, accessed⟩ := exists_access admitted
    exact defined ⟨_, expandRow_eq accessed, (expandAt_sameSlots tt row place).rowRefs⟩
  | collapseRow row =>
    obtain ⟨place, accessed⟩ := exists_access admitted
    exact defined ⟨_, collapseRow_eq accessed, (collapseAt_sameSlots tt row place).rowRefs⟩
  | selectRow row =>
    obtain ⟨next, selected, same⟩ := selectRow_sameRows admitted
    exact defined ⟨next, selected, same.rowRefs⟩
  | deselectRow row =>
    obtain ⟨next, deselected, same⟩ := deselectRow_sameRows admitted
    exact defined ⟨next, deselected, same.rowRefs⟩
  | click kmod x y =>
    obtain ⟨next, clicked⟩ := (mouseButtonDown_eq_ok tt kmod x y).mpr inTree
    exact defined ⟨next, clicked, (mouseButtonDown_sameSlots clicked).rowRefs⟩
  | doubleClickTimeout => exact ⟨_, rfl, sound⟩
  | draw => exact ⟨_, rfl, sound.of_rowRefs (draw_rowRefs tt)⟩
  | scroll value => exact ⟨_, rfl, sound⟩
  | scrollColumns value => exact ⟨_, rfl, sound⟩
  | sizeAllocate column rW rH => exact ⟨_, rfl, sound⟩

theorem step_flags (sound : tt.Sound) (admitted : tt.Admitted call)
    (taken : tt.step call = some next) : next.flags = tt.flags := by
  cases call with
  | addRow pRow rowID self granted =>
    rw [eq_of_toOption taken (addRow_eq sound admitted.1 admitted.2.1)]
    split <;> rfl
  | delRow row =>
    obtain ⟨after, deleted, _, same⟩ :=
      delRow_rule (fun later => later.flags = tt.flags)
        (fun _ _ _ _ same _ _ => same) sound rfl admitted
    rwa [eq_of_toOption taken deleted]
  | clearRows =>
    obtain ⟨without, cleared, same⟩ :=
      clearRows_rule (fun later => later.flags = tt.flags) (fun _ _ _ _ same _ _ => same) sound rfl
    rw [eq_of_toOption taken cleared]
    exact same
  | expandRow row =>
    obtain ⟨place, accessed⟩ := exists_access admitted
    rw [eq_of_toOption taken (expandRow_eq accessed)]
    exact (expandAt_sameSlots tt row place).flags
  | collapseRow row =>
    obtain ⟨place, accessed⟩ := exists_access admitted
    rw [eq_of_toOption taken (collapseRow_eq accessed)]
    exact (collapseAt_sameSlots tt row place).flags
  | selectRow row =>
    obtain ⟨after, selected, same⟩ := selectRow_sameRows admitted
    rw [eq_of_toOption taken selected]
    exact same.sameSlots.flags
  | deselectRow row =>
    obtain ⟨after, deselected, same⟩ := deselectRow_sameRows admitted
    rw [eq_of_toOption taken deselected]
    exact same.sameSlots.flags
  | click kmod x y => exact (mouseButtonDown_sameSlots (toOption_eq_some.mp taken)).flags
  | draw =>
    cases taken
    unfold draw
    split <;> rfl
  | doubleClickTimeout | scroll value | scrollColumns value
  | sizeAllocate column rW rH =>
    cases taken
    rfl

theorem inTree_of_step (taken : tt.step call = some next) : tt.InTree call := by
  cases call with
  | click kmod x y => exact (mouseButtonDown_eq_ok tt kmod x y).mp ⟨next, toOption_eq_some.mp taken⟩
  | _ => trivial

/--
All calls of a run reach rows of the tree only exactly when each click of it
finds such rows in the slots of the view that it follows.
-/
theorem clicks_in_tree_iff (flags : TreetblFlags) (hCol hRow : Int) (calls : List Call)
    (admissible : EachStep step Admitted (new flags hCol hRow) calls) :
    RunsWell step (fun _ => True) (new flags hCol hRow) calls ↔
      EachStep step InTree (new flags hCol hRow) calls := by
  refine runsWell_iff_eachStep_of_admitted Sound ?_ ?_ ?_ ?_ admissible
  · exact fun _ _ => trivial
  · exact fun _ _ sound admitted inTree => step_sound sound admitted inTree
  · exact fun _ _ _ _ _ taken _ => inTree_of_step taken
  · exact List.nodup_nil

theorem clicks_in_tree_redrawn :
    RunsWell step (fun _ => True) (new ⟨false, false, false, false⟩ 20 20)
      [.addRow none 1 10 true, .addRow none 2 11 true,
        .sizeAllocate [⟨100, true⟩] 100 100, .draw, .delRow 10, .draw,
        .click ⟨false, false⟩ 50 30] := by
  apply (clicks_in_tree_iff ⟨false, false, false, false⟩ 20 20 _ ?_).mpr
  · refine .cons trivial rfl (.cons trivial rfl (.cons trivial rfl
      (.cons trivial rfl (.cons trivial rfl (.cons trivial rfl (.cons ?_ rfl trivial))))))
    rintro found ⟨⟩
    exact ⟨List.mem_singleton.mpr rfl, fun clicks => nomatch clicks.2.2⟩
  · refine .cons ⟨nofun, nofun, nofun⟩ rfl (.cons ⟨nofun, ?_, nofun⟩ rfl
      (.cons trivial rfl (.cons trivial rfl (.cons ?_ rfl
        (.cons trivial rfl (.cons trivial rfl trivial))))))
    · exact List.not_mem_cons_of_ne_of_not_mem (by decide) List.not_mem_nil
    · exact List.mem_cons_self

theorem deleted_row_is_clicked :
    ¬ RunsWell step (fun _ => True) (new ⟨false, false, false, false⟩ 20 20)
      [.addRow none 1 10 true, .sizeAllocate [⟨100, true⟩] 100 100, .draw,
        .delRow 10, .click ⟨false, false⟩ 50 30] := by
  rintro ⟨_, _, added, _, _, sized, _, _, drawn, _, _, deleted, _, _, clicked, _⟩
  cases added
  cases sized
  cases drawn
  cases deleted
  cases clicked

theorem getElem?_of_slotUnder {hRow : Int} {items : List (Option (TreetblRowRef × Nat))} {i : Nat}
    {px : Int} {slot : Option (TreetblRowRef × Nat)}
    (under : slotUnder hRow y items i px = some (rowIdx, slot)) :
    i ≤ rowIdx ∧ items[rowIdx - i]? = some slot := by
  induction items generalizing i px with
  | nil => cases under
  | cons first rest ih =>
    rw [slotUnder] at under
    split at under
    · cases under
      rw [Nat.sub_self]
      exact ⟨le_rfl, rfl⟩
    · obtain ⟨less, found⟩ := ih under
      have further : rowIdx - i = rowIdx - (i + 1) + 1 := by omega
      rw [further, List.getElem?_cons_succ]
      exact ⟨Nat.le_of_succ_le less, found⟩

end Treetbl

end Agar.Gui
