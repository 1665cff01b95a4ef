import Agar.Gui.TreetblRows

namespace Agar.Gui

open Agar.Lib OrderedForest

/-!
# The selected row of a tree table

With neither `AG_TREETBL_MULTI` nor `AG_TREETBL_MULTITOGGLE` one row at most is
to be selected.  `AG_TreetblSelectedRow` looks at the rows that are not below
others, and `DeselectAll` at the rows that are displayed.
-/

/-- The selected rows of a queue -/
def selectedRefs (q : TreetblRowQ) : List TreetblRowRef :=
  ((labels q).filter (·.selected)).map (·.self)

theorem mem_selectedRefs {q : TreetblRowQ} {r : TreetblRowRef} : r ∈ selectedRefs q ↔
      ∃ row ∈ labels q, row.selected = true ∧ row.self = r := by
  simp [selectedRefs, and_assoc]

theorem selected_deselectAll (above : List TreetblRow) (expanded : above.all (·.expanded) = true)
    (q : TreetblRowQ) :
    (labels (deselectAll q)).filter (·.selected) = ((paths above q).filter fun path =>
        path.1.selected && ! path.2.all (·.expanded)).map Prod.fst := by
  have hidden : ∀ (q : TreetblRowQ) (above : List TreetblRow), above.all (·.expanded) = false →
          ((paths above q).filter fun path =>
              path.1.selected && ! path.2.all (·.expanded)).map Prod.fst =
            (labels q).filter (·.selected) := by
    intro q
    induction q with
    | empty => exact fun _ _ => rfl
    | node row children next childrenIh nextIh =>
      intro above collapsed
      have below : (row :: above).all (·.expanded) = false := by
        rw [List.all_cons, collapsed, Bool.and_false]
      rw [paths, labels, List.filter_cons, List.filter_append, List.filter_cons, List.filter_append,
        ← childrenIh _ below, ← nextIh _ collapsed, collapsed]
      cases row.selected <;> simp
  induction q generalizing above with
  | empty => rfl
  | node row children next childrenIh nextIh =>
    have below : (labels (if row.expanded = true ∧ children ≠ .empty then
              deselectAll children
            else children)).filter (·.selected) =
          ((paths (row :: above) children).filter fun path =>
            path.1.selected && ! path.2.all (·.expanded)).map Prod.fst := by
      split
      case isTrue opened =>
        refine childrenIh _ ?_
        rw [List.all_cons, opened.1, expanded, Bool.and_true]
      case isFalse closed =>
        by_cases childless : children = .empty
        · rw [childless]
          rfl
        · have collapsed : row.expanded = false :=
            Bool.eq_false_of_not_eq_true fun opened => closed ⟨opened, childless⟩
          refine (hidden children _ ?_).symm
          rw [List.all_cons, collapsed, Bool.false_and]
    rw [deselectAll, labels, paths, List.filter_cons, List.filter_append,
      List.filter_cons, List.filter_append, below,
      nextIh _ expanded, expanded]
    simp

theorem selected_deselectAll_sublist (q : TreetblRowQ) :
    ((labels (deselectAll q)).filter (·.selected)).Sublist ((labels q).filter (·.selected)) := by
  rw [selected_deselectAll [] rfl, ← map_fst_paths [], List.filter_map]
  refine (List.monotone_filter_right _ fun path kept => ?_).map Prod.fst
  exact (Bool.and_eq_true_iff.mp kept).1

namespace Treetbl

/-- The selected rows -/
def picks (tt : Treetbl) : List TreetblRowRef := selectedRefs tt.children

/-- The rows that are not below others -/
def rootRefs (tt : Treetbl) : List TreetblRowRef := (roots tt.children).map (·.self)

/--
One row at most is selected, and `AG_TreetblSelectedRow` returns it, or `NULL`
where no row is.
-/
structure SelectsRight (tt : Treetbl) : Prop where
  atMostOne : (labels tt.children).countP (·.selected) ≤ 1
  found : ∀ row, tt.selectedRow = some row → row ∈ labels tt.children ∧ row.selected = true
  nobody : tt.selectedRow = none → ∀ row ∈ labels tt.children, row.selected = false

/-- The rows in the slots of the range that a click selects -/
def rangeRows (tt : Treetbl) (rowIdx : Nat) : List TreetblRowRef :=
  match tt.items.findIdx? tt.slotSelected with
  | none => []
  | some j => (tt.slotsBetween (min j rowIdx) (max j rowIdx)).filterMap fun slot => slot.map (·.1)

/-- A row is in the tree, and displayed. -/
def isDisplayed (tt : Treetbl) (row : TreetblRowRef) : Bool :=
  (locate TreetblRow.self row [] tt.children).any (rowIsVisible ·)

/--
When a click on a row selects no second row, and none below others: the second
click on a row without children selects that row, a click with shift the rows
of a range, and another click the row that is clicked.
-/
def RowClickKeepsSelection (tt : Treetbl) (kmod : KeyMod) (found : Target)
    (place : Place TreetblRow) : Prop :=
  (tt.dblClicked = true ∧ place.children = .empty → place.above = [] ∧ (tt.ClicksRange kmod →
        ∀ r ∈ tt.rangeRows found.rowIdx, tt.isDisplayed r = true)) ∧
  (¬ (tt.dblClicked = true ∧ place.children = .empty) →
    (tt.ClicksRange kmod → ∀ r ∈ tt.rangeRows found.rowIdx, r = found.row) ∧
      (¬ tt.ClicksRange kmod → place.above = []))

/-- When a click, unless it is on the button of a row, keeps the selection -/
def ClickKeepsSelection (tt : Treetbl) (kmod : KeyMod) (x y : Int) : Prop :=
  ∀ found place, tt.target x y = some found →
    locate TreetblRow.self found.row [] tt.children = some place →
    ¬ tt.OnButton found x place → tt.RowClickKeepsSelection kmod found place

/-- When a call selects no second row and none below others -/
def KeepsSelection (tt : Treetbl) : Call → Prop
  | .selectRow row => row ∈ tt.rootRefs
  | .click kmod x y => tt.InTree (.click kmod x y) ∧ tt.ClickKeepsSelection kmod x y
  | _ => True

variable {tt next : Treetbl} {row r : TreetblRowRef} {place : Place TreetblRow}

/-! ## Selected rows, and rows that are not below others -/

theorem mem_picks : r ∈ tt.picks ↔ ∃ row ∈ labels tt.children, row.selected = true ∧ row.self = r :=
  mem_selectedRefs

theorem mem_picks_of_access (accessed : tt.access row = .ok place)
    (selected : place.label.selected = true) : row ∈ tt.picks := by
  have located := access_eq_ok.mp accessed
  refine mem_picks.mpr ⟨place.label, ?_, selected, key_of_locate located⟩
  rw [← map_fst_paths []]
  exact List.mem_map_of_mem (mem_paths_of_locate located)

theorem mem_rootRefs : r ∈ tt.rootRefs ↔
      ∃ row, (row, []) ∈ paths [] tt.children ∧ row.self = r := by
  simp [rootRefs, mem_paths_root]

theorem rootRefs_subset (tt : Treetbl) : tt.rootRefs ⊆ tt.rowRefs :=
  List.map_subset _ (roots_sublist_labels tt.children).subset

theorem eq_of_self (sound : tt.Sound) {first second : TreetblRow}
    (listed : first ∈ labels tt.children) (listedToo : second ∈ labels tt.children)
    (same : first.self = second.self) : first = second :=
  List.inj_on_of_nodup_map sound listed listedToo same

theorem mem_rootRefs_iff (sound : tt.Sound) (accessed : tt.access row = .ok place) :
    row ∈ tt.rootRefs ↔ place.above = [] := by
  have located := access_eq_ok.mp accessed
  rw [mem_rootRefs]
  constructor
  · rintro ⟨root, member, rfl⟩
    obtain ⟨other, found, _, above⟩ := locate_of_mem_paths sound member
    cases found.symm.trans located
    exact above
  · intro above
    have member := mem_paths_of_locate located
    rw [above] at member
    exact ⟨place.label, member, key_of_locate located⟩

theorem isDisplayed_of_access (accessed : tt.access row = .ok place) :
    tt.isDisplayed row = rowIsVisible place := by
  unfold isDisplayed
  rw [access_eq_ok.mp accessed, Option.any_some]

theorem isDisplayed_of_mem_paths (sound : tt.Sound) {path : TreetblRow × List TreetblRow}
    (member : path ∈ paths [] tt.children) :
    tt.isDisplayed path.1.self = path.2.all (·.expanded) := by
  obtain ⟨place, located, _, above⟩ := locate_of_mem_paths sound member
  rw [isDisplayed_of_access (access_eq_ok.mpr located), rowIsVisible, above]

theorem isDisplayed_of_root (sound : tt.Sound) (root : r ∈ tt.rootRefs) :
    tt.isDisplayed r = true := by
  obtain ⟨row, member, rfl⟩ := mem_rootRefs.mp root
  exact isDisplayed_of_mem_paths sound member

/-- One row at most is selected, and it is not below others. -/
structure PicksRoot (tt : Treetbl) : Prop where
  root : ∀ r ∈ tt.picks, r ∈ tt.rootRefs
  only : ∀ first ∈ tt.picks, ∀ second ∈ tt.picks, first = second

theorem length_le_one_iff {list : List TreetblRowRef} (distinct : list.Nodup) :
    list.length ≤ 1 ↔ ∀ first ∈ list, ∀ second ∈ list, first = second := by
  rcases list with _ | ⟨first, _ | ⟨second, rest⟩⟩
  · simp
  · simp
  · have different : first ≠ second := fun equal =>
      (List.nodup_cons.mp distinct).1 (equal ▸ List.mem_cons_self)
    refine iff_of_false (by simp) fun same => ?_
    exact different (same first List.mem_cons_self second
      (List.mem_cons_of_mem _ List.mem_cons_self))

theorem selectsRight_iff (sound : tt.Sound) : tt.SelectsRight ↔ tt.PicksRoot := by
  have listed : ∀ row ∈ roots tt.children, row ∈ labels tt.children :=
    fun _ member => (roots_sublist_labels _).subset member
  have distinct : tt.picks.Nodup := List.Nodup.sublist (List.filter_sublist.map _) sound
  have count : (labels tt.children).countP (·.selected) = tt.picks.length := by
    rw [picks, selectedRefs, List.length_map, List.countP_eq_length_filter]
  constructor
  · intro right
    have only := (length_le_one_iff distinct).mp (count ▸ right.atMostOne)
    refine ⟨fun r picked => ?_, only⟩
    obtain ⟨row, member, selected, _⟩ := mem_picks.mp picked
    cases found : tt.selectedRow with
    | none => exact nomatch (right.nobody found row member).symm.trans selected
    | some root =>
      have isRoot := List.mem_of_find?_eq_some found
      have rootSelected : root.selected = true := by simpa using List.find?_some found
      have rootPicked : root.self ∈ tt.picks :=
        mem_picks.mpr ⟨root, listed root isRoot, rootSelected, rfl⟩
      rw [only r picked root.self rootPicked]
      exact List.mem_map_of_mem isRoot
  · intro right
    refine ⟨?_, fun row found => ?_, fun found row member => ?_⟩
    · rw [count]
      exact (length_le_one_iff distinct).mpr right.only
    · have selected : row.selected = true := by
        simpa using List.find?_some found
      exact ⟨listed row (List.mem_of_find?_eq_some found), selected⟩
    · refine Bool.eq_false_of_not_eq_true fun selected => ?_
      have picked : row.self ∈ tt.picks := mem_picks.mpr ⟨row, member, selected, rfl⟩
      obtain ⟨root, isRoot, same⟩ := List.mem_map.mp (right.root _ picked)
      have equal := eq_of_self sound (listed root isRoot) member same
      have noRoot := List.find?_eq_none.mp found root isRoot
      rw [equal] at noRoot
      exact noRoot (by simpa using selected)

/-! ## What changes of the selection select -/

theorem SameRows.rootRefs (same : tt.SameRows next) : next.rootRefs = tt.rootRefs := by
  have rootsOf : ∀ q : TreetblRowQ,
        (roots q).map (·.self) = (roots (unselected q)).map (·.self) := by
    intro q
    rw [unselected, roots_map, List.map_map]
    rfl
  obtain ⟨children, rfl, sameRows⟩ := same
  unfold Treetbl.rootRefs
  rw [rootsOf, sameRows, ← rootsOf]

theorem SameRows.access (same : tt.SameRows next) (accessed : tt.access row = .ok place) : ∃ later,
      next.access row = .ok later ∧ rowIsVisible later = rowIsVisible place ∧
        (later.children = .empty ↔ place.children = .empty) := by
  have places : ∀ q : TreetblRowQ, locate TreetblRow.self row [] (unselected q) =
          (locate TreetblRow.self row [] q).map fun place =>
            ⟨place.above.map ({ · with selected := false }), { place.label with selected := false },
              unselected place.children, unselected place.next⟩ :=
    fun q => locate_map (f := ({ · with selected := false })) (fun _ => rfl) row [] q
  have emptied : ∀ q : TreetblRowQ, unselected q = .empty ↔ q = .empty := by
    intro q
    cases q <;> simp [unselected, map]
  obtain ⟨children, rfl, sameRows⟩ := same
  have found := congrArg (locate TreetblRow.self row []) sameRows
  rw [places, places, access_eq_ok.mp accessed] at found
  obtain ⟨later, located, samePlace⟩ := Option.map_eq_some_iff.mp found
  refine ⟨later, access_eq_ok.mpr located, ?_, ?_⟩
  · have above := congrArg Place.above samePlace
    have expanded := congrArg (fun list => list.all (·.expanded)) above
    simpa [List.all_map, Function.comp_def, rowIsVisible] using expanded
  · rw [← emptied later.children, ← emptied place.children]
    exact Eq.congr_left (congrArg Place.children samePlace)

theorem SameRows.isDisplayed (same : tt.SameRows next) (inTree : r ∈ tt.rowRefs) :
    next.isDisplayed r = tt.isDisplayed r := by
  obtain ⟨place, accessed⟩ := exists_access inTree
  obtain ⟨later, accessedLater, visible, _⟩ := same.access accessed
  rw [isDisplayed_of_access accessed, isDisplayed_of_access accessedLater, visible]

theorem labels_setRow (sound : tt.Sound) (change : TreetblRow → TreetblRow) :
    labels (tt.setRow row change).children = (labels tt.children).map fun label =>
        if label.self = row then change label else label := by
  unfold setRow
  rw [adjust_label sound, labels_map]

theorem picks_select (sound : tt.Sound) (inTree : row ∈ tt.rowRefs) :
    r ∈ (tt.setRow row ({ · with selected := true })).picks ↔ r ∈ tt.picks ∨ r = row := by
  rw [mem_picks, mem_picks, labels_setRow sound]
  constructor
  · rintro ⟨_, member, selected, rfl⟩
    obtain ⟨label, listed, rfl⟩ := List.mem_map.mp member
    split at selected
    case isTrue same =>
      rw [if_pos same]
      exact .inr same
    case isFalse different =>
      rw [if_neg different]
      exact .inl ⟨label, listed, selected, rfl⟩
  · rintro (⟨label, listed, selected, rfl⟩ | rfl)
    · refine ⟨_, List.mem_map_of_mem listed, ?_⟩
      split
      · exact ⟨rfl, rfl⟩
      · exact ⟨selected, rfl⟩
    · obtain ⟨label, listed, same⟩ := List.mem_map.mp inTree
      refine ⟨_, List.mem_map_of_mem listed, ?_⟩
      rw [if_pos same]
      exact ⟨rfl, same⟩

theorem picks_unselect (sound : tt.Sound) :
    r ∈ (tt.setRow row ({ · with selected := false })).picks ↔ r ∈ tt.picks ∧ r ≠ row := by
  rw [mem_picks, mem_picks, labels_setRow sound]
  constructor
  · rintro ⟨_, member, selected, rfl⟩
    obtain ⟨label, listed, rfl⟩ := List.mem_map.mp member
    split at selected
    case isTrue => cases selected
    case isFalse different =>
      rw [if_neg different]
      exact ⟨⟨label, listed, selected, rfl⟩, different⟩
  · rintro ⟨⟨label, listed, selected, rfl⟩, different⟩
    refine ⟨_, List.mem_map_of_mem listed, ?_⟩
    rw [if_neg different]
    exact ⟨selected, rfl⟩

theorem picks_setChildren (tt : Treetbl) (row : TreetblRowRef) :
    (tt.setChildren row deselectAll).picks ⊆ tt.picks := by
  refine List.map_subset _ (List.Sublist.subset ?_)
  refine filter_labels_adjust (fun label children next => ?_) row _
  have below := selected_deselectAll_sublist children
  rw [labels, labels, List.filter_cons, List.filter_cons, List.filter_append, List.filter_append]
  split
  · exact (below.append_right _).cons_cons label
  · exact below.append_right _

theorem picks_deselectAll (sound : tt.Sound) :
    r ∈ ({ tt with children := deselectAll tt.children } : Treetbl).picks ↔
      r ∈ tt.picks ∧ tt.isDisplayed r = false := by
  unfold picks selectedRefs
  rw [selected_deselectAll [] rfl]
  constructor
  · intro member
    obtain ⟨_, listed, rfl⟩ := List.mem_map.mp member
    obtain ⟨path, kept, rfl⟩ := List.mem_map.mp listed
    obtain ⟨inPaths, hidden⟩ := List.mem_filter.mp kept
    rw [Bool.and_eq_true, Bool.not_eq_true'] at hidden
    have label : path.1 ∈ labels tt.children := by
      rw [← map_fst_paths []]
      exact List.mem_map_of_mem inPaths
    refine ⟨mem_selectedRefs.mpr ⟨path.1, label, hidden.1, rfl⟩, ?_⟩
    rw [isDisplayed_of_mem_paths sound inPaths, hidden.2]
  · rintro ⟨picked, hidden⟩
    obtain ⟨label, listed, selected, rfl⟩ := mem_selectedRefs.mp picked
    rw [← map_fst_paths []] at listed
    obtain ⟨path, inPaths, rfl⟩ := List.mem_map.mp listed
    rw [isDisplayed_of_mem_paths sound inPaths] at hidden
    refine List.mem_map_of_mem (List.mem_map_of_mem (List.mem_filter.mpr ?_))
    exact ⟨inPaths, by rw [selected, hidden]; rfl⟩

theorem PicksRoot.picks_deselectAll (right : tt.PicksRoot) (sound : tt.Sound) :
    r ∉ ({ tt with children := deselectAll tt.children } : Treetbl).picks := by
  rw [Treetbl.picks_deselectAll sound]
  rintro ⟨picked, hidden⟩
  exact nomatch hidden.symm.trans (isDisplayed_of_root sound (right.root r picked))

theorem PicksRoot.of_subset (right : tt.PicksRoot) (roots : next.rootRefs = tt.rootRefs)
    (subset : ∀ r ∈ next.picks, r ∈ tt.picks) : next.PicksRoot :=
  ⟨fun r picked => roots ▸ right.root r (subset r picked), fun first picked second pickedToo =>
      right.only first (subset first picked) second (subset second pickedToo)⟩

theorem picksRoot_iff_of_only (picked : ∀ r, r ∈ next.picks ↔ r = row) :
    next.PicksRoot ↔ row ∈ next.rootRefs := by
  constructor
  · exact fun right => right.root row ((picked row).mpr rfl)
  · intro root
    refine ⟨fun r member => (picked r).mp member ▸ root, ?_⟩
    intro first member second memberToo
    rw [(picked first).mp member, (picked second).mp memberToo]

theorem picks_setRow (row : TreetblRowRef) (sound : tt.Sound) (change : TreetblRow → TreetblRow)
    (keeps : ∀ row, (change row).self = row.self)
    (keepsToo : ∀ row, (change row).selected = row.selected) :
    (tt.setRow row change).picks = tt.picks ∧ (tt.setRow row change).rootRefs = tt.rootRefs := by
  have self : ∀ label : TreetblRow, (if label.self = row then change label else label).self =
          label.self := by
    intro label
    split
    · exact keeps label
    · rfl
  have selected : ∀ label : TreetblRow,
        (if label.self = row then change label else label).selected = label.selected := by
    intro label
    split
    · exact keepsToo label
    · rfl
  constructor
  · unfold picks selectedRefs
    rw [labels_setRow sound, List.filter_map, List.map_map]
    simp only [Function.comp_def, selected, self]
  · unfold rootRefs setRow
    rw [adjust_label sound, roots_map, List.map_map]
    simp only [Function.comp_def, self]

/-! ## Clicks that select -/

theorem picks_selectSlots {slots : List (Option (TreetblRowRef × Nat))} (sound : tt.Sound)
    (selected : tt.selectSlots slots = .ok next) :
    r ∈ next.picks ↔ r ∈ tt.picks ∨ r ∈ slots.filterMap fun slot => slot.map (·.1) := by
  induction slots generalizing tt with
  | nil =>
    cases selected
    simp
  | cons slot rest ih =>
    rcases slot with _ | ⟨row, depth⟩
    · exact ih sound selected
    · obtain ⟨_, accessed, later⟩ := bind_eq_ok.mp selected
      have inTree := mem_rowRefs_of_access accessed
      have soundToo := sound.of_rowRefs (sameRows_setRow tt row true).rowRefs
      rw [ih soundToo later, picks_select sound inTree,
        List.filterMap_cons, Option.map_some, List.mem_cons, or_assoc]

variable {rowIdx : Nat}

theorem picks_clickedShift (sound : tt.Sound) (clicked : tt.clickedShift rowIdx = .ok next) :
    r ∈ next.picks ↔ r ∈ tt.picks ∨ r ∈ tt.rangeRows rowIdx := by
  obtain ⟨_, ⟨found, rfl⟩ | ⟨j, found, selected⟩⟩ := (clickedShift_iff _).mp clicked
  · rw [rangeRows, found]
    simp
  · rw [rangeRows, found]
    exact picks_selectSlots sound selected

theorem mem_slotsBetween {first last i : Nat} {slot : Option (TreetblRowRef × Nat)}
    (shown : tt.items[i]? = some slot) (least : first ≤ i) (most : i ≤ last) :
    slot ∈ tt.slotsBetween first last := by
  unfold slotsBetween
  refine List.mem_of_getElem? (i := i - first) ?_
  rw [List.getElem?_take_of_lt (by omega), List.getElem?_drop, Nat.add_sub_cancel' least]
  exact shown

theorem rangeRows_ends {depth : Nat} (shown : tt.items[rowIdx]? = some (some (row, depth)))
    (member : r ∈ tt.rangeRows rowIdx) :
    row ∈ tt.rangeRows rowIdx ∧ ∃ first ∈ tt.rangeRows rowIdx, first ∈ tt.picks := by
  unfold rangeRows at *
  cases found : tt.items.findIdx? tt.slotSelected with
  | none =>
    rw [found] at member
    cases member
  | some j =>
    dsimp only
    have inRange : ∀ {i : Nat} {shownRow : TreetblRowRef} {depth : Nat},
          tt.items[i]? = some (some (shownRow, depth)) → min j rowIdx ≤ i → i ≤ max j rowIdx →
              shownRow ∈ (tt.slotsBetween (min j rowIdx) (max j rowIdx)).filterMap
                  fun slot => slot.map (·.1) :=
      fun shown least most => List.mem_filterMap.mpr ⟨_, mem_slotsBetween shown least most, rfl⟩
    refine ⟨inRange shown (Nat.min_le_right ..) (Nat.le_max_right ..), ?_⟩
    obtain ⟨short, selected, _⟩ := List.findIdx?_eq_some_iff_getElem.mp found
    have listed : tt.items[j]? = some tt.items[j] := List.getElem?_eq_getElem short
    generalize tt.items[j] = slot at selected listed
    rcases slot with _ | ⟨first, depth⟩
    · cases selected
    · refine ⟨first, inRange listed (Nat.min_le_left ..) (Nat.le_max_left ..), ?_⟩
      unfold slotSelected at selected
      rw [Option.any_some, Option.any_eq_true] at selected
      obtain ⟨place, located, isSelected⟩ := selected
      exact mem_picks_of_access (access_eq_ok.mpr located) isSelected

variable {kmod : KeyMod}

theorem picks_clickedSelect (single : tt.flags.multi = false ∧ tt.flags.multiToggle = false)
    (sound : tt.Sound) (right : tt.PicksRoot) (noRange : ¬ tt.ClicksRange kmod)
    (clicked : tt.clickedSelect kmod rowIdx row = .ok next) :
    (row ∈ tt.rootRefs ∧ ∀ r, r ∉ next.picks) ∨ ∀ r, r ∈ next.picks ↔ r = row := by
  have cleared := sameRows_deselectAll tt
  have selects : row ∈ tt.rowRefs → ∀ r,
        r ∈ ({ tt with children := deselectAll tt.children }.setRow row
            ({ · with selected := true })).picks ↔
          r = row := by
    intro inTree r
    rw [picks_select (sound.of_rowRefs cleared.rowRefs) (cleared.rowRefs ▸ inTree)]
    exact or_iff_right (right.picks_deselectAll sound)
  unfold clickedSelect at clicked
  split at clicked
  case isTrue =>
    obtain ⟨place, accessed, same⟩ := bind_eq_ok.mp clicked
    have inTree := mem_rowRefs_of_access accessed
    cases same
    unfold clickedToggle
    split
    case isTrue selected =>
      have picked := mem_picks_of_access accessed selected
      refine .inl ⟨right.root row picked, fun r member => ?_⟩
      obtain ⟨pickedToo, different⟩ := (picks_unselect sound).mp member
      exact different (right.only r pickedToo row picked)
    case isFalse => exact .inr (selects inTree)
  case isFalse noToggle =>
    rw [not_or, Bool.not_eq_true, Bool.not_eq_true] at noToggle
    split at clicked
    case isTrue shift => exact absurd ⟨noToggle.1, noToggle.2, shift⟩ noRange
    case isFalse =>
      obtain ⟨place, accessed, same⟩ := bind_eq_ok.mp clicked
      have inTree := cleared.rowRefs ▸ mem_rowRefs_of_access accessed
      have unselected : ¬ place.label.selected = true := fun selected =>
        right.picks_deselectAll sound (mem_picks_of_access accessed selected)
      cases same
      rw [if_neg unselected]
      exact .inr (selects inTree)

variable {found : Target}

theorem picksRoot_clickedSelect_iff
    (single : tt.flags.multi = false ∧ tt.flags.multiToggle = false) (sound : tt.Sound)
    (right : tt.PicksRoot)
    (shown : tt.items[found.rowIdx]? = some (some (found.row, found.depth)))
    (accessed : tt.access found.row = .ok place)
    (clicked : tt.clickedSelect kmod found.rowIdx found.row = .ok next) :
    next.PicksRoot ↔ (tt.ClicksRange kmod → ∀ r ∈ tt.rangeRows found.rowIdx, r = found.row) ∧
        (¬ tt.ClicksRange kmod → place.above = []) := by
  have roots := (clickedSelect_sameRows clicked).rootRefs
  by_cases range : tt.ClicksRange kmod
  · have picked : ∀ r, r ∈ next.picks ↔ r ∈ tt.picks ∨ r ∈ tt.rangeRows found.rowIdx := by
      unfold clickedSelect at clicked
      rw [if_neg (by rw [range.1, range.2.1]; decide), if_pos range.2.2] at clicked
      exact fun r => picks_clickedShift sound clicked
    constructor
    · intro rightToo
      refine ⟨fun _ r member => ?_, fun noRange => absurd range noRange⟩
      have clickedRow := (rangeRows_ends shown member).1
      exact rightToo.only r ((picked r).mpr (.inr member)) found.row
        ((picked found.row).mpr (.inr clickedRow))
    · rintro ⟨sameRow, _⟩
      refine right.of_subset roots fun r member => ?_
      rcases (picked r).mp member with before | inRange
      · exact before
      · obtain ⟨_, first, firstInRange, firstPicked⟩ :=
          rangeRows_ends shown inRange
        rw [sameRow range r inRange, ← sameRow range first firstInRange]
        exact firstPicked
  · have noRange : ((tt.ClicksRange kmod → ∀ r ∈ tt.rangeRows found.rowIdx, r = found.row) ∧
            (¬ tt.ClicksRange kmod → place.above = [])) ↔
          found.row ∈ next.rootRefs := by
      rw [roots, mem_rootRefs_iff sound accessed]
      exact ⟨fun both => both.2 range,
        fun above => ⟨fun isRange => absurd isRange range, fun _ => above⟩⟩
    rw [noRange]
    rcases picks_clickedSelect single sound right range clicked with
      ⟨root, nothing⟩ | only
    · refine iff_of_true ?_ (roots ▸ root)
      exact ⟨fun r member => absurd member (nothing r),
        fun first member => absurd member (nothing first)⟩
    · exact picksRoot_iff_of_only only

theorem picksRoot_reselect_iff (sound : tt.Sound) (inTree : row ∈ tt.rowRefs) :
    ({ tt with children := deselectAll tt.children }.setRow row
        ({ · with selected := true })).PicksRoot ↔
      row ∈ tt.rootRefs ∧ ∀ r ∈ tt.picks, tt.isDisplayed r = true := by
  have cleared := sameRows_deselectAll tt
  have roots := (cleared.trans (sameRows_setRow _ row true)).rootRefs
  have picked := fun r : TreetblRowRef =>
    picks_select (r := r) (sound.of_rowRefs cleared.rowRefs) (cleared.rowRefs ▸ inTree)
  simp only [picks_deselectAll sound] at picked
  constructor
  · intro right
    have root : row ∈ tt.rootRefs := roots ▸ right.root row ((picked row).mpr (.inr rfl))
    refine ⟨root, fun r member => ?_⟩
    by_contra hidden
    have remains := (picked r).mpr (.inl ⟨member, Bool.eq_false_of_not_eq_true hidden⟩)
    have same := right.only r remains row ((picked row).mpr (.inr rfl))
    rw [same] at hidden
    exact hidden (isDisplayed_of_root sound root)
  · rintro ⟨root, shown⟩
    refine (picksRoot_iff_of_only fun r => ?_).mpr (roots ▸ root)
    rw [picked r, or_iff_right]
    rintro ⟨member, hidden⟩
    exact nomatch hidden.symm.trans (shown r member)

theorem PicksRoot.congr (roots : next.rootRefs = tt.rootRefs) (same : next.picks = tt.picks) :
    next.PicksRoot ↔ tt.PicksRoot :=
  ⟨fun right => right.of_subset roots.symm fun _ member => same ▸ member,
    fun right => right.of_subset roots fun _ member => same ▸ member⟩

theorem expandAt_picks (sound : tt.Sound) (row : TreetblRowRef) (place : Place TreetblRow) :
    (tt.expandAt row place).picks = tt.picks ∧ (tt.expandAt row place).rootRefs = tt.rootRefs := by
  have changed := picks_setRow row sound ({ · with expanded := true }) (fun _ => rfl) (fun _ => rfl)
  unfold expandAt
  split
  · exact ⟨rfl, rfl⟩
  · dsimp only
    split
    · exact changed
    · exact changed

theorem collapseAt_picks (sound : tt.Sound) (row : TreetblRowRef) (place : Place TreetblRow) :
    (tt.collapseAt row place).picks = tt.picks ∧
      (tt.collapseAt row place).rootRefs = tt.rootRefs := by
  have changed := picks_setRow row sound
    ({ · with expanded := false }) (fun _ => rfl) (fun _ => rfl)
  unfold collapseAt
  split
  · dsimp only
    split
    · exact changed
    · exact changed
  · exact ⟨rfl, rfl⟩

theorem picksRoot_clickedTwice_iff (sound : tt.Sound) (accessed : tt.access row = .ok place)
    (clicked : tt.clickedTwice row = .ok next) :
    next.PicksRoot ↔ (tt.dblClicked = true ∧ place.children = .empty →
        row ∈ tt.rootRefs ∧ ∀ r ∈ tt.picks, tt.isDisplayed r = true) ∧
      (¬ (tt.dblClicked = true ∧ place.children = .empty) → tt.PicksRoot) := by
  rcases clickedTwice_cases clicked with
    ⟨once, rfl⟩ | ⟨twice, other, accessedToo, rfl⟩
  · have first : ¬ (tt.dblClicked = true ∧ place.children = .empty) :=
      fun both => nomatch once.symm.trans both.1
    rw [imp_iff_right first, and_iff_right fun second => absurd second first]
    exact PicksRoot.congr rfl rfl
  · cases accessed.symm.trans accessedToo
    have same : ∀ {later : Treetbl}, later.picks = tt.picks ∧ later.rootRefs = tt.rootRefs →
            ({ later with dblClicked := false }.PicksRoot ↔ tt.PicksRoot) :=
      fun both => PicksRoot.congr both.2 both.1
    unfold clickedAgain
    by_cases childless : place.children = .empty
    · have second : tt.dblClicked = true ∧ place.children = .empty :=
        ⟨twice, childless⟩
      rw [if_neg (not_not_intro childless), imp_iff_right second,
        and_iff_left fun first => absurd second first,
        ← picksRoot_reselect_iff sound (mem_rowRefs_of_access accessed)]
      exact PicksRoot.congr rfl rfl
    · have first : ¬ (tt.dblClicked = true ∧ place.children = .empty) :=
        fun both => childless both.2
      rw [if_pos childless, imp_iff_right first, and_iff_right fun second => absurd second first]
      split
      · exact same (collapseAt_picks sound row place)
      · exact same (expandAt_picks sound row place)

theorem PicksRoot.clickedExpander (right : tt.PicksRoot) (sound : tt.Sound) (row : TreetblRowRef)
    (place : Place TreetblRow) : (tt.clickedExpander row place).PicksRoot := by
  unfold Treetbl.clickedExpander
  split
  · obtain ⟨picked, roots⟩ := picks_setRow row sound
      ({ · with expanded := false }) (fun _ => rfl) (fun _ => rfl)
    have rightToo := (PicksRoot.congr roots picked).mpr right
    exact rightToo.of_subset (sameRows_setChildren _ row).rootRefs (picks_setChildren _ row)
  · obtain ⟨picked, roots⟩ := picks_setRow row sound
      ({ · with expanded := true }) (fun _ => rfl) (fun _ => rfl)
    refine (PicksRoot.congr ?_ ?_).mpr right
    · exact roots
    · exact picked

/-! ## Runs -/

theorem slot_of_target {x y : Int} (targeted : tt.target x y = some found) :
    tt.items[found.rowIdx]? = some (some (found.row, found.depth)) := by
  rcases mouseButtonDown_eq tt ⟨false, false⟩ x y with
    ⟨other, same, under, _⟩ | ⟨untargeted, _⟩
  · cases targeted.symm.trans same
    exact (getElem?_of_slotUnder under).2
  · exact nomatch targeted.symm.trans untargeted

theorem mem_rowRefs_of_rangeRows (inTree : tt.RangeInTree rowIdx)
    (member : r ∈ tt.rangeRows rowIdx) : r ∈ tt.rowRefs := by
  unfold rangeRows at member
  split at member
  case h_1 => cases member
  case h_2 j found =>
    obtain ⟨slot, listed, shown⟩ := List.mem_filterMap.mp member
    obtain ⟨⟨row, depth⟩, rfl, rfl⟩ := Option.map_eq_some_iff.mp shown
    exact inTree.2 j found _ listed row depth rfl

theorem picksRoot_rowClick_iff {selected : Treetbl}
    (single : tt.flags.multi = false ∧ tt.flags.multiToggle = false) (sound : tt.Sound)
    (right : tt.PicksRoot)
    (shown : tt.items[found.rowIdx]? = some (some (found.row, found.depth)))
    (accessed : tt.access found.row = .ok place)
    (first : tt.clickedSelect kmod found.rowIdx found.row = .ok selected)
    (twice : selected.clickedTwice found.row = .ok next) :
    next.PicksRoot ↔ tt.RowClickKeepsSelection kmod found place := by
  have same := clickedSelect_sameRows first
  have soundToo := sound.of_rowRefs same.rowRefs
  obtain ⟨later, accessedToo, _, childless⟩ := same.access accessed
  have clicks : selected.dblClicked = tt.dblClicked := by
    obtain ⟨children, rfl, _⟩ := same
    rfl
  rw [picksRoot_clickedTwice_iff soundToo accessedToo twice, clicks,
    childless, picksRoot_clickedSelect_iff single sound right shown accessed first]
  unfold RowClickKeepsSelection
  refine and_congr_left fun _ => imp_congr_right fun _ => ?_
  rw [same.rootRefs, mem_rootRefs_iff sound accessed]
  refine and_congr_right fun above => ?_
  by_cases range : tt.ClicksRange kmod
  · have clicked := first
    unfold clickedSelect at clicked
    rw [if_neg (by rw [range.1, range.2.1]; decide), if_pos range.2.2] at clicked
    have rangeInTree := (clickedShift_eq_ok _).mp ⟨_, clicked⟩
    rw [imp_iff_right range]
    constructor
    · intro displayed r member
      rw [← same.isDisplayed (mem_rowRefs_of_rangeRows rangeInTree member)]
      exact displayed r ((picks_clickedShift sound clicked).mpr (.inr member))
    · intro displayed r member
      rcases (picks_clickedShift sound clicked).mp member with
        before | inRange
      · have root := right.root r before
        rw [same.isDisplayed (rootRefs_subset tt root)]
        exact isDisplayed_of_root sound root
      · rw [same.isDisplayed (mem_rowRefs_of_rangeRows rangeInTree inRange)]
        exact displayed r inRange
  · have root : found.row ∈ tt.rootRefs :=
      (mem_rootRefs_iff sound accessed).mpr above
    refine iff_of_true (fun r member => ?_) fun isRange => absurd isRange range
    have sameRow : r = found.row := by
      rcases picks_clickedSelect single sound right range first with
        ⟨_, nothing⟩ | only
      · exact absurd member (nothing r)
      · exact (only r).mp member
    rw [sameRow, same.isDisplayed (rootRefs_subset tt root)]
    exact isDisplayed_of_root sound root

theorem picksRoot_mouseButtonDown_iff {x y : Int}
    (single : tt.flags.multi = false ∧ tt.flags.multiToggle = false) (sound : tt.Sound)
    (right : tt.PicksRoot) (clicked : tt.mouseButtonDown kmod x y = .ok next) :
    next.PicksRoot ↔ tt.ClickKeepsSelection kmod x y := by
  rcases mouseButtonDown_cases clicked with
    ⟨untargeted, cleared⟩ |
      ⟨found, place, targeted, accessed, button | elsewhere⟩
  · have rightToo : next.PicksRoot := by
      rcases cleared with rfl | rfl
      · exact right
      · exact right.of_subset (sameRows_deselectAll tt).rootRefs
          fun r member => ((picks_deselectAll sound).mp member).1
    refine iff_of_true rightToo fun found _ targeted => ?_
    exact nomatch targeted.symm.trans untargeted
  · obtain ⟨onButton, rfl⟩ := button
    refine iff_of_true (right.clickedExpander sound found.row place) ?_
    intro other otherPlace otherTargeted located notOnButton
    cases otherTargeted.symm.trans targeted
    cases located.symm.trans (access_eq_ok.mp accessed)
    exact absurd onButton notOnButton
  · obtain ⟨notOnButton, selected, first, twice⟩ := elsewhere
    rw [picksRoot_rowClick_iff single sound right (slot_of_target targeted) accessed first twice]
    constructor
    · intro kept other otherPlace otherTargeted located _
      cases otherTargeted.symm.trans targeted
      cases located.symm.trans (access_eq_ok.mp accessed)
      exact kept
    · intro kept
      exact kept found place targeted (access_eq_ok.mp accessed) notOnButton

theorem picksRoot_added {pRow : Option TreetblRowRef} {row : TreetblRow} (sound : tt.Sound)
    (right : tt.PicksRoot) (inTree : ∀ p, pRow = some p → p ∈ tt.rowRefs)
    (unselected : row.selected = false) : (tt.added pRow row).PicksRoot := by
  have more := paths_withRow sound inTree row
  have picked : ∀ r ∈ (tt.added pRow row).picks, r ∈ tt.picks := by
    intro r member
    obtain ⟨label, listed, selected, rfl⟩ := mem_picks.mp member
    have labelsMore := more.map Prod.fst
    rw [List.map_cons, map_fst_paths, map_fst_paths] at labelsMore
    rcases List.mem_cons.mp (labelsMore.mem_iff.mp listed) with rfl | before
    · exact nomatch unselected.symm.trans selected
    · exact mem_picks.mpr ⟨label, before, selected, rfl⟩
  refine ⟨fun r member => ?_, fun first member second memberToo => ?_⟩
  · obtain ⟨root, listed, same⟩ :=
      mem_rootRefs.mp (right.root r (picked r member))
    exact mem_rootRefs.mpr ⟨root, more.mem_iff.mpr (List.mem_cons_of_mem _ listed), same⟩
  · exact right.only first (picked first member) second (picked second memberToo)

theorem picksRoot_removeAt (sound : tt.Sound) (right : tt.PicksRoot)
    (accessed : tt.access row = .ok place) (childless : place.children = .empty) :
    (tt.removeAt row place).PicksRoot := by
  have more := paths_removeAt sound accessed childless
  have distinct :=
    (List.nodup_cons.mp ((rowRefs_removeAt sound accessed childless).nodup_iff.mpr sound)).1
  have picked : ∀ r ∈ (tt.removeAt row place).picks, r ∈ tt.picks := by
    intro r member
    obtain ⟨label, listed, selected, rfl⟩ := mem_picks.mp member
    have labelsMore := more.map Prod.fst
    rw [List.map_cons, map_fst_paths, map_fst_paths] at labelsMore
    exact mem_picks.mpr ⟨label,
      labelsMore.mem_iff.mp (List.mem_cons_of_mem _ listed), selected, rfl⟩
  refine ⟨fun r member => ?_, fun first member second memberToo => ?_⟩
  · obtain ⟨root, listed, same⟩ :=
      mem_rootRefs.mp (right.root r (picked r member))
    have remains : r ≠ row := by
      rintro rfl
      obtain ⟨label, inLabels, _, rfl⟩ := mem_picks.mp member
      exact distinct (List.mem_map_of_mem inLabels)
    rcases List.mem_cons.mp (more.mem_iff.mpr listed) with removed | remaining
    · have label := (Prod.mk.inj removed).1
      rw [← same, label] at remains
      exact absurd (key_of_locate (access_eq_ok.mp accessed)) remains
    · exact mem_rootRefs.mpr ⟨root, remaining, same⟩
  · exact right.only first (picked first member) second (picked second memberToo)

theorem picksRoot_deselectRow {row : Option TreetblRowRef} (sound : tt.Sound) (right : tt.PicksRoot)
    (deselected : tt.deselectRow row = .ok next) : next.PicksRoot := by
  cases row with
  | none =>
    cases deselected
    exact right.of_subset (sameRows_deselectAll tt).rootRefs
      fun r member => ((picks_deselectAll sound).mp member).1
  | some row =>
    obtain ⟨_, _, same⟩ := bind_eq_ok.mp deselected
    cases same
    exact right.of_subset (sameRows_setChildren tt row).rootRefs (picks_setChildren tt row)

theorem picksRoot_selectRow_iff (single : tt.flags.multi = false ∧ tt.flags.multiToggle = false)
    (sound : tt.Sound) (right : tt.PicksRoot) (selected : tt.selectRow row = .ok next) :
    next.PicksRoot ↔ row ∈ tt.rootRefs := by
  have cleared := sameRows_deselectAll tt
  unfold selectRow at selected
  rw [if_pos single] at selected
  obtain ⟨place, accessed, same⟩ := bind_eq_ok.mp selected
  have inTree := mem_rowRefs_of_access accessed
  cases same
  rw [picksRoot_reselect_iff sound (cleared.rowRefs ▸ inTree)]
  refine and_iff_left fun r member => ?_
  exact isDisplayed_of_root sound (right.root r member)

theorem picksRoot_step_iff {call : Call}
    (single : tt.flags.multi = false ∧ tt.flags.multiToggle = false) (sound : tt.Sound)
    (right : tt.PicksRoot) (admitted : tt.Admitted call) (taken : tt.step call = some next) :
    next.PicksRoot ↔ tt.KeepsSelection call := by
  cases call with
  | addRow pRow rowID self granted =>
    refine iff_of_true ?_ trivial
    rw [eq_of_toOption taken (addRow_eq sound admitted.1 admitted.2.1)]
    split
    · exact right
    · exact picksRoot_added sound right admitted.1 rfl
  | delRow row =>
    refine iff_of_true ?_ trivial
    obtain ⟨after, deleted, _, afterRight⟩ :=
      delRow_rule PicksRoot (fun _ _ _ => picksRoot_removeAt) sound right admitted
    rwa [eq_of_toOption taken deleted]
  | clearRows =>
    refine iff_of_true ?_ trivial
    obtain ⟨without, cleared, _⟩ :=
      clearRows_rule (fun _ => True) (fun _ _ _ _ _ _ _ => trivial) sound trivial
    rw [eq_of_toOption taken cleared]
    exact ⟨fun _ => nofun, fun _ => nofun⟩
  | expandRow row =>
    refine iff_of_true ?_ trivial
    obtain ⟨place, accessed⟩ := exists_access admitted
    rw [eq_of_toOption taken (expandRow_eq accessed)]
    obtain ⟨picked, roots⟩ := expandAt_picks sound row place
    exact (PicksRoot.congr roots picked).mpr right
  | collapseRow row =>
    refine iff_of_true ?_ trivial
    obtain ⟨place, accessed⟩ := exists_access admitted
    rw [eq_of_toOption taken (collapseRow_eq accessed)]
    obtain ⟨picked, roots⟩ := collapseAt_picks sound row place
    exact (PicksRoot.congr roots picked).mpr right
  | selectRow row => exact picksRoot_selectRow_iff single sound right (toOption_eq_some.mp taken)
  | deselectRow row =>
    refine iff_of_true ?_ trivial
    exact picksRoot_deselectRow sound right (toOption_eq_some.mp taken)
  | click kmod x y =>
    rw [picksRoot_mouseButtonDown_iff single sound right (toOption_eq_some.mp taken)]
    exact (and_iff_right (inTree_of_step taken)).symm
  | draw =>
    refine iff_of_true ?_ trivial
    cases taken
    unfold draw
    split
    · exact right.of_subset rfl fun _ member => member
    · exact right
  | doubleClickTimeout | scroll value | scrollColumns value
  | sizeAllocate column rW rH =>
    refine iff_of_true ?_ trivial
    cases taken
    exact right.of_subset rfl fun _ member => member

/--
The selection is right throughout a run of a table for one selection exactly
when each call selects no second row and none below others.
-/
theorem selects_right_iff (flags : TreetblFlags)
    (single : flags.multi = false ∧ flags.multiToggle = false) (hCol hRow : Int) (calls : List Call)
    (admissible : EachStep step Admitted (new flags hCol hRow) calls) :
    RunsWell step SelectsRight (new flags hCol hRow) calls ↔
      EachStep step KeepsSelection (new flags hCol hRow) calls := by
  refine runsWell_iff_eachStep_of_admitted
    (fun tt => tt.flags = flags ∧ tt.Sound ∧ tt.PicksRoot) ?_ ?_ ?_ ?_
    admissible
  · exact fun _ invariant => (selectsRight_iff invariant.2.1).mpr invariant.2.2
  · rintro tt call ⟨rfl, sound, right⟩ admitted keeps
    have inTree : tt.InTree call := by
      cases call with
      | click => exact keeps.1
      | _ => trivial
    obtain ⟨next, taken, nextSound⟩ := step_sound sound admitted inTree
    exact ⟨next, taken, step_flags sound admitted taken, nextSound,
      (picksRoot_step_iff single sound right admitted taken).mpr keeps⟩
  · rintro tt call next ⟨rfl, sound, right⟩ admitted taken rightToo
    obtain ⟨other, sameStep, nextSound⟩ := step_sound sound admitted (inTree_of_step taken)
    cases sameStep.symm.trans taken
    exact (picksRoot_step_iff single sound right admitted taken).mp
      ((selectsRight_iff nextSound).mp rightToo)
  · exact ⟨rfl, List.nodup_nil, fun _ => nofun, fun _ => nofun⟩

theorem selects_right_iff_clicked :
    RunsWell step SelectsRight (new ⟨false, false, false, false⟩ 20 20)
      [.addRow none 1 10 true, .addRow none 2 11 true, .sizeAllocate [⟨100, true⟩] 100 100, .draw,
        .click ⟨false, false⟩ 50 50, .selectRow 10] := by
  apply (selects_right_iff ⟨false, false, false, false⟩ ⟨rfl, rfl⟩ 20 20 _ ?_).mpr
  · refine .cons trivial rfl (.cons trivial rfl (.cons trivial rfl
      (.cons trivial rfl (.cons ⟨?_, ?_⟩ rfl (.cons ?_ rfl trivial)))))
    · rintro found ⟨⟩
      exact ⟨List.mem_cons_of_mem _ List.mem_cons_self, fun clicks => nomatch clicks.2.2⟩
    · rintro found place ⟨⟩ ⟨⟩ -
      exact ⟨fun second => (nomatch second.1),
        fun _ => ⟨fun clicks => (nomatch clicks.2.2), fun _ => rfl⟩⟩
    · exact List.mem_cons_self
  · refine .cons ⟨nofun, nofun, nofun⟩ rfl (.cons ⟨nofun, ?_, nofun⟩ rfl
      (.cons trivial rfl (.cons trivial rfl (.cons trivial rfl (.cons ?_ rfl trivial)))))
    · exact List.not_mem_cons_of_ne_of_not_mem (by decide) List.not_mem_nil
    · exact List.mem_cons_self

theorem child_is_not_returned :
    ¬ RunsWell step SelectsRight (new ⟨false, false, false, false⟩ 20 20)
      [.addRow none 1 10 true, .addRow (some 10) 2 11 true, .selectRow 11] := by
  rintro ⟨_, _, first, _, _, second, _, _, selected, right⟩
  cases first
  cases second
  cases selected
  exact nomatch right.nobody rfl ⟨11, 2, false, true⟩ (List.mem_cons_of_mem _ List.mem_cons_self)

end Treetbl

end Agar.Gui
