import Agar.Gui.TreetblRows

namespace Agar.Gui

open Agar.Lib OrderedForest

/-!
# The count of displayed rows

`nExpandedRows` goes up and down with every row that is added, removed,
expanded or collapsed.  `AG_TreetblExpandRow` and `AG_TreetblCollapseRow` leave
it as it is where the row itself is not displayed.  A click on the button of a
row does not ask for that.
-/

/-- The rows of a queue below some ancestors that are displayed -/
def displayed (above : List TreetblRow) (q : TreetblRowQ) : Nat :=
  (paths above q).countP fun path => path.2.all (·.expanded)

variable (above : List TreetblRow)

theorem displayed_empty : displayed above .empty = 0 := rfl

theorem displayed_node (row : TreetblRow) (children next : TreetblRowQ) :
    displayed above (.node row children next) = (if above.all (·.expanded) then 1 else 0) +
        displayed (row :: above) children + displayed above next := by
  unfold displayed
  rw [paths, List.countP_cons, List.countP_append]
  dsimp only
  omega

theorem displayed_of_collapsed {above : List TreetblRow}
    (collapsed : above.all (·.expanded) = false) (q : TreetblRowQ) : displayed above q = 0 := by
  induction q generalizing above with
  | empty => rfl
  | node row children next childrenIh nextIh =>
    have below : (row :: above).all (·.expanded) = false := by
      rw [List.all_cons, collapsed, Bool.and_false]
    rw [displayed_node, collapsed, childrenIh below, nextIh collapsed]
    rfl

theorem countVisibleChld_eq (expanded : above.all (·.expanded) = true) (q : TreetblRowQ) (i : Int) :
    countVisibleChld q i = i + displayed above q := by
  induction q generalizing above i with
  | empty => exact (Int.add_zero i).symm
  | node row children next childrenIh nextIh =>
    have below : (if row.expanded = true ∧ children ≠ .empty then
            countVisibleChld children (i + 1)
          else i + 1) =
          i + 1 + displayed (row :: above) children := by
      split
      case isTrue opened =>
        refine childrenIh _ ?_ (i + 1)
        rw [List.all_cons, opened.1, expanded, Bool.and_true]
      case isFalse closed =>
        have nothing : displayed (row :: above) children = 0 := by
          by_cases childless : children = .empty
          · rw [childless, displayed_empty]
          · refine displayed_of_collapsed ?_ children
            have collapsed : row.expanded = false :=
              Bool.eq_false_of_not_eq_true fun opened => closed ⟨opened, childless⟩
            rw [List.all_cons, collapsed, Bool.false_and]
        rw [nothing, Nat.cast_zero, Int.add_zero]
    unfold countVisibleChld
    dsimp only
    rw [below, nextIh _ expanded, displayed_node, if_pos expanded]
    push_cast
    omega

theorem displayed_below (row : TreetblRow) (opened : row.expanded = true) (above : List TreetblRow)
    (q : TreetblRowQ) :
    (displayed (row :: above) q : Int) =
      if above.all (·.expanded) then countVisibleChld q 0 else 0 := by
  split
  case isTrue expanded =>
    have below : (row :: above).all (·.expanded) = true := by
      rw [List.all_cons, opened, expanded, Bool.and_true]
    rw [countVisibleChld_eq _ below, Int.zero_add]
  case isFalse collapsed =>
    have below : (row :: above).all (·.expanded) = false := by
      rw [List.all_cons, Bool.eq_false_of_not_eq_true collapsed, Bool.and_false]
    rw [displayed_of_collapsed below, Nat.cast_zero]

theorem displayed_unselected (q : TreetblRowQ) :
    displayed (above.map ({ · with selected := false })) (Treetbl.unselected q) =
      displayed above q := by
  unfold displayed Treetbl.unselected
  rw [paths_map, List.countP_map]
  congr 1
  funext path
  simp [List.all_map, Function.comp_def]

theorem displayed_congr {q other : TreetblRowQ}
    (same : Treetbl.unselected q = Treetbl.unselected other) :
    displayed [] q = displayed [] other := by
  rw [← displayed_unselected, same]
  exact displayed_unselected [] other

namespace Treetbl

/-- `nExpandedRows` is the number of rows that are displayed. -/
def Counted (tt : Treetbl) : Prop := tt.nExpandedRows = displayed [] tt.children

/-- A click on the button of a row finds the row displayed. -/
def ButtonDisplayed (tt : Treetbl) : Call → Prop
  | .click _ x y =>
    ∀ found place, tt.target x y = some found →
        locate TreetblRow.self found.row [] tt.children = some place → tt.OnButton found x place →
            rowIsVisible place
  | _ => True

/-- When a call keeps `nExpandedRows` right -/
def CountsRight (tt : Treetbl) (call : Call) : Prop := tt.InTree call ∧ tt.ButtonDisplayed call

variable {tt next : Treetbl} {row : TreetblRowRef} {place : Place TreetblRow}

theorem Counted.of_sameRows (counted : tt.Counted) (same : tt.SameRows next) : next.Counted := by
  obtain ⟨children, rfl, sameRows⟩ := same
  exact counted.trans (congrArg Nat.cast (displayed_congr sameRows.symm))

/-! ## Rows that are added or removed -/

theorem displayed_of_perm {q other : TreetblRowQ} {row : TreetblRow} {above : List TreetblRow}
    (more : (paths [] q).Perm ((row, above) :: paths [] other)) :
    displayed [] q = displayed [] other + if above.all (·.expanded) then 1 else 0 := by
  unfold displayed
  rw [more.countP_eq, List.countP_cons]

theorem counted_added {pRow : Option TreetblRowRef} (sound : tt.Sound) (counted : tt.Counted)
    (inTree : ∀ p, pRow = some p → p ∈ tt.rowRefs) (row : TreetblRow) :
    (tt.added pRow row).Counted := by
  have more := displayed_of_perm (paths_withRow sound inTree row)
  unfold Counted at *
  unfold added
  dsimp only
  rw [more, counted]
  split <;> simp

theorem counted_removeAt (sound : tt.Sound) (counted : tt.Counted)
    (accessed : tt.access row = .ok place) (childless : place.children = .empty) :
    (tt.removeAt row place).Counted := by
  have more := displayed_of_perm (paths_removeAt sound accessed childless).symm
  unfold Counted at *
  rw [more] at counted
  unfold removeAt rowIsVisible at *
  dsimp only
  rw [counted]
  split <;> simp

/-! ## Rows that are expanded or collapsed -/

theorem displayed_setRow (sound : tt.Sound) (accessed : tt.access row = .ok place)
    (change : TreetblRow → TreetblRow) :
    displayed [] (tt.setRow row change).children +
        displayed (place.label :: place.above) place.children =
      displayed [] tt.children + displayed (change place.label :: place.above) place.children := by
  have changed : List.Perm (paths [] (adjust TreetblRow.self row
              (fun label children next => .node (change label) children next)
              tt.children) ++
          paths place.above (.node place.label place.children place.next))
        _ :=
    paths_adjust sound (access_eq_ok.mp accessed)
  have counts :=
    changed.countP_eq fun path : TreetblRow × List TreetblRow => path.2.all (·.expanded)
  rw [List.countP_append, List.countP_append] at counts
  change displayed [] (tt.setRow row change).children +
      displayed place.above (.node place.label place.children place.next) =
    displayed [] tt.children + displayed place.above
        (.node (change place.label) place.children place.next) at counts
  rw [displayed_node, displayed_node] at counts
  omega

theorem displayed_expand (sound : tt.Sound) (accessed : tt.access row = .ok place)
    (collapsed : place.label.expanded = false) :
    (displayed [] (tt.setRow row ({ · with expanded := true })).children : Int) =
      displayed [] tt.children +
        if rowIsVisible place then countVisibleChld place.children 0 else 0 := by
  have changed := displayed_setRow sound accessed ({ · with expanded := true })
  have before : displayed (place.label :: place.above) place.children = 0 := by
    refine displayed_of_collapsed ?_ _
    rw [List.all_cons, collapsed, Bool.false_and]
  have after := displayed_below { place.label with expanded := true } rfl place.above place.children
  dsimp only at after
  unfold rowIsVisible
  rw [← after]
  omega

theorem displayed_collapse (sound : tt.Sound) (accessed : tt.access row = .ok place)
    (opened : place.label.expanded = true) :
    (displayed [] (tt.setRow row ({ · with expanded := false })).children : Int) =
      displayed [] tt.children -
        if rowIsVisible place then countVisibleChld place.children 0 else 0 := by
  have changed := displayed_setRow sound accessed ({ · with expanded := false })
  have after : displayed ({ place.label with expanded := false } :: place.above)
        place.children = 0 := by
    refine displayed_of_collapsed ?_ _
    rw [List.all_cons, Bool.false_and]
  dsimp only at after
  have before := displayed_below _ opened place.above place.children
  unfold rowIsVisible
  rw [← before]
  omega

theorem counted_expandAt (sound : tt.Sound) (counted : tt.Counted)
    (accessed : tt.access row = .ok place) : (tt.expandAt row place).Counted := by
  unfold expandAt
  split
  case isTrue => exact counted
  case isFalse notOpened =>
    have changed := displayed_expand sound accessed (Bool.eq_false_of_not_eq_true notOpened)
    unfold Counted at *
    dsimp only
    split
    case isTrue visible =>
      rw [if_pos visible] at changed
      exact (congrArg (· + _) counted).trans changed.symm
    case isFalse hidden =>
      rw [if_neg hidden, Int.add_zero] at changed
      exact counted.trans changed.symm

theorem counted_collapseAt (sound : tt.Sound) (counted : tt.Counted)
    (accessed : tt.access row = .ok place) : (tt.collapseAt row place).Counted := by
  unfold collapseAt
  split
  case isTrue opened =>
    have changed := displayed_collapse sound accessed opened
    unfold Counted at *
    dsimp only
    split
    case isTrue visible =>
      rw [if_pos visible] at changed
      exact (congrArg (· - _) counted).trans changed.symm
    case isFalse hidden =>
      rw [if_neg hidden, Int.sub_zero] at changed
      exact counted.trans changed.symm
  case isFalse => exact counted

theorem counted_clickedAgain (sound : tt.Sound) (counted : tt.Counted)
    (accessed : tt.access row = .ok place) : (tt.clickedAgain row place).Counted := by
  unfold clickedAgain
  split
  · split
    · exact counted_collapseAt sound counted accessed
    · exact counted_expandAt sound counted accessed
  · exact counted.of_sameRows ((sameRows_deselectAll tt).trans (sameRows_setRow _ row true))

theorem counted_clickedTwice (sound : tt.Sound) (counted : tt.Counted)
    (clicked : tt.clickedTwice row = .ok next) : next.Counted := by
  rcases clickedTwice_cases clicked with
    ⟨_, rfl⟩ | ⟨_, place, accessed, rfl⟩
  · exact counted
  · exact counted_clickedAgain sound counted accessed

theorem countVisibleChld_pos {q : TreetblRowQ} (nonempty : q ≠ .empty) :
    0 < countVisibleChld q 0 := by
  cases q with
  | empty => exact absurd rfl nonempty
  | node row children next =>
    have expanded : ([] : List TreetblRow).all (·.expanded) = true := rfl
    rw [countVisibleChld_eq _ expanded, displayed_node, if_pos expanded]
    omega

theorem counted_clickedExpander_iff (sound : tt.Sound) (counted : tt.Counted)
    (accessed : tt.access row = .ok place) (nonempty : place.children ≠ .empty) :
    (tt.clickedExpander row place).Counted ↔ rowIsVisible place := by
  have some := countVisibleChld_pos nonempty
  have deselected : countVisibleChld (deselectAll place.children) 0 =
        countVisibleChld place.children 0 := by
    rw [countVisibleChld_eq [] rfl, countVisibleChld_eq [] rfl,
      displayed_congr (unselected_deselectAll place.children)]
  unfold clickedExpander Counted at *
  split
  case isTrue opened =>
    have changed := displayed_collapse sound accessed opened
    have same := (sameRows_setChildren (tt.setRow row ({ · with expanded := false })) row)
    obtain ⟨children, sameTable, sameRows⟩ := same
    dsimp only
    rw [sameTable, deselected]
    dsimp only
    rw [displayed_congr sameRows, changed, ← counted]
    change tt.nExpandedRows - _ = _ ↔ _
    cases rowIsVisible place with
    | true => simp
    | false =>
      simp
      omega
  case isFalse notOpened =>
    have changed := displayed_expand sound accessed (Bool.eq_false_of_not_eq_true notOpened)
    dsimp only
    rw [changed, ← counted]
    change tt.nExpandedRows + _ = _ ↔ _
    cases rowIsVisible place with
    | true => simp
    | false =>
      simp
      omega

/-! ## Runs -/

theorem counted_mouseButtonDown_iff {kmod : KeyMod} {x y : Int} (sound : tt.Sound)
    (counted : tt.Counted) (clicked : tt.mouseButtonDown kmod x y = .ok next) :
    next.Counted ↔ tt.ButtonDisplayed (.click kmod x y) := by
  rcases mouseButtonDown_cases clicked with
    ⟨untargeted, cleared⟩ |
      ⟨found, place, targeted, accessed, button | elsewhere⟩
  · have same : tt.SameRows next := by
      rcases cleared with rfl | rfl
      · exact SameRows.refl next
      · exact sameRows_deselectAll tt
    refine iff_of_true (counted.of_sameRows same) fun found _ targeted => ?_
    exact nomatch targeted.symm.trans untargeted
  · obtain ⟨onButton, rfl⟩ := button
    rw [counted_clickedExpander_iff sound counted accessed onButton.2]
    constructor
    · intro visible other otherPlace otherTargeted located _
      cases otherTargeted.symm.trans targeted
      cases located.symm.trans (access_eq_ok.mp accessed)
      exact visible
    · intro allDisplayed
      exact allDisplayed found place targeted (access_eq_ok.mp accessed) onButton
  · obtain ⟨notOnButton, selected, first, twice⟩ := elsewhere
    have sameRows := clickedSelect_sameRows first
    refine iff_of_true ?_ ?_
    · exact counted_clickedTwice (sound.of_rowRefs sameRows.rowRefs)
        (counted.of_sameRows sameRows) twice
    · intro other otherPlace otherTargeted located onButton
      cases otherTargeted.symm.trans targeted
      cases located.symm.trans (access_eq_ok.mp accessed)
      exact absurd onButton notOnButton

theorem counted_step_iff {call : Call} (sound : tt.Sound) (counted : tt.Counted)
    (admitted : tt.Admitted call) (taken : tt.step call = some next) :
    next.Counted ↔ tt.ButtonDisplayed call := by
  cases call with
  | addRow pRow rowID self granted =>
    refine iff_of_true ?_ trivial
    rw [eq_of_toOption taken (addRow_eq sound admitted.1 admitted.2.1)]
    split
    · exact counted
    · exact counted_added sound counted admitted.1 _
  | delRow row =>
    refine iff_of_true ?_ trivial
    obtain ⟨after, deleted, _, afterCounted⟩ :=
      delRow_rule Counted (fun _ _ _ => counted_removeAt) sound counted admitted
    rwa [eq_of_toOption taken deleted]
  | clearRows =>
    refine iff_of_true ?_ trivial
    obtain ⟨without, cleared, _⟩ :=
      clearRows_rule (fun _ => True) (fun _ _ _ _ _ _ _ => trivial) sound trivial
    rw [eq_of_toOption taken cleared]
    rfl
  | expandRow row =>
    refine iff_of_true ?_ trivial
    obtain ⟨place, accessed⟩ := exists_access admitted
    rw [eq_of_toOption taken (expandRow_eq accessed)]
    exact counted_expandAt sound counted accessed
  | collapseRow row =>
    refine iff_of_true ?_ trivial
    obtain ⟨place, accessed⟩ := exists_access admitted
    rw [eq_of_toOption taken (collapseRow_eq accessed)]
    exact counted_collapseAt sound counted accessed
  | selectRow row =>
    refine iff_of_true ?_ trivial
    obtain ⟨after, selected, same⟩ := selectRow_sameRows admitted
    rw [eq_of_toOption taken selected]
    exact counted.of_sameRows same
  | deselectRow row =>
    refine iff_of_true ?_ trivial
    obtain ⟨after, deselected, same⟩ := deselectRow_sameRows admitted
    rw [eq_of_toOption taken deselected]
    exact counted.of_sameRows same
  | click kmod x y => exact counted_mouseButtonDown_iff sound counted (toOption_eq_some.mp taken)
  | draw =>
    refine iff_of_true ?_ trivial
    cases taken
    unfold draw
    split
    · exact counted
    · exact counted
  | doubleClickTimeout | scroll value | scrollColumns value
  | sizeAllocate column rW rH =>
    refine iff_of_true ?_ trivial
    cases taken
    exact counted

/--
`nExpandedRows` is right throughout a run exactly when every click reaches
rows of the tree only and is on no button of a row that is not displayed.
-/
theorem counted_iff (flags : TreetblFlags) (hCol hRow : Int) (calls : List Call)
    (admissible : EachStep step Admitted (new flags hCol hRow) calls) :
    RunsWell step Counted (new flags hCol hRow) calls ↔
      EachStep step CountsRight (new flags hCol hRow) calls := by
  refine runsWell_iff_eachStep_of_admitted (fun tt => tt.Sound ∧ tt.Counted) ?_ ?_ ?_ ?_ admissible
  · exact fun _ invariant => invariant.2
  · intro tt call invariant admitted right
    obtain ⟨next, taken, sound⟩ := step_sound invariant.1 admitted right.1
    exact ⟨next, taken, sound,
      (counted_step_iff invariant.1 invariant.2 admitted taken).mpr right.2⟩
  · intro tt call next invariant admitted taken counted
    exact ⟨inTree_of_step taken,
      (counted_step_iff invariant.1 invariant.2 admitted taken).mp counted⟩
  · exact ⟨List.nodup_nil, rfl⟩

theorem counted_iff_button_displayed :
    RunsWell step Counted (new ⟨false, false, false, false⟩ 20 20)
      [.addRow none 1 10 true, .addRow (some 10) 2 11 true,
        .sizeAllocate [⟨100, true⟩] 100 100, .draw,
        .click ⟨false, false⟩ 10 30] := by
  apply (counted_iff ⟨false, false, false, false⟩ 20 20 _ ?_).mpr
  · refine .cons ⟨trivial, trivial⟩ rfl (.cons ⟨trivial, trivial⟩ rfl
      (.cons ⟨trivial, trivial⟩ rfl (.cons ⟨trivial, trivial⟩ rfl (.cons ⟨?_, ?_⟩ rfl trivial))))
    · rintro found ⟨⟩
      exact ⟨List.mem_cons_self, fun clicks => nomatch clicks.2.2⟩
    · rintro found place ⟨⟩ ⟨⟩ -
      rfl
  · refine .cons ⟨nofun, nofun, nofun⟩ rfl (.cons ⟨?_, ?_, nofun⟩ rfl
      (.cons trivial rfl (.cons trivial rfl (.cons trivial rfl trivial))))
    · rintro _ ⟨⟩
      exact List.mem_cons_self
    · exact List.not_mem_cons_of_ne_of_not_mem (by decide) List.not_mem_nil

theorem collapsed_button_is_counted :
    ¬ RunsWell step Counted (new ⟨false, false, false, false⟩ 20 20)
      [.addRow none 1 10 true, .addRow (some 10) 2 11 true,
        .addRow (some 11) 3 12 true, .expandRow 10,
        .sizeAllocate [⟨100, true⟩] 100 100, .draw, .collapseRow 10,
        .click ⟨false, false⟩ 25 50] := by
  rintro ⟨_, _, first, _, _, second, _, _, third, _, _, expanded, _, _, sized,
    _, _, drawn, _, _, collapsed, _, _, clicked, counted⟩
  cases first
  cases second
  cases third
  cases expanded
  cases sized
  cases drawn
  cases collapsed
  cases clicked
  cases counted

end Treetbl

end Agar.Gui
