import Agar.Gui.TreetblCount

namespace Agar.Gui

open Agar.Lib

/-!
# The view of a table with a tree of rows

`ViewChanged` walks the tree with two counters, of the rows to skip and of the
slots that are filled.  What it leaves in the view is the slice of the rows
displayed that starts at the value of the scrollbar.
-/

/-- The rows displayed, in order, each with its depth in the tree -/
def displayedRows (above : List TreetblRow) (q : TreetblRowQ) : List (TreetblRowRef × Nat) :=
  ((OrderedForest.paths above q).filter (·.2.all (·.expanded))).map
    fun path => (path.1.self, path.2.length)

theorem displayedRows_node {above : List TreetblRow} (expanded : above.all (·.expanded) = true)
    (row : TreetblRow) (children next : TreetblRowQ) :
    displayedRows above (.node row children next) = (row.self, above.length) ::
        (displayedRows (row :: above) children ++ displayedRows above next) := by
  unfold displayedRows
  rw [OrderedForest.paths, List.filter_cons, if_pos expanded,
    List.filter_append, List.map_cons, List.map_append]

theorem length_displayedRows (above : List TreetblRow) (q : TreetblRowQ) :
    (displayedRows above q).length = displayed above q := by
  unfold displayedRows displayed
  rw [List.length_map, List.countP_eq_length_filter]

theorem displayedRows_of_collapsed {above : List TreetblRow}
    (collapsed : above.all (·.expanded) = false) (q : TreetblRowQ) :
    displayedRows above q = [] := by
  apply List.eq_nil_of_length_eq_zero
  rw [length_displayedRows, displayed_of_collapsed collapsed]

/-!
## Slices

The two counters of `ViewChangedRecurse`: `filled` slots before, and `seen`
rows that are still to be skipped.
-/

/--
What is put in the view after `filled` slots is a slice of some rows, and where
it does not fill the view, all of the rows have been counted as seen.
-/
structure Slices (count filled seen : Nat) (rows : List (TreetblRowRef × Nat))
    (result : List (TreetblRowRef × Nat) × Int) : Prop where
  shown : result.1 = (rows.drop seen).take (count - filled)
  left : filled + result.1.length < count → result.2 = (seen - rows.length : Nat)

section

variable {count filled seen : Nat}

theorem slices_nil : Slices count filled seen [] ([], seen) := ⟨by simp, fun _ => by simp⟩

theorem slices_row (row : TreetblRowRef × Nat) : Slices count filled seen [row]
      (if (seen : Int) ≠ 0 then ([], (seen : Int) - 1)
      else if filled < count then ([row], seen)
      else
        ([], seen)) := by
  cases seen with
  | zero =>
    rw [if_neg (by simp)]
    by_cases room : filled < count
    · rw [if_pos room]
      refine ⟨?_, fun _ => by simp⟩
      obtain ⟨more, rest⟩ : ∃ more, count - filled = more + 1 := ⟨count - filled - 1, by omega⟩
      rw [rest, List.drop_zero, List.take_succ_cons, List.take_nil]
    · rw [if_neg room]
      refine ⟨?_, fun some => absurd some (by simp; omega)⟩
      rw [Nat.sub_eq_zero_of_le (by omega), List.take_zero]
  | succ seen =>
    rw [if_pos (by omega)]
    refine ⟨by simp, fun _ => ?_⟩
    rw [List.length_singleton]
    push_cast
    omega

theorem Slices.append {front back : List (TreetblRowRef × Nat)}
    {first second : List (TreetblRowRef × Nat) × Int}
    (slices : Slices count filled seen front first) (continues : filled + first.1.length < count →
        Slices count (filled + first.1.length) (seen - front.length) back second) :
    Slices count filled seen (front ++ back) (if filled + first.1.length < count then
        (first.1 ++ second.1, second.2)
      else
        first) := by
  have length : first.1.length = min (count - filled) (front.length - seen) := by
    rw [slices.shown, List.length_take, List.length_drop]
  split
  case isTrue room =>
    have following := continues room
    have whole : first.1 = front.drop seen := by
      rw [slices.shown, List.take_of_length_le]
      rw [List.length_drop]
      omega
    refine ⟨?_, fun more => ?_⟩
    · have skipped : front.length - seen = first.1.length := by
        omega
      dsimp only
      rw [following.shown, List.drop_append, List.take_append, ← whole,
        @List.take_of_length_le _ _ first.1 (by omega), Nat.sub_sub]
    · dsimp only at more ⊢
      rw [List.length_append] at more ⊢
      rw [following.left (by omega)]
      omega
  case isFalse full =>
    refine ⟨?_, fun more => absurd more full⟩
    have none : count - filled - (front.length - seen) = 0 := by omega
    rw [slices.shown, List.drop_append, List.take_append, List.length_drop, none,
      List.take_zero, List.append_nil]

end

theorem slices_viewChangedRecurse {count : Nat} {above : List TreetblRow}
    (expanded : above.all (·.expanded) = true) (q : TreetblRowQ) (filled seen : Nat) :
    Slices count filled seen (displayedRows above q)
      (viewChangedRecurse count q above.length filled seen) := by
  induction q generalizing above filled seen with
  | empty => exact slices_nil
  | node row children next childrenIh nextIh =>
    have first := @slices_row count filled seen (row.self, above.length)
    rw [displayedRows_node expanded, ← List.singleton_append, ← List.append_assoc]
    unfold viewChangedRecurse
    dsimp only
    generalize (if (seen : Int) ≠ 0 then ([], (seen : Int) - 1)
      else if filled < count then ([(row.self, above.length)], (seen : Int))
      else ([], (seen : Int))) = shown at first ⊢
    -- the children come next, if there is a slot left for them
    have withChildren : Slices count filled seen
          ([(row.self, above.length)] ++ displayedRows (row :: above) children)
          (shown.1 ++ (if row.expanded = true ∧ filled + shown.1.length < count then
                viewChangedRecurse count children (above.length + 1)
                  (filled + shown.1.length) shown.2
              else ([], shown.2)).1,
            (if row.expanded = true ∧ filled + shown.1.length < count then
              viewChangedRecurse count children (above.length + 1) (filled + shown.1.length) shown.2
            else
              ([], shown.2)).2) := by
      by_cases room : filled + shown.1.length < count
      case pos =>
        have left := first.left room
        rw [List.length_singleton] at left
        by_cases opened : row.expanded = true
        · have below : (row :: above).all (·.expanded) = true := by
            rw [List.all_cons, opened, expanded, Bool.and_true]
          have both := first.append fun _ =>
            childrenIh below (filled + shown.1.length) (seen - 1)
          rw [if_pos room] at both
          rw [if_pos ⟨opened, room⟩, left]
          exact both
        · have below : (row :: above).all (·.expanded) = false := by
            rw [List.all_cons, Bool.eq_false_of_not_eq_true opened, Bool.false_and]
          have both := first.append fun _ => slices_nil
          rw [if_pos room] at both
          rw [if_neg (fun both => opened both.1), left, displayedRows_of_collapsed below]
          exact both
      case neg =>
        have both :=
          @Slices.append count filled seen _ (displayedRows (row :: above) children)
            shown shown first fun some => absurd some room
        rw [if_neg room] at both
        rw [if_neg (fun both => room both.2), List.append_nil]
        exact both
    generalize (if row.expanded = true ∧ filled + shown.1.length < count then
        viewChangedRecurse count children (above.length + 1) (filled + shown.1.length) shown.2
      else ([], shown.2)) = below at withChildren ⊢
    have length : filled + shown.1.length + below.1.length =
          filled + (shown.1 ++ below.1).length := by
      rw [List.length_append, Nat.add_assoc]
    rw [length]
    split
    case isTrue full =>
      have all :=
        @Slices.append count filled seen _ (displayedRows above next) _ below
          withChildren fun some => absurd full (Nat.not_le_of_lt some)
      rw [if_neg (Nat.not_lt_of_le full)] at all
      exact all
    case isFalse room =>
      have more := Nat.lt_of_not_le room
      have all := withChildren.append fun _ =>
        nextIh expanded (filled + (shown.1 ++ below.1).length) _
      rw [if_pos more, ← withChildren.left more] at all
      exact all

theorem viewChanged_items (tt : Treetbl) (v : Nat) (value : tt.viewChanged.vBarValue = v) :
    tt.viewChanged.items =
      (((displayedRows [] tt.children).drop v).take tt.items.length).map some ++ List.replicate
          (tt.items.length - (((displayedRows [] tt.children).drop v).take tt.items.length).length)
          none := by
  have slices := @slices_viewChangedRecurse tt.items.length [] rfl tt.children 0 v
  rw [← Nat.sub_zero tt.items.length, ← slices.shown, Nat.sub_zero, ← value]
  exact rfl

/--
After `ViewChanged` a slot of the view holds the row displayed whose number is
the one of the slot, counted from the value of the scrollbar on, or nothing if
there is no such row.
-/
theorem viewChanged_slot (tt : Treetbl) (v : Nat) (value : tt.viewChanged.vBarValue = v) (i : Nat)
    (inView : i < tt.items.length) :
    tt.viewChanged.items[i]? = some (displayedRows [] tt.children)[v + i]? := by
  rw [viewChanged_items tt v value]
  by_cases listed : v + i < (displayedRows [] tt.children).length
  · have found : i < (((displayedRows [] tt.children).drop v).take tt.items.length).length := by
      rw [List.length_take, List.length_drop]
      omega
    rw [List.getElem?_append_left (by rwa [List.length_map]), List.getElem?_map,
      List.getElem?_take_of_lt inView, List.getElem?_drop]
    rw [List.getElem?_eq_getElem listed]
    exact rfl
  · rw [List.getElem?_eq_none (Nat.le_of_not_lt listed)]
    have ended : (((displayedRows [] tt.children).drop v).take tt.items.length).length ≤ i := by
      rw [List.length_take, List.length_drop]
      omega
    rw [List.getElem?_append_right (by rwa [List.length_map]), List.length_map,
      List.getElem?_replicate_of_lt (by omega)]

def expandedTable : Treetbl where
  flags := { multi := false, multiToggle := false, noDupChecks := false, polled := false }
  column := []
  rW := 100
  rH := 20
  hCol := 10
  hRow := 10
  hBarValue := 0
  vBarValue := 1
  dblClicked := false
  children :=
    .node { self := 1, rid := 1, expanded := true, selected := false }
      (.node { self := 2, rid := 2, expanded := false, selected := false } .empty .empty)
      (.node { self := 3, rid := 3, expanded := false, selected := false } .empty .empty)
  backstore := []
  nExpandedRows := 3
  items := [none, none]
  dirty := true

theorem viewChanged_slot_below : expandedTable.viewChanged.items[0]? = some (some (2, 1)) :=
  viewChanged_slot expandedTable 1 (by decide) 0 (by decide)

end Agar.Gui
