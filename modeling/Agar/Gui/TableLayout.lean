import Agar.Gui.Table

namespace Agar.Gui

open Agar.Lib
open Agar.Core

/-!
# Clicks on the columns of a table

Three handlers of clicks look for the column at a pixel.  Two of them sum the
widths of the columns up, from five pixels to the left of where `Draw` puts
them; the third uses a position that `AG_TableAddCol` has stored.

Widths and positions are integers.
-/

/-- `COLUMN_RESIZE_RANGE` -/
def columnResizeRange : Int := 10

variable {D : Type}

namespace Table

/-! ## Widths -/

/-- A column after the first loop of `SizeColumns`, its part of `wTot`, and
whether it is to fill the rest -/
def sizeColumn (rW : Int) (tc : TableCol D) : TableCol D × Int × Bool :=
  if tc.wPct ≠ -1 then
    let w := (tc.wPct * rW).tdiv 100
    ({ tc with w := w, wPct := -1 }, w, false)
  else if tc.flags &&& tableColFill ≠ 0 then
    ({ tc with flags := tc.flags &&& ~~~tableColFill }, 0, true)
  else (tc, tc.w, false)

/-- The first loop of `SizeColumns`: the columns, `wTot`, and `tcFill` -/
def sizeLoop (rW : Int) : Nat → List (TableCol D) → List (TableCol D) × Int × Option Nat
  | _, [] => ([], 0, none)
  | n, tc :: cols =>
    let (tc, part, fills) := sizeColumn rW tc
    let (cols, wTot, tcFill) := sizeLoop rW (n + 1) cols
    (tc :: cols, part + wTot, tcFill.or (if fills then some n else none))

/-- `SizeColumns`, without the cursor areas -/
def sizeColumns (t : Table D) : Table D :=
  let (cols, wTot, tcFill) := sizeLoop t.rW 0 t.cols
  match tcFill with
  | none => { t with cols := cols, wTot := wTot }
  | some n =>
    let rest := t.rW - ((cols.eraseIdx n).map TableCol.w).sum
    let w := if rest < t.wColMin then t.wColMin else rest
    { t with
      cols := cols.modify n fun tcFill => { tcFill with w := w }
      wTot := wTot + w }

/-- `SizeAllocate`, of a size and a scrollbar, without the rows -/
def sizeAllocate (aW aH hCol vBarSz : Int) (t : Table D) : Table D :=
  if aH - hCol ≤ 0 then { t with rW := aW }
  else
    let t := { t with rW := aW - vBarSz }.sizeColumns
    if t.wTot ≤ t.xOffs + t.rW then { t with xOffs := max 0 (t.wTot - t.rW) } else t

/-- `MouseMotion` inside of the table -/
def mouseMotion (xrel : Int) (t : Table D) : Table D :=
  if 0 ≤ t.nResizing ∧ t.nResizing < t.cols.length then
    sizeColumns { t with
      cols :=
        t.cols.modify t.nResizing.toNat fun tc =>
          let w := tc.w + xrel
          { tc with w := if w < t.wColMin then t.wColMin else w } }
  else t

/-- `MouseButtonUp` of the left button -/
def mouseButtonUp (t : Table D) : Table D :=
  if 0 ≤ t.nResizing then { t with nResizing := -1 } else t

/-! ## Columns that are drawn -/

/-- The loop of `Draw`: the columns that it draws, where, and how wide -/
def drawLoop (rW : Int) : Nat → Int → List (TableCol D) → List (Nat × Int × Int)
  | _, _, [] => []
  | n, x, tc :: cols =>
    if x < rW then
      if tc.w ≤ 0 then drawLoop rW (n + 1) x cols
      else (n, x, if x + tc.w < rW then tc.w else rW - x) :: drawLoop rW (n + 1) (x + tc.w) cols
    else []

/-- A pixel is inside of what is drawn of a column. -/
def covers (px : Int) (drawn : Nat × Int × Int) : Bool :=
  drawn.2.1 ≤ px ∧ px < drawn.2.1 + drawn.2.2

/-- The column that is drawn at a pixel -/
def columnAt (t : Table D) (px : Int) : Option Nat :=
  ((drawLoop t.rW 0 (-t.xOffs) t.cols).find? (covers px)).map Prod.fst

/-! ## Clicks -/

/-- What a click on a header does with a column -/
inductive HeaderAction where
  /-- `nResizing` is set, if it is not -/
  | resize
  /-- `colAction`, and the events of clicks and double clicks -/
  | click
  deriving Repr, DecidableEq

/-- The loop of `ColumnLeftClick`: the columns that it acts on -/
def columnLeftClickLoop (x : Int) : Nat → Int → List (TableCol D) → List (Nat × HeaderAction)
  | _, _, [] => []
  | n, x1, tc :: cols =>
    let x2 := x1 + tc.w
    if x > x1 ∧ x < x2 then
      (n, if x2 - x ≤ columnResizeRange then .resize else .click) ::
        columnLeftClickLoop x (n + 1) x2 cols
    else columnLeftClickLoop x (n + 1) x2 cols

/-- The columns that `ColumnLeftClick` acts on -/
def columnLeftClick (t : Table D) (px : Int) : List (Nat × HeaderAction) :=
  columnLeftClickLoop (px - columnResizeRange / 2) 0 (-t.xOffs) t.cols

/-- `nResizing` behind `ColumnLeftClick` -/
def startResizing (px : Int) (t : Table D) : Table D :=
  match (t.columnLeftClick px).find? fun act => act.2 = .resize with
  | some (n, _) => if t.nResizing = -1 then { t with nResizing := n } else t
  | none => t

/-- The first loop of `CellLeftClick` -/
def cellLeftClickLoop (x : Int) : Nat → List (TableCol D) → Nat
  | nc, [] => nc
  | nc, tc :: cols => if x > tc.x ∧ x < tc.x + tc.w then nc else cellLeftClickLoop x (nc + 1) cols

/-- The column that `CellLeftClick` acts on, if there are columns -/
def cellLeftClick (t : Table D) (x : Int) : Option Nat :=
  if t.cols = [] then none
  else
    let nc := cellLeftClickLoop (x + t.xOffs) 0 t.cols
    if nc = t.cols.length then some (t.cols.length - 1) else some nc

/-- The popup of a row and a column -/
def popupOf (popups : List TablePopup) (m n : Nat) : Option TablePopup :=
  popups.find? fun tp => (tp.m = m ∨ tp.m = -1) ∧ (tp.n = n ∨ tp.n = -1)

/-- The loop of `CellRightClick`: the column whose popup it shows -/
def cellRightClickLoop (popups : List TablePopup) (m : Nat)
    (x : Int) : Nat → Int → List (TableCol D) → Option (Nat × TablePopup)
  | _, _, [] => none
  | n, cx, tc :: cols =>
    if x < cx ∨ x > cx + tc.w then cellRightClickLoop popups m x (n + 1) cx cols
    else
      match popupOf popups m n with
      | some tp => some (n, tp)
      | none => cellRightClickLoop popups m x (n + 1) (cx + tc.w) cols

/-- `CellRightClick` -/
def cellRightClick (t : Table D) (m : Nat) (px : Int) : Option (Nat × TablePopup) :=
  cellRightClickLoop t.popups m (px - columnResizeRange / 2) 0 (-t.xOffs) t.cols

/-! ## Tables in use -/

/-- The tables that columns are added to, and that are sized, resized and
scrolled -/
inductive Laid : Table D → Prop where
  | init : Laid init
  | addCol {t} (name sizeSpec sortFn) : Laid t → Laid (t.addCol name sizeSpec sortFn)
  | sizeAllocate {t} (aW aH hCol vBarSz) : Laid t → Laid (t.sizeAllocate aW aH hCol vBarSz)
  | press {t} (px) : Laid t → Laid (t.startResizing px)
  | move {t} (xrel) : Laid t → Laid (t.mouseMotion xrel)
  | release {t} : Laid t → Laid t.mouseButtonUp
  | scroll {t} (xOffs) : Laid t → Laid { t with xOffs := xOffs }

/-! ## What clicks are for -/

/--
At a pixel, each click acts on the column that is drawn there: one on a header,
a left click on a cell, and a right click, which shows a popup of the column
whatever popups there are.
-/
structure ClicksMatch (t : Table D) (px : Int) : Prop where
  header : ∀ n, n ∈ (t.columnLeftClick px).map Prod.fst ↔ t.columnAt px = some n
  left : t.cellLeftClick px = t.columnAt px
  right : ∀ popups m, cellRightClick { t with popups := popups } m px =
        (t.columnAt px).bind fun n => (popupOf popups m n).map fun tp => (n, tp)

/-- The sum of the widths of some columns -/
def totalWidth (cols : List (TableCol D)) : Int := (cols.map TableCol.w).sum

/-- The width of some columns as they are drawn, which is at least zero for each -/
def drawnWidth (cols : List (TableCol D)) : Int := (cols.map fun tc => max tc.w 0).sum

/--
A column between others is found by every click at a place of the table: it is
drawn there, and of all columns only its header begins and ends around a place
five pixels to the left; its stored position is around the place, or it is the
last, and no other one before it is; and with its own width, but with none of
those before it, it reaches from the start of the table over the place to the
left, where no later one follows.
-/
structure FoundAt (cols front : List (TableCol D)) (tc : TableCol D) (back : List (TableCol D))
    (x : Int) : Prop where
  split : cols = front ++ tc :: back
  drawn : drawnWidth front ≤ x ∧ x < drawnWidth front + tc.w
  header : ∀ front' tc' back', cols = front' ++ tc' :: back' →
        (totalWidth front' < x - 5 ∧ x - 5 < totalWidth front' + tc'.w ↔
          front'.length = front.length)
  leftBefore : ∀ col ∈ front, ¬ (col.x < x ∧ x < col.x + col.w)
  left : tc.x < x ∧ x < tc.x + tc.w ∨ back = []
  rightBefore : ∀ col ∈ front, ¬ (0 ≤ x - 5 ∧ x - 5 ≤ col.w)
  right : 0 ≤ x - 5 ∧ x - 5 ≤ tc.w
  rightBehind : x - 5 < tc.w ∨ ∀ col ∈ back, col.w < 0

/-! ## The columns that clicks find -/

theorem exists_split_cons {α : Type} {P : List α → α → List α → Prop} {first : α} {rest : List α} :
    (∃ front a back, first :: rest = front ++ a :: back ∧ P front a back) ↔ P [] first rest ∨
        ∃ front a back, rest = front ++ a :: back ∧ P (first :: front) a back := by
  constructor
  · rintro ⟨front, a, back, split, holds⟩
    cases front with
    | nil =>
      cases split
      exact .inl holds
    | cons b front =>
      cases split
      exact .inr ⟨front, a, back, rfl, holds⟩
  · rintro (holds | ⟨front, a, back, rfl, holds⟩)
    · exact ⟨[], first, rest, rfl, holds⟩
    · exact ⟨first :: front, a, back, rfl, holds⟩

theorem not_exists_split_nil {α : Type} {P : List α → α → List α → Prop} :
    ¬ ∃ front a back, [] = front ++ a :: back ∧ P front a back := by
  rintro ⟨front, a, back, split, _⟩
  cases front <;> cases split

@[simp] theorem drawnWidth_cons (tc : TableCol D) (cols : List (TableCol D)) :
    drawnWidth (tc :: cols) = max tc.w 0 + drawnWidth cols :=
  List.sum_cons

@[simp] theorem totalWidth_cons (tc : TableCol D) (cols : List (TableCol D)) :
    totalWidth (tc :: cols) = tc.w + totalWidth cols :=
  List.sum_cons

@[simp] theorem drawnWidth_nil : drawnWidth ([] : List (TableCol D)) = 0 := rfl

@[simp] theorem totalWidth_nil : totalWidth ([] : List (TableCol D)) = 0 := rfl

theorem drawnWidth_nonneg (cols : List (TableCol D)) : 0 ≤ drawnWidth cols := by
  induction cols with
  | nil => rfl
  | cons tc cols ih =>
    rw [drawnWidth_cons]
    omega

theorem find_drawLoop {rW px : Int} (inside : px < rW) (cols : List (TableCol D)) (n : Nat)
    (x : Int) (k : Nat) :
    ((drawLoop rW n x cols).find? (covers px)).map Prod.fst = some k ↔ ∃ front tc back,
        cols = front ++ tc :: back ∧ k = n + front.length ∧
          x + drawnWidth front ≤ px ∧ px < x + drawnWidth front + tc.w := by
  induction cols generalizing n x with
  | nil => exact iff_of_false (by simp [drawLoop]) not_exists_split_nil
  | cons tc cols ih =>
    rw [exists_split_cons]
    simp only [drawnWidth_cons, drawnWidth_nil, List.length_cons, List.length_nil]
    have behind : (∃ front tc' back, cols = front ++ tc' :: back ∧ k = n + 1 + front.length ∧
              x + max tc.w 0 + drawnWidth front ≤ px ∧
              px < x + max tc.w 0 + drawnWidth front + tc'.w) ↔
          ∃ front tc' back, cols = front ++ tc' :: back ∧ k = n + (front.length + 1) ∧
              x + (max tc.w 0 + drawnWidth front) ≤ px ∧
              px < x + (max tc.w 0 + drawnWidth front) + tc'.w := by
      simp only [Nat.add_assoc, Nat.add_comm 1, Int.add_assoc]
    rw [← behind, drawLoop]
    by_cases visible : x < rW
    · rw [if_pos visible]
      by_cases hidden : tc.w ≤ 0
      · rw [if_pos hidden, max_eq_right hidden, Int.add_zero, ih, or_iff_right]
        omega
      · rw [if_neg hidden, max_eq_left (by omega)]
        by_cases here : x ≤ px ∧ px < x + tc.w
        · have covered : covers px (n, x, if x + tc.w < rW then tc.w else rW - x) = true := by
            rw [covers, decide_eq_true_iff]
            dsimp only
            split_ifs <;> omega
          rw [List.find?_cons_of_pos covered, or_iff_left]
          · simp only [Option.map_some, Option.some.injEq]
            omega
          · rintro ⟨front, _, _, _, _, beyond, _⟩
            have wide := drawnWidth_nonneg front
            omega
        · have uncovered : ¬ covers px (n, x, if x + tc.w < rW then tc.w else rW - x) = true := by
            rw [covers, decide_eq_true_iff]
            dsimp only
            split_ifs <;> omega
          rw [List.find?_cons_of_neg uncovered, ih, or_iff_right]
          omega
    · rw [if_neg visible]
      refine iff_of_false (by simp) ?_
      rintro (⟨_, _, _⟩ | ⟨front, _, _, _, _, beyond, _⟩)
      · omega
      · have wide := drawnWidth_nonneg front
        omega

theorem mem_columnLeftClickLoop (x : Int) (cols : List (TableCol D)) (n : Nat) (x1 : Int)
    (k : Nat) :
    k ∈ (columnLeftClickLoop x n x1 cols).map Prod.fst ↔ ∃ front tc back,
        cols = front ++ tc :: back ∧ k = n + front.length ∧
          x1 + totalWidth front < x ∧ x < x1 + totalWidth front + tc.w := by
  induction cols generalizing n x1 with
  | nil => exact iff_of_false (by simp [columnLeftClickLoop]) not_exists_split_nil
  | cons tc cols ih =>
    rw [exists_split_cons]
    simp only [totalWidth_cons, totalWidth_nil, List.length_cons,
      List.length_nil, Int.add_zero, Nat.add_zero]
    have behind : (∃ front tc' back, cols = front ++ tc' :: back ∧ k = n + 1 + front.length ∧
              x1 + tc.w + totalWidth front < x ∧
              x < x1 + tc.w + totalWidth front + tc'.w) ↔
          ∃ front tc' back, cols = front ++ tc' :: back ∧ k = n + (front.length + 1) ∧
              x1 + (tc.w + totalWidth front) < x ∧
              x < x1 + (tc.w + totalWidth front) + tc'.w := by
      simp only [Nat.add_assoc, Nat.add_comm 1, Int.add_assoc]
    rw [← behind, ← ih, columnLeftClickLoop]
    by_cases here : x > x1 ∧ x < x1 + tc.w
    · rw [if_pos here, List.map_cons, List.mem_cons, and_iff_left here]
    · rw [if_neg here, or_iff_right fun found => here found.2]

theorem cellLeftClickLoop_append (x : Int) (nc : Nat) (front cols : List (TableCol D))
    (before : ∀ col ∈ front, ¬ (col.x < x ∧ x < col.x + col.w)) :
    cellLeftClickLoop x nc (front ++ cols) = cellLeftClickLoop x (nc + front.length) cols := by
  induction front generalizing nc with
  | nil => rfl
  | cons tc front ih =>
    rw [List.forall_mem_cons] at before
    rw [List.cons_append, cellLeftClickLoop, if_neg before.1,
      ih (nc + 1) before.2, List.length_cons]
    congr 1
    omega

theorem le_cellLeftClickLoop (x : Int) (nc : Nat) (cols : List (TableCol D)) :
    nc ≤ cellLeftClickLoop x nc cols := by
  induction cols generalizing nc with
  | nil => exact le_rfl
  | cons tc cols ih =>
    rw [cellLeftClickLoop]
    have bound := ih (nc + 1)
    split_ifs <;> omega

theorem cellLeftClickLoop_lt {x : Int} {nc : Nat} {front cols : List (TableCol D)} {tc : TableCol D}
    (member : tc ∈ front) (hit : tc.x < x ∧ x < tc.x + tc.w) :
    cellLeftClickLoop x nc (front ++ cols) < nc + front.length := by
  induction front generalizing nc with
  | nil => cases member
  | cons first front ih =>
    rw [List.cons_append, cellLeftClickLoop, List.length_cons]
    split_ifs with here
    · omega
    · rcases List.mem_cons.mp member with rfl | behind
      · exact absurd hit here
      · have bound : _ < nc + 1 + front.length := ih behind
        omega

theorem cellLeftClick_eq_iff {t : Table D} {front back : List (TableCol D)} {tc : TableCol D}
    {px : Int} (split : t.cols = front ++ tc :: back) :
    t.cellLeftClick px = some front.length ↔
      (∀ col ∈ front, ¬ (col.x < px + t.xOffs ∧ px + t.xOffs < col.x + col.w)) ∧
        (tc.x < px + t.xOffs ∧ px + t.xOffs < tc.x + tc.w ∨ back = []) := by
  have nonempty : front ++ tc :: back ≠ [] := by simp
  rw [cellLeftClick, split, if_neg nonempty]
  simp only [List.length_append, List.length_cons]
  by_cases before : ∀ col ∈ front, ¬ (col.x < px + t.xOffs ∧ px + t.xOffs < col.x + col.w)
  · rw [and_iff_right before, cellLeftClickLoop_append _ _ _ _ before,
      cellLeftClickLoop, Nat.zero_add]
    by_cases here : tc.x < px + t.xOffs ∧ px + t.xOffs < tc.x + tc.w
    · rw [if_pos here, if_neg (by omega)]
      exact iff_of_true rfl (.inl here)
    · rw [if_neg here, or_iff_right here]
      cases back with
      | nil =>
        refine iff_of_true ?_ rfl
        exact if_pos rfl
      | cons next back =>
        have beyond := le_cellLeftClickLoop (px + t.xOffs) (front.length + 1) (next :: back)
        refine iff_of_false ?_ (List.cons_ne_nil _ _)
        rw [List.length_cons]
        split_ifs <;> simp only [Option.some.injEq] <;> omega
  · have found : cellLeftClickLoop (px + t.xOffs) 0 (front ++ tc :: back) < 0 + front.length := by
      push Not at before
      obtain ⟨col, member, above, below⟩ := before
      exact cellLeftClickLoop_lt member ⟨above, below⟩
    refine iff_of_false ?_ fun holds => before holds.1
    rw [if_neg (by omega), Option.some.injEq]
    omega

/-! ## Right clicks -/

/-- The columns that a right click comes into where no popup is found -/
def enteredLoop (x : Int) : Nat → Int → List (TableCol D) → List Nat
  | _, _, [] => []
  | n, cx, tc :: cols =>
    if x < cx ∨ x > cx + tc.w then enteredLoop x (n + 1) cx cols
    else n :: enteredLoop x (n + 1) (cx + tc.w) cols

theorem cellRightClickLoop_eq (popups : List TablePopup) (m : Nat) (x : Int) (n : Nat) (cx : Int)
    (cols : List (TableCol D)) :
    cellRightClickLoop popups m x n cx cols = (enteredLoop x n cx cols).findSome? fun n =>
        (popupOf popups m n).map fun tp => (n, tp) := by
  induction cols generalizing n cx with
  | nil => rfl
  | cons tc cols ih =>
    rw [cellRightClickLoop, enteredLoop]
    by_cases outside : x < cx ∨ x > cx + tc.w
    · rw [if_pos outside, if_pos outside, ih]
    · rw [if_neg outside, if_neg outside, List.findSome?_cons]
      cases popup : popupOf popups m n with
      | some tp => rfl
      | none => exact ih (n + 1) (cx + tc.w)

theorem popupOf_column (m n k : Nat) :
    popupOf [⟨-1, n⟩] m k = if k = n then some ⟨-1, n⟩ else none := by
  by_cases same : k = n
  · rw [if_pos same, same]
    exact List.find?_cons_of_pos (by simp)
  · rw [if_neg same]
    refine List.find?_cons_of_neg ?_
    rw [decide_eq_true_iff]
    dsimp only
    omega

theorem enteredLoop_increasing (x : Int) (n : Nat) (cx : Int) (cols : List (TableCol D)) :
    (enteredLoop x n cx cols).Pairwise (· < ·) ∧ ∀ k ∈ enteredLoop x n cx cols, n ≤ k := by
  induction cols generalizing n cx with
  | nil => exact ⟨.nil, fun _ none => absurd none List.not_mem_nil⟩
  | cons tc cols ih =>
    rw [enteredLoop]
    split_ifs
    · obtain ⟨increasing, above⟩ := ih (n + 1) cx
      exact ⟨increasing, fun k member => (Nat.le_succ n).trans (above k member)⟩
    · obtain ⟨increasing, above⟩ := ih (n + 1) (cx + tc.w)
      refine ⟨.cons above increasing, fun k member => ?_⟩
      rcases List.mem_cons.mp member with rfl | behind
      · exact le_rfl
      · exact (Nat.le_succ n).trans (above k behind)

theorem right_iff {entered : List Nat} (increasing : entered.Pairwise (· < ·))
    (column : Option Nat) :
    (∀ popups m, (entered.findSome? fun n =>
            (popupOf popups m n).map fun tp => (n, tp)) =
          column.bind fun n => (popupOf popups m n).map fun tp => (n, tp)) ↔
      entered = column.toList := by
  constructor
  · intro shown
    cases entered with
    | nil =>
      cases column with
      | none => rfl
      | some k =>
        have shownHere := shown [⟨-1, k⟩] 0
        simp [popupOf_column] at shownHere
    | cons n rest =>
      have isColumn : column = some n := by
        have shownHere := shown [⟨-1, n⟩] 0
        rw [List.findSome?_cons, popupOf_column, if_pos rfl] at shownHere
        cases column with
        | none => cases shownHere
        | some k =>
          by_cases same : k = n
          · rw [same]
          · simp [popupOf_column, same] at shownHere
      subst isColumn
      cases rest with
      | nil => rfl
      | cons r rest =>
        have behind : n < r := (List.pairwise_cons.mp increasing).1 r List.mem_cons_self
        have shownThere := shown [⟨-1, r⟩] 0
        simp [popupOf_column, behind.ne] at shownThere
  · rintro rfl popups m
    cases column with
    | none => rfl
    | some n => cases popup : popupOf popups m n <;> simp [popup]

theorem enteredLoop_eq_nil_iff (x : Int) (n : Nat) (cx : Int) (cols : List (TableCol D)) :
    enteredLoop x n cx cols = [] ↔ ∀ col ∈ cols, ¬ (cx ≤ x ∧ x ≤ cx + col.w) := by
  induction cols generalizing n with
  | nil => exact iff_of_true rfl (List.forall_mem_nil _)
  | cons tc cols ih =>
    rw [enteredLoop, List.forall_mem_cons]
    by_cases outside : x < cx ∨ x > cx + tc.w
    · rw [if_pos outside, ih, and_iff_right]
      omega
    · rw [if_neg outside]
      refine iff_of_false (List.cons_ne_nil _ _) fun none => none.1 ?_
      omega

theorem enteredLoop_eq_singleton_iff (x : Int) (n : Nat) (cx : Int) (front back : List (TableCol D))
    (tc : TableCol D) :
    enteredLoop x n cx (front ++ tc :: back) = [n + front.length] ↔
      (∀ col ∈ front, ¬ (cx ≤ x ∧ x ≤ cx + col.w)) ∧ (cx ≤ x ∧ x ≤ cx + tc.w) ∧
        ∀ col ∈ back, ¬ (cx + tc.w ≤ x ∧ x ≤ cx + tc.w + col.w) := by
  induction front generalizing n with
  | nil =>
    rw [List.nil_append, enteredLoop, List.length_nil, and_iff_right (List.forall_mem_nil _)]
    simp only [Nat.add_zero]
    by_cases outside : x < cx ∨ x > cx + tc.w
    · rw [if_pos outside]
      refine iff_of_false ?_ (by omega)
      intro same
      have above := (enteredLoop_increasing x (n + 1) cx back).2 n (same ▸ List.mem_cons_self)
      omega
    · rw [if_neg outside, List.cons.injEq, and_iff_right rfl, enteredLoop_eq_nil_iff, and_iff_right]
      omega
  | cons col front ih =>
    rw [List.cons_append, enteredLoop, List.forall_mem_cons]
    by_cases outside : x < cx ∨ x > cx + col.w
    · have place : n + (col :: front).length = n + 1 + front.length := by
        rw [List.length_cons]
        omega
      rw [if_pos outside, place, ih, and_iff_right (a := ¬ (cx ≤ x ∧ x ≤ cx + col.w))]
      omega
    · rw [if_neg outside, List.length_cons]
      refine iff_of_false ?_ fun none => none.1.1 (by omega)
      intro same
      have first := (List.cons.inj same).1
      omega

/-! ## When clicks match -/

section Matches

variable {t : Table D} {px : Int}

theorem columnAt_eq_some_iff (inside : px < t.rW) (k : Nat) : t.columnAt px = some k ↔
      ∃ front tc back, t.cols = front ++ tc :: back ∧ k = front.length ∧
          drawnWidth front ≤ px + t.xOffs ∧ px + t.xOffs < drawnWidth front + tc.w := by
  rw [columnAt, find_drawLoop inside]
  simp only [Nat.zero_add]
  refine exists₃_congr fun front tc back => and_congr_right fun _ => and_congr_right fun _ => ?_
  constructor <;> intro within <;> constructor <;> omega

theorem mem_columnLeftClick (k : Nat) : k ∈ (t.columnLeftClick px).map Prod.fst ↔ ∃ front tc back,
        t.cols = front ++ tc :: back ∧ k = front.length ∧ totalWidth front < px + t.xOffs - 5 ∧
            px + t.xOffs - 5 < totalWidth front + tc.w := by
  rw [columnLeftClick, mem_columnLeftClickLoop]
  simp only [Nat.zero_add, columnResizeRange]
  refine exists₃_congr fun front tc back => and_congr_right fun _ => and_congr_right fun _ => ?_
  constructor <;> intro within <;> constructor <;> omega

theorem columnLeftClick_iff {front back : List (TableCol D)} {tc : TableCol D}
    (split : t.cols = front ++ tc :: back) :
    (∀ n, n ∈ (t.columnLeftClick px).map Prod.fst ↔ some front.length = some n) ↔
      ∀ front' tc' back', t.cols = front' ++ tc' :: back' → (totalWidth front' < px + t.xOffs - 5 ∧
              px + t.xOffs - 5 < totalWidth front' + tc'.w ↔
            front'.length = front.length) := by
  simp only [mem_columnLeftClick, Option.some.injEq]
  constructor
  · intro header front' tc' back' split'
    constructor
    · intro around
      exact ((header front'.length).mp ⟨front', tc', back', split', rfl, around⟩).symm
    · intro same
      obtain ⟨other, otherTc, otherBack, otherSplit, place, around⟩ := (header front.length).mpr rfl
      obtain ⟨rfl, rest⟩ := List.append_inj (split'.symm.trans otherSplit) (same.trans place)
      cases rest
      exact around
  · intro header n
    constructor
    · rintro ⟨front', tc', back', split', rfl, around⟩
      exact ((header front' tc' back' split').mp around).symm
    · rintro rfl
      exact ⟨front, tc, back, split, rfl, (header front tc back split).mpr rfl⟩

theorem cellRightClick_iff {front back : List (TableCol D)} {tc : TableCol D}
    (split : t.cols = front ++ tc :: back) :
    (∀ popups m, cellRightClick { t with popups := popups } m px = (some front.length).bind fun n =>
            (popupOf popups m n).map fun tp => (n, tp)) ↔
      (∀ col ∈ front, ¬ (0 ≤ px + t.xOffs - 5 ∧ px + t.xOffs - 5 ≤ col.w)) ∧
        (0 ≤ px + t.xOffs - 5 ∧ px + t.xOffs - 5 ≤ tc.w) ∧
        (px + t.xOffs - 5 < tc.w ∨ ∀ col ∈ back, col.w < 0) := by
  have entered := enteredLoop_eq_singleton_iff (px - 5) 0 (-t.xOffs) front back tc
  rw [Nat.zero_add, ← split] at entered
  have shown :=
    right_iff (enteredLoop_increasing (px - 5) 0 (-t.xOffs) t.cols).1 (some front.length)
  simp only [cellRightClick, cellRightClickLoop_eq]
  refine shown.trans (entered.trans ?_)
  have before : ∀ col : TableCol D, -t.xOffs ≤ px - 5 ∧ px - 5 ≤ -t.xOffs + col.w ↔
          0 ≤ px + t.xOffs - 5 ∧ px + t.xOffs - 5 ≤ col.w := by
    intro col
    omega
  simp only [before]
  refine and_congr_right fun _ => and_congr_right fun within => ?_
  constructor
  · intro none
    by_cases last : px + t.xOffs - 5 < tc.w
    · exact .inl last
    · refine .inr fun col member => ?_
      have outside := none col member
      omega
  · rintro (inner | none) col member
    · omega
    · have negative := none col member
      omega

/--
Clicks match what is drawn at a pixel of the table exactly when there are no
columns or a column is found there by all of them.
-/
theorem clicks_match_iff (inside : px < t.rW) : t.ClicksMatch px ↔ t.cols = [] ∨
        ∃ front tc back, FoundAt t.cols front tc back (px + t.xOffs) := by
  constructor
  · intro clicks
    by_cases none : t.cols = []
    · exact .inl none
    · right
      obtain ⟨k, drawn⟩ : ∃ k, t.columnAt px = some k := by
        rw [← clicks.left, cellLeftClick, if_neg none]
        dsimp only
        split_ifs <;> exact ⟨_, rfl⟩
      obtain ⟨front, tc, back, split, rfl, around⟩ := (columnAt_eq_some_iff inside k).mp drawn
      have header := clicks.header
      have left := clicks.left
      have right := clicks.right
      rw [drawn] at header left right
      obtain ⟨leftBefore, leftHere⟩ := (cellLeftClick_eq_iff split).mp left
      obtain ⟨rightBefore, rightHere, rightBehind⟩ := (cellRightClick_iff split).mp right
      exact ⟨front, tc, back, {
        split := split
        drawn := around
        header := (columnLeftClick_iff split).mp header
        leftBefore := leftBefore
        left := leftHere
        rightBefore := rightBefore
        right := rightHere
        rightBehind := rightBehind
      }⟩
  · rintro (none | ⟨front, tc, back, found⟩)
    · have undrawn : t.columnAt px = Option.none := by
        rw [columnAt, none]
        rfl
      constructor
      · intro n
        rw [undrawn, columnLeftClick, none]
        simp [columnLeftClickLoop]
      · rw [undrawn, cellLeftClick, if_pos none]
      · intro popups m
        rw [undrawn, cellRightClick]
        simp only [none]
        rfl
    · have drawn : t.columnAt px = some front.length :=
        (columnAt_eq_some_iff inside _).mpr ⟨front, tc, back, found.split, rfl, found.drawn⟩
      constructor
      · rw [drawn]
        exact (columnLeftClick_iff found.split).mpr found.header
      · rw [drawn]
        exact (cellLeftClick_eq_iff found.split).mpr ⟨found.leftBefore, found.left⟩
      · rw [drawn]
        exact (cellRightClick_iff found.split).mpr
          ⟨found.rightBefore, found.right, found.rightBehind⟩

end Matches

/-! ## Three columns -/

def shared (columns : Nat) (part : Int) : Table Int :=
  ((addCol none (some (.percent part)) none)^[columns] init).sizeAllocate 300 100 20 0

theorem laid_shared (columns : Nat) (part : Int) : (shared columns part).Laid := by
  refine .sizeAllocate _ _ _ _ ?_
  induction columns with
  | zero => exact .init
  | succ columns ih =>
    rw [Function.iterate_succ_apply']
    exact .addCol _ _ _ ih

theorem clicks_match_iff_shared : (shared 3 30).ClicksMatch 45 ↔ (shared 3 30).cols = [] ∨
        ∃ front tc back, FoundAt (shared 3 30).cols front tc back (45 + (shared 3 30).xOffs) :=
  clicks_match_iff (by decide)

theorem middle_column_is_missed : (shared 3 30).Laid ∧ (shared 3 30).columnAt 135 = some 1 ∧
      (shared 3 30).cellLeftClick 135 = some 2 ∧
      ¬ (shared 3 30).ClicksMatch 135 := by
  have drawn : (shared 3 30).columnAt 135 = some 1 := by decide
  have clicked : (shared 3 30).cellLeftClick 135 = some 2 := by decide
  refine ⟨laid_shared 3 30, drawn, clicked, fun clicks => ?_⟩
  have same := clicks.left
  rw [drawn, clicked] at same
  cases same

end Table

end Agar.Gui
