import Agar.Lib.OrderedForest
import Agar.Lib.Outcome
import Agar.Lib.Runs

namespace Agar.Gui

open Agar.Lib

/-!
# Tables with a tree of rows

An `AG_Treetbl` shows those rows of a tree all of whose ancestors are
expanded.  It counts them in `nExpandedRows`, and keeps pointers to the rows in
its view in `visible.items`, which the next redraw renews once they are marked
as dirty.
-/

/-- An `AG_TreetblRow` in memory. -/
abbrev TreetblRowRef := Nat

/-- `AG_TreetblRow`, without its cells -/
structure TreetblRow where
  self : TreetblRowRef
  rid : Int
  expanded : Bool
  selected : Bool
  deriving Repr, DecidableEq

/-- `AG_TreetblRowQ`: rows in order, each with its `children` -/
abbrev TreetblRowQ := OrderedForest TreetblRow

/-- `AG_TreetblCol`, as far as clicks look at it -/
structure TreetblCol where
  w : Int
  expander : Bool
  deriving Repr, DecidableEq

/-- The flags of an `AG_Treetbl` that its rows depend on -/
structure TreetblFlags where
  multi : Bool
  multiToggle : Bool
  noDupChecks : Bool
  polled : Bool
  deriving Repr, DecidableEq

/-- `AG_Treetbl` -/
structure Treetbl where
  flags : TreetblFlags
  column : List TreetblCol
  rW : Int
  rH : Int
  hCol : Int
  hRow : Int
  hBarValue : Int
  vBarValue : Int
  dblClicked : Bool
  children : TreetblRowQ
  backstore : List TreetblRow
  nExpandedRows : Int
  items : List (Option (TreetblRowRef × Nat))
  dirty : Bool
  deriving Repr, DecidableEq

/-- The modifier keys that are held -/
structure KeyMod where
  ctrlOrMeta : Bool
  shift : Bool
  deriving Repr, DecidableEq

/--
A row that is not in the tree was to be read or changed: one that was freed
or, with `AG_TREETBL_POLLED`, moved to the backstore.
-/
structure StaleRow where
  row : TreetblRowRef
  deriving Repr, DecidableEq

/-- `CountVisibleChld` -/
def countVisibleChld : TreetblRowQ → Int → Int
  | .empty, i => i
  | .node row children next, i =>
    let j := i + 1
    let j :=
      if row.expanded ∧ children ≠ .empty then countVisibleChld children j else j
    countVisibleChld next j

/-- `DeselectAll` -/
def deselectAll : TreetblRowQ → TreetblRowQ
  | .empty => .empty
  | .node row children next =>
    .node { row with selected := false } (if row.expanded ∧ children ≠ .empty then
        deselectAll children
      else children)
      (deselectAll next)

/-- `RowIsVisible`, of a row whose `parent` pointers lead through `above` -/
def rowIsVisible (place : OrderedForest.Place TreetblRow) : Bool := place.above.all (·.expanded)

/--
`ViewChangedRecurse`: the rows that it puts in the view after `filled` others,
with their depth, and what is left of `seen`
-/
def viewChangedRecurse (count : Nat) :
    TreetblRowQ → Nat → Nat → Int → List (TreetblRowRef × Nat) × Int
  | .empty, _, _, seen => ([], seen)
  | .node row children next, depth, filled, seen =>
    let shown :=
      if seen ≠ 0 then ([], seen - 1)
      else if filled < count then ([(row.self, depth)], seen)
      else ([], seen)
    let below :=
      if row.expanded ∧ filled + shown.1.length < count then
        viewChangedRecurse count children (depth + 1) (filled + shown.1.length) shown.2
      else ([], shown.2)
    let filled := filled + shown.1.length + below.1.length
    if filled ≥ count then (shown.1 ++ below.1, below.2)
    else
      let after := viewChangedRecurse count next depth filled below.2
      (shown.1 ++ below.1 ++ after.1, after.2)

/-- The slot of the view that is under a height, with its index -/
def slotUnder (hRow y : Int) : List (Option (TreetblRowRef × Nat)) → Nat → Int →
      Option (Nat × Option (TreetblRowRef × Nat))
  | [], _, _ => none
  | slot :: rest, i, px =>
    if y ≥ px ∧ y < px + hRow then some (i, slot) else slotUnder hRow y rest (i + 1) (px + hRow)

/--
The columns that `FOREACH_VISIBLE_COLUMN` passes on, with the range that each
takes: `firstCol` says whether there was one before
-/
def visibleColumns (viewEdge rW : Int) :
    List TreetblCol → Bool → Int → List (Int × Int × TreetblCol)
  | [], _, _ => []
  | col :: rest, firstCol, x =>
    if firstCol = false ∧ x + col.w < viewEdge then
      visibleColumns viewEdge rW rest false (x + col.w)
    else
      let x := if firstCol then x else x - viewEdge
      if x ≥ rW then []
      else
        let wCol := if x + col.w > rW then rW - x else col.w
        (x, x + wCol, col) :: visibleColumns viewEdge rW rest true (x + col.w)

namespace Treetbl

/-- `AG_TreetblNew`, with the height of its header and of its rows -/
def new (flags : TreetblFlags) (hCol hRow : Int) : Treetbl where
  flags := flags
  column := []
  rW := 0
  rH := 0
  hCol := hCol
  hRow := hRow
  hBarValue := 0
  vBarValue := 0
  dblClicked := false
  children := .empty
  backstore := []
  nExpandedRows := 0
  items := []
  dirty := false

/-- The addresses of the rows in the tree -/
def rowRefs (tt : Treetbl) : List TreetblRowRef := OrderedForest.keys TreetblRow.self tt.children

/-- Follow a pointer to a row. -/
def access (tt : Treetbl)
    (row : TreetblRowRef) : Except StaleRow (OrderedForest.Place TreetblRow) :=
  match OrderedForest.locate TreetblRow.self row [] tt.children with
  | some place => .ok place
  | none => .error ⟨row⟩

/-- Change a row of the tree. -/
def setRow (tt : Treetbl) (row : TreetblRowRef) (change : TreetblRow → TreetblRow) : Treetbl :=
  { tt with
    children :=
      OrderedForest.adjust TreetblRow.self row
        (fun label children next => .node (change label) children next)
        tt.children }

/-- Change the `children` of a row of the tree. -/
def setChildren (tt : Treetbl) (row : TreetblRowRef)
    (change : TreetblRowQ → TreetblRowQ) : Treetbl :=
  { tt with
    children :=
      OrderedForest.adjust TreetblRow.self row
        (fun label children next => .node label (change children) next)
        tt.children }

/-- `AG_TreetblLookupRow`: whether there is a row with an identifier -/
def lookupRow (tt : Treetbl) (rid : Int) : Bool :=
  (OrderedForest.labels tt.children).any (·.rid = rid)

/--
`AG_TreetblAddRow`, at the address `self` where memory is granted, below
`pRow` or at the end of the table
-/
def addRow (tt : Treetbl) (pRow : Option TreetblRowRef) (rowID : Int) (self : TreetblRowRef)
    (granted : Bool) : Except StaleRow Treetbl :=
  if tt.flags.noDupChecks = false ∧ tt.lookupRow rowID then .ok tt
  else if granted = false then .ok tt
  else do
    let row : TreetblRow := { self := self, rid := rowID, expanded := false, selected := false }
    let tt ←
      match pRow with
      | some p => do
          let _ ← tt.access p
          pure (tt.setChildren p (OrderedForest.insertTail row))
      | none => pure { tt with children := OrderedForest.insertTail row tt.children }
    let place ← tt.access self
    return { tt with
      nExpandedRows :=
        if rowIsVisible place then tt.nExpandedRows + 1 else tt.nExpandedRows
      dirty := true }

/-- The second half of `AG_TreetblDelRow`, of a row at a place -/
def removeAt (tt : Treetbl) (row : TreetblRowRef)
    (place : OrderedForest.Place TreetblRow) : Treetbl :=
  { tt with
    nExpandedRows :=
      if rowIsVisible place then tt.nExpandedRows - 1 else tt.nExpandedRows
    children := OrderedForest.adjust TreetblRow.self row (fun _ _ next => next) tt.children
    backstore :=
      if tt.flags.polled then tt.backstore ++ [place.label] else tt.backstore
    dirty := true }

/-- The second half of `AG_TreetblDelRow`, when the children are gone -/
def removeRow (tt : Treetbl) (row : TreetblRowRef) : Except StaleRow Treetbl := do
  let place ← tt.access row
  return tt.removeAt row place

/-- The loop that calls `AG_TreetblDelRow` for the rows of a queue -/
def delRows : TreetblRowQ → Treetbl → Except StaleRow Treetbl
  | .empty, tt => .ok tt
  | .node row children next, tt => do
      let tt ← delRows children tt
      let tt ← tt.removeRow row.self
      delRows next tt

/-- `AG_TreetblDelRow` -/
def delRow (tt : Treetbl) (row : TreetblRowRef) : Except StaleRow Treetbl := do
  let place ← tt.access row
  let tt ← delRows place.children tt
  tt.removeRow row

/-- `AG_TreetblClearRows` -/
def clearRows (tt : Treetbl) : Except StaleRow Treetbl := do
  let tt ← delRows tt.children tt
  return { tt with children := .empty, nExpandedRows := 0, dirty := true }

/-- `AG_TreetblExpandRow`, of a row at a place -/
def expandAt (tt : Treetbl) (row : TreetblRowRef)
    (place : OrderedForest.Place TreetblRow) : Treetbl :=
  if place.label.expanded then tt
  else
    let tt := tt.setRow row ({ · with expanded := true })
    if rowIsVisible place then
      { tt with
        nExpandedRows := tt.nExpandedRows + countVisibleChld place.children 0
        dirty := true }
    else tt

/-- `AG_TreetblExpandRow` -/
def expandRow (tt : Treetbl) (row : TreetblRowRef) : Except StaleRow Treetbl := do
  let place ← tt.access row
  return tt.expandAt row place

/-- `AG_TreetblCollapseRow`, of a row at a place -/
def collapseAt (tt : Treetbl) (row : TreetblRowRef)
    (place : OrderedForest.Place TreetblRow) : Treetbl :=
  if place.label.expanded then
    let tt := tt.setRow row ({ · with expanded := false })
    if rowIsVisible place then
      { tt with
        nExpandedRows := tt.nExpandedRows - countVisibleChld place.children 0
        dirty := true }
    else tt
  else tt

/-- `AG_TreetblCollapseRow` -/
def collapseRow (tt : Treetbl) (row : TreetblRowRef) : Except StaleRow Treetbl := do
  let place ← tt.access row
  return tt.collapseAt row place

/-- `AG_TreetblDeselectRow`, of all rows where it is given `NULL` -/
def deselectRow (tt : Treetbl) (row : Option TreetblRowRef) : Except StaleRow Treetbl :=
  match row with
  | none => .ok { tt with children := deselectAll tt.children }
  | some row => do
      let _ ← tt.access row
      return tt.setChildren row deselectAll

/-- `AG_TreetblSelectRow` -/
def selectRow (tt : Treetbl) (row : TreetblRowRef) : Except StaleRow Treetbl := do
  let tt :=
    if tt.flags.multi = false ∧ tt.flags.multiToggle = false then
      { tt with children := deselectAll tt.children }
    else tt
  let _ ← tt.access row
  return tt.setRow row ({ · with selected := true })

/-- `AG_TreetblSelectedRow` -/
def selectedRow (tt : Treetbl) : Option TreetblRow :=
  (OrderedForest.roots tt.children).find? (·.selected)

/-- The click on the button of a row that has children -/
def clickedExpander (tt : Treetbl) (row : TreetblRowRef)
    (place : OrderedForest.Place TreetblRow) : Treetbl :=
  if place.label.expanded then
    let tt := tt.setRow row ({ · with expanded := false })
    let tt := tt.setChildren row deselectAll
    { tt with
      nExpandedRows := tt.nExpandedRows - countVisibleChld (deselectAll place.children) 0
      dirty := true }
  else
    let tt := tt.setRow row ({ · with expanded := true })
    { tt with nExpandedRows := tt.nExpandedRows + countVisibleChld place.children 0, dirty := true }

/-- The first slot of the view that shows a selected row -/
def firstSelected (tt : Treetbl) :
    List (Option (TreetblRowRef × Nat)) → Nat → Except StaleRow (Option Nat)
  | [], _ => .ok none
  | none :: rest, j => tt.firstSelected rest (j + 1)
  | some (row, _) :: rest, j => do
      let place ← tt.access row
      if place.label.selected then return some j else tt.firstSelected rest (j + 1)

/-- Select the rows in some slots of the view. -/
def selectSlots (tt : Treetbl) : List (Option (TreetblRowRef × Nat)) → Except StaleRow Treetbl
  | [] => .ok tt
  | none :: rest => tt.selectSlots rest
  | some (row, _) :: rest => do
      let _ ← tt.access row
      (tt.setRow row ({ · with selected := true })).selectSlots rest

/-- The slots between two of the view, both included -/
def slotsBetween (tt : Treetbl) (first last : Nat) : List (Option (TreetblRowRef × Nat)) :=
  (tt.items.drop first).take (last + 1 - first)

/-- A click on a row while shift is held -/
def clickedShift (tt : Treetbl) (rowIdx : Nat) : Except StaleRow Treetbl := do
  match ← tt.firstSelected tt.items 0 with
  | none => return tt
  | some j =>
    if j < rowIdx then tt.selectSlots (tt.slotsBetween j rowIdx)
    else tt.selectSlots (tt.slotsBetween rowIdx j)

/-- A click on a row at a place, while control is held -/
def clickedToggle (tt : Treetbl) (row : TreetblRowRef)
    (place : OrderedForest.Place TreetblRow) : Treetbl :=
  if place.label.selected then tt.setRow row ({ · with selected := false })
  else if tt.flags.multi = false ∧ tt.flags.multiToggle = false then
    { tt with children := deselectAll tt.children }.setRow row ({ · with selected := true })
  else tt.setRow row ({ · with selected := true })

/-- What a click on a row does to the selection -/
def clickedSelect (tt : Treetbl) (kmod : KeyMod) (rowIdx : Nat)
    (row : TreetblRowRef) : Except StaleRow Treetbl :=
  if tt.flags.multiToggle ∨ kmod.ctrlOrMeta then do
    let place ← tt.access row
    return tt.clickedToggle row place
  else if kmod.shift then tt.clickedShift rowIdx
  else do
    let tt := { tt with children := deselectAll tt.children }
    let place ← tt.access row
    return if place.label.selected then tt else tt.setRow row ({ · with selected := true })

/-- The second click on a row at a place -/
def clickedAgain (tt : Treetbl) (row : TreetblRowRef)
    (place : OrderedForest.Place TreetblRow) : Treetbl :=
  if place.children ≠ .empty then
    if place.label.expanded then tt.collapseAt row place else tt.expandAt row place
  else { tt with children := deselectAll tt.children }.setRow row ({ · with selected := true })

/-- The end of a click on a row, which may be the second of a double click -/
def clickedTwice (tt : Treetbl) (row : TreetblRowRef) : Except StaleRow Treetbl :=
  if tt.dblClicked then do
    let place ← tt.access row
    return { tt.clickedAgain row place with dblClicked := false }
  else .ok { tt with dblClicked := true }

/-- Is a click on the button of a row at a depth? -/
def OnExpander (tt : Treetbl) (col : TreetblCol) (x1 x : Int) (depth : Nat) : Prop :=
  col.expander = true ∧ x > x1 + 4 + depth * ((tt.hRow / 2 + 1) + 4) ∧
    x < x1 + 4 + depth * ((tt.hRow / 2 + 1) + 4) + (tt.hRow / 2 + 1)

instance (tt : Treetbl) (col : TreetblCol) (x1 x : Int) (depth : Nat) :
    Decidable (tt.OnExpander col x1 x depth) :=
  inferInstanceAs (Decidable (_ ∧ _))

/-- `ClickedRow`, where the click is in the column -/
def clickedRow (tt : Treetbl) (kmod : KeyMod) (col : TreetblCol)
    (x1 x y : Int) : Except StaleRow Treetbl :=
  match slotUnder tt.hRow y tt.items 0 tt.hCol with
  | none | some (_, none) => .ok { tt with children := deselectAll tt.children }
  | some (rowIdx, some (row, depth)) => do
      let place ← tt.access row
      if tt.OnExpander col x1 x depth ∧ place.children ≠ .empty then
        return tt.clickedExpander row place
      else
        let tt ← tt.clickedSelect kmod rowIdx row
        tt.clickedTwice row

/-- The column that is under a position, and where it begins -/
def columnUnder (tt : Treetbl) (x : Int) : Option (Int × Int × TreetblCol) :=
  (visibleColumns tt.hBarValue tt.rW tt.column false 0).find? fun range =>
    range.1 ≤ x ∧ x < range.2.1

/-- `MouseButtonDown`, of which the header of the columns sees no row -/
def mouseButtonDown (tt : Treetbl) (kmod : KeyMod) (x y : Int) : Except StaleRow Treetbl :=
  if tt.hCol > 0 ∧ y < tt.hCol then .ok tt
  else
    match tt.columnUnder x with
    | none => .ok tt
    | some (x1, _, col) => tt.clickedRow kmod col x1 x y

/-- How many rows the view holds -/
def rowsPerView (rH hRow : Int) : Int :=
  if rH % hRow = 0 then rH / hRow else rH / hRow + 1

/-- `ViewChanged` -/
def viewChanged (tt : Treetbl) : Treetbl :=
  let max := max 0 (tt.nExpandedRows - rowsPerView tt.rH tt.hRow)
  let max := if max ≠ 0 ∧ tt.rH % tt.hRow < 16 then max + 1 else max
  let value := if tt.vBarValue > max then max else tt.vBarValue
  let filled := (viewChangedRecurse tt.items.length tt.children 0 0 value).1
  { tt with
    dblClicked := false
    vBarValue := value
    items := filled.map some ++ List.replicate (tt.items.length - filled.length) none
    dirty := false }

/-- `Draw`, as far as it changes the table -/
def draw (tt : Treetbl) : Treetbl :=
  if tt.dirty then tt.viewChanged else tt

/-- `SizeAllocate`, with the columns and the view that it computes -/
def sizeAllocate (tt : Treetbl) (column : List TreetblCol) (rW rH : Int) : Treetbl :=
  let rH := if rH < tt.hCol then tt.hCol else rH
  let count := (rowsPerView rH tt.hRow).toNat
  { tt with
    column := column
    rW := rW
    rH := rH
    items := tt.items.take count ++ List.replicate (count - tt.items.length) none
    dirty := if tt.items.length = count then tt.dirty else true }

end Treetbl

end Agar.Gui
