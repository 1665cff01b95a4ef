import Agar.Core.TableMemory
import Agar.Gui.TableRows

namespace Agar.Gui

open Agar.Lib
open Agar.Core

/-!
# The memory of tables

An `AG_Table` points to an array of columns and to an array of rows, each of
which points to an array of cells.  `AG_TableAddRow` and `AG_TableAddCol` grow
them one after the other.  What the allocator does with each request is a
parameter of an insertion; a cell of an array that was not stored yet holds
nothing.
-/

variable {D : Type}

/-- `AG_Table`, with its pointers, and the arrays that they lead to -/
structure StoredTable (D : Type) where
  flags : UInt32
  sep : List UInt8
  attached : List Nat
  cols : Nat
  cells : Nat
  n : Nat
  m : Nat
  colArrays : Heap (List (Option (TableCol D)))
  rowArrays : Heap (List (Option Nat))
  cellArrays : Heap (List (Option (TableCell D)))

/-- What becomes of the requests of `AG_TableAddRow` -/
structure RowRequests where
  cells : Resizing
  row : Resizing
  deriving Repr, DecidableEq

/-- What becomes of the requests of `AG_TableAddCol`, those for rows by index -/
structure ColRequests where
  cols : Resizing
  rows : Nat → Resizing

/-- `sizeof(AG_TableCell) / sizeof(AG_TableCell *)` -/
def pointersPerCell : Nat := 30

/-- `TryRealloc` of an array, or `TryMalloc` where the pointer is null -/
def tryRealloc {α : Type} (arrays : Heap (List (Option α))) (address count : Nat)
    (resizing : Resizing) : Except Stop (Heap (List (Option α)) × Nat) :=
  match arrays.realloc (fun _ => none) address count resizing with
  | none => .error .undefined
  | some result => .ok result

/-- Store the first elements of an array. -/
def storeElements {α : Type} (arrays : Heap (List (Option α))) (address : Nat)
    (list : List α) : Except Stop (Heap (List (Option α))) :=
  match arrays.cells address with
  | none => .error .undefined
  | some block =>
    if list.length ≤ block.length then
      .ok (arrays.modify address fun block => list.map some ++ block.drop list.length)
    else .error .undefined

namespace StoredTable

/--
What `AG_TableAddRow` does behind its requests, where the array of rows ends
with the address of the new one: its number, unless it fails
-/
def fillRow (memory : CellMemory D) (fmt : List UInt8) (ap : List (VaArg D)) (row : Nat)
    (t : StoredTable D) : Except Stop (Option Nat × StoredTable D) := do
  let result ← readRow memory t.sep row 0 t.n (some fmt) ap
  let cellArrays ← storeElements t.cellArrays row result.cells
  let t := { t with
    flags := if result.attached = [] then t.flags else t.flags ||| tableWidgets
    attached := t.attached ++ result.attached
    cellArrays := cellArrays }
  if result.complete then
    return (some t.m, { t with m := t.m + 1, flags := t.flags ||| tableNeedSort })
  else return (none, t)

/-- `AG_TableAddRow`: the number of the new row, unless it fails -/
def addRow (memory : CellMemory D) (requests : RowRequests) (fmtp : List UInt8)
    (ap : List (VaArg D)) (t : StoredTable D) : Except Stop (Option Nat × StoredTable D) := do
  let fmt : CString rowFormatMax := .strlcpy fmtp
  let (rowArrays, cNew) ←
    tryRealloc t.rowArrays t.cells ((t.m + 1) * pointersPerCell) requests.cells
  if cNew = 0 then return (none, { t with rowArrays := rowArrays })
  else do
    let (cellArrays, row) ← tryRealloc t.cellArrays 0 t.n requests.row
    let rowArrays ← storeElement rowArrays cNew t.m row
    if row = 0 then do
      -- `t->cells` is not stored
      let rowArrays ← freeArray rowArrays cNew
      return (none, { t with rowArrays := rowArrays, cellArrays := cellArrays })
    else
      fillRow memory fmt.bytes ap row
        { t with cells := cNew, rowArrays := rowArrays, cellArrays := cellArrays }

/--
The loop of `AG_TableAddCol` over the rows, from an index on, over as many as
are left, and whether it goes through
-/
def growRows (requests : Nat → Resizing) :
    Nat → Nat → StoredTable D → Except Stop (Bool × StoredTable D)
  | _, 0, t => .ok (true, t)
  | m, left + 1, t => do
      let row ← readElement t.rowArrays t.cells m
      let (cellArrays, cNew) ← tryRealloc t.cellArrays row (t.n + 1) (requests m)
      if cNew = 0 then return (false, { t with cellArrays := cellArrays })
      else do
        let rowArrays ← storeElement t.rowArrays t.cells m cNew
        let cellArrays ← storeElement cellArrays cNew t.n tableInitCell
        growRows requests (m + 1) left
          { t with rowArrays := rowArrays, cellArrays := cellArrays }

/-- The last one of some columns, in an array of them -/
def lastCol (colArrays : Heap (List (Option (TableCol D))))
    (cols n : Nat) : Except Stop (Option (TableCol D)) :=
  if n = 0 then .ok none else (readElement colArrays cols (n - 1)).map some

/-- `AG_TableAddCol`: the number of the new column, unless it fails -/
def addCol (requests : ColRequests) (name : Option (List UInt8)) (sizeSpec : Option SizeSpec)
    (sortFn : Option (TableCell D → TableCell D → Int))
    (t : StoredTable D) : Except Stop (Option Nat × StoredTable D) := do
  let (colArrays, colsNew) ← tryRealloc t.colArrays t.cols (t.n + 1) requests.cols
  if colsNew = 0 then return (none, { t with colArrays := colArrays })
  else do
    let lc ← lastCol colArrays colsNew t.n
    let colArrays ← storeElement colArrays colsNew t.n (newTableCol lc name sizeSpec sortFn)
    let (grown, t) ← growRows requests.rows 0 t.m
        { t with cols := colsNew, colArrays := colArrays }
    if grown then return (some t.n, { t with n := t.n + 1, flags := t.flags ||| tableNeedSort })
    else return (none, t)

end StoredTable

/-! ## What is stored -/

/--
A pointer to an array that begins with some elements; where there are none, it
may be `NULL`
-/
def HoldsElements {α : Type} (arrays : Heap (List (Option α))) (address : Nat)
    (list : List α) : Prop :=
  (address = 0 ∧ list = []) ∨ ∃ block, arrays.cells address = some block ∧ list.map some <+: block

/-- A pointer to an array that begins with the cells of a row -/
def HoldsRow (arrays : Heap (List (Option (TableCell D)))) (row : Nat)
    (cells : List (TableCell D)) : Prop :=
  ∃ block, arrays.cells row = some block ∧ cells.map some <+: block

/--
A table has some columns and rows: its counts are theirs, and its arrays are
allocated and hold them.
-/
structure StoredTable.Holds (t : StoredTable D) (columns : List (TableCol D))
    (lines : List (List (TableCell D))) : Prop where
  columnCount : t.n = columns.length
  lineCount : t.m = lines.length
  width : ∀ line ∈ lines, line.length = columns.length
  columnArray : HoldsElements t.colArrays t.cols columns
  lineArrays : ∃ rows : List Nat, HoldsElements t.rowArrays t.cells rows ∧ rows.Nodup ∧
        List.Forall₂ (HoldsRow t.cellArrays) rows lines

/-- A table in memory is a table, as far as its rows depend on it. -/
structure StoredTable.Represents (t : StoredTable D) (v : Table D) : Prop where
  flags : t.flags = v.flags
  sep : t.sep = v.sep
  attached : t.attached = v.attached
  holds : t.Holds v.cols v.cells

/-- An insertion into a table, and what becomes of its requests -/
inductive TableInsertion (D : Type) where
  | addRow
      (memory : CellMemory D)
      (requests : RowRequests)
      (fmtp : List UInt8)
      (ap : List (VaArg D))
  | addCol
      (requests : ColRequests)
      (name : Option (List UInt8))
      (sizeSpec : Option SizeSpec)
      (sortFn : Option (TableCell D → TableCell D → Int))

/-- The row or column that an insertion makes, unless it fails -/
def StoredTable.insert (t : StoredTable D) :
    TableInsertion D → Except Stop (Option Nat × StoredTable D)
  | .addRow memory requests fmtp ap => t.addRow memory requests fmtp ap
  | .addCol requests name sizeSpec sortFn => t.addCol requests name sizeSpec sortFn

/--
An insertion frees the array of rows without storing another one: it is granted
a larger one, and gives it up as no row is granted.
-/
def StoredTable.LosesRows (t : StoredTable D) : TableInsertion D → Prop
  | .addRow _ requests _ _ => t.cells ≠ 0 ∧ requests.cells.Granted ∧ ¬ requests.row.Granted
  | .addCol .. => False

/-! ## Arrays -/

section Arrays

variable {α : Type} {arrays : Heap (List (Option α))} {address count i : Nat} {list : List α}
  {block : List (Option α)} {element : α} {resizing : Resizing}

theorem HoldsElements.pointer (holds : HoldsElements arrays address list) :
    address = 0 ∨ ∃ block, arrays.cells address = some block := by
  rcases holds with ⟨null, _⟩ | ⟨block, live, _⟩
  · exact .inl null
  · exact .inr ⟨block, live⟩

theorem HoldsElements.of_prefix (holds : HoldsElements arrays address list) {front : List α}
    (begins : front <+: list) : HoldsElements arrays address front := by
  rcases holds with ⟨null, rfl⟩ | ⟨block, live, whole⟩
  · exact .inl ⟨null, List.prefix_nil.mp begins⟩
  · exact .inr ⟨block, live, (begins.map some).trans whole⟩

theorem tryRealloc_refused (pointer : address = 0 ∨ ∃ block, arrays.cells address = some block)
    (refused : ¬ resizing.Granted) (some : address = 0 ∨ count ≠ 0) :
    tryRealloc arrays address count resizing = .ok (arrays, 0) := by
  rw [tryRealloc, Heap.realloc_refused pointer refused fun _ => some]

variable {front : List (Option α)}

theorem prefix_resize (begins : front <+: block) (room : front.length ≤ count)
    (fresh : Nat → Option α) : front <+: resize fresh count block :=
  (List.prefix_take_iff.mpr ⟨begins, room⟩).trans (List.prefix_append ..)

theorem prefix_set_length (begins : front <+: block) (inside : front.length < block.length)
    (new : Option α) : front ++ [new] <+: block.set front.length new := by
  obtain ⟨rest, rfl⟩ := begins
  obtain ⟨first, rest, rfl⟩ :=
    List.exists_cons_of_length_pos (show 0 < rest.length by
        rw [List.length_append] at inside
        exact Nat.pos_of_lt_add_right inside)
  rw [List.set_append_right _ _ (Nat.le_refl _), Nat.sub_self, List.set_cons_zero]
  exact ⟨rest, List.append_assoc ..⟩

theorem HoldsElements.grow (holds : HoldsElements arrays address list) (granted : resizing.Granted)
    (room : list.length ≤ count) :
    ∃ next new block, tryRealloc arrays address count resizing = .ok (next, new) ∧
        arrays.realloc (fun _ => none) address count resizing = some (next, new) ∧
        next.cells new = some block ∧ block.length = count ∧ list.map some <+: block := by
  rcases holds with ⟨rfl, rfl⟩ | ⟨block, live, begins⟩
  · obtain ⟨next, new, resized, newLive, _⟩ :=
      @Heap.malloc_granted _ (fun _ => none) arrays count _ granted
    refine ⟨next, new, _, ?_, resized, newLive, length_resize .., List.nil_prefix⟩
    rw [tryRealloc, resized]
  · obtain ⟨next, new, resized, newLive, _⟩ :=
      @Heap.realloc_granted_live _ (fun _ => none) arrays _ count _ _ live granted
    refine ⟨next, new, _, ?_, resized, newLive, length_resize .., ?_⟩
    · rw [tryRealloc, resized]
    · exact prefix_resize begins (by rwa [List.length_map]) _

theorem storeElement_inside (live : arrays.cells address = some block) (inside : i < block.length) :
    storeElement arrays address i element =
      .ok (arrays.modify address fun block => block.set i (some element)) := by
  rw [storeElement, Heap.storeCell_inside live inside]

end Arrays

theorem forall₂_holdsRow_frame {arrays next : Heap (List (Option (TableCell D)))} {rows : List Nat}
    {lines : List (List (TableCell D))} (holds : List.Forall₂ (HoldsRow arrays) rows lines)
    (frame : ∀ row ∈ rows, ∀ block, arrays.cells row = some block → next.cells row = some block) :
    List.Forall₂ (HoldsRow next) rows lines := by
  induction holds with
  | nil => exact .nil
  | cons first _ ih =>
    obtain ⟨block, live, begins⟩ := first
    obtain ⟨here, behind⟩ := List.forall_mem_cons.mp frame
    exact .cons ⟨block, here block live, begins⟩ (ih behind)

theorem live_of_forall₂_holdsRow {arrays : Heap (List (Option (TableCell D)))} {rows : List Nat}
    {lines : List (List (TableCell D))} (holds : List.Forall₂ (HoldsRow arrays) rows lines) :
    ∀ row ∈ rows, ∃ block, arrays.cells row = some block := by
  induction holds with
  | nil => exact List.forall_mem_nil _
  | cons first _ ih =>
    obtain ⟨block, live, _⟩ := first
    exact List.forall_mem_cons.mpr ⟨⟨block, live⟩, ih⟩

/-! ## Rows that are added -/

namespace StoredTable

variable {t next : StoredTable D} {columns : List (TableCol D)} {lines : List (List (TableCell D))}
  {memory : CellMemory D} {requests : RowRequests} {fmtp : List UInt8} {ap : List (VaArg D)}

theorem lt_rowPointers (m : Nat) : m < (m + 1) * pointersPerCell := by
  rw [pointersPerCell]
  omega

theorem addRow_refused (holds : t.Holds columns lines) (refused : ¬ requests.cells.Granted) :
    t.addRow memory requests fmtp ap = .ok (none, t) := by
  obtain ⟨rows, rowsHold, _⟩ := holds.lineArrays
  rw [addRow, tryRealloc_refused rowsHold.pointer refused
    (.inr (Nat.ne_of_gt (Nat.zero_lt_of_lt (lt_rowPointers t.m))))]
  rfl

theorem grow_rows (holds : t.Holds columns lines) {resizing : Resizing}
    (granted : resizing.Granted) :
    ∃ rows rowArrays cNew block,
      tryRealloc t.rowArrays t.cells ((t.m + 1) * pointersPerCell) resizing =
          .ok (rowArrays, cNew) ∧
        t.rowArrays.realloc (fun _ => none) t.cells ((t.m + 1) * pointersPerCell) resizing =
          some (rowArrays, cNew) ∧
        rowArrays.cells cNew = some block ∧ t.m < block.length ∧ rows.length = t.m ∧
        rows.map some <+: block ∧ HoldsElements t.rowArrays t.cells rows ∧ rows.Nodup ∧
        List.Forall₂ (HoldsRow t.cellArrays) rows lines := by
  obtain ⟨rows, rowsHold, once, hold⟩ := holds.lineArrays
  have count : rows.length = t.m := hold.length_eq.trans holds.lineCount.symm
  have room := lt_rowPointers t.m
  obtain ⟨rowArrays, cNew, block, tried, resized, live, length, begins⟩ :=
    rowsHold.grow granted (show rows.length ≤ (t.m + 1) * pointersPerCell by
        rw [count]
        exact Nat.le_of_lt room)
  exact ⟨rows, rowArrays, cNew, block, tried, resized, live, length ▸ room,
    count, begins, rowsHold, once, hold⟩

theorem addRow_givenUp (holds : t.Holds columns lines) (granted : requests.cells.Granted)
    (refused : ¬ requests.row.Granted) :
    ∃ rowArrays, t.addRow memory requests fmtp ap = .ok (none, { t with rowArrays := rowArrays }) ∧
        (t.cells ≠ 0 → rowArrays.cells t.cells = none) := by
  obtain ⟨rows, rowArrays, cNew, block, tried, resized, live, room, _, _,
    rowsHold, _, _⟩ := grow_rows holds granted
  have stored : storeElement rowArrays cNew t.m 0 =
        .ok (rowArrays.modify cNew fun block => block.set t.m (some 0)) :=
    storeElement_inside live room
  have released :=
    Heap.release_live (Heap.cells_modify_self live fun block => block.set t.m (some 0))
  refine ⟨(rowArrays.modify cNew fun block => block.set t.m (some 0)).free cNew,
    ?_, fun notNull => ?_⟩
  · simp only [addRow, tried, ok_bind, if_neg (Heap.ne_null live),
      tryRealloc_refused (.inl rfl) refused (.inl rfl), stored, freeArray,
      released, if_true]
    rfl
  · obtain ⟨old, oldLive⟩ := rowsHold.pointer.resolve_left notNull
    rw [Heap.cells_free_modify]
    exact Heap.cells_free_of_realloc oldLive granted resized

/-- Memory for a row: its address comes behind those of the others. -/
structure HasRow (t : StoredTable D) (lines : List (List (TableCell D))) (rows : List Nat)
    (row : Nat) : Prop where
  pointers : HoldsElements t.rowArrays t.cells (rows ++ [row])
  once : (rows ++ [row]).Nodup
  held : List.Forall₂ (HoldsRow t.cellArrays) rows lines
  room : ∃ block, t.cellArrays.cells row = some block ∧ block.length = t.n

theorem addRow_granted (holds : t.Holds columns lines) (granted : requests.cells.Granted)
    (grantedRow : requests.row.Granted) :
    ∃ rows row cNew rowArrays cellArrays, HasRow
          { t with
            cells := cNew
            rowArrays := rowArrays
            cellArrays := cellArrays } lines rows row ∧
        Holds
          { t with cells := cNew, rowArrays := rowArrays, cellArrays := cellArrays } columns lines ∧
        t.addRow memory requests fmtp ap =
          fillRow memory (CString.strlcpy fmtp : CString rowFormatMax).bytes ap row
            { t with cells := cNew, rowArrays := rowArrays, cellArrays := cellArrays } := by
  obtain ⟨rows, rowArrays, cNew, block, tried, _, live, room, count, begins, _,
    once, hold⟩ := grow_rows holds granted
  obtain ⟨cellArrays, row, allocated, rowLive, others⟩ :=
    @Heap.malloc_granted _ (fun _ => none) t.cellArrays t.n _ grantedRow
  have stored : storeElement rowArrays cNew t.m row =
        .ok (rowArrays.modify cNew fun block => block.set t.m (some row)) :=
    storeElement_inside live room
  have allocatedRow : tryRealloc t.cellArrays 0 t.n requests.row = .ok (cellArrays, row) := by
    rw [tryRealloc, allocated]
  have pointers : HoldsElements (rowArrays.modify cNew fun block => block.set t.m (some row)) cNew
        (rows ++ [row]) := by
    refine .inr ⟨_, Heap.cells_modify_self live _, ?_⟩
    have behind := prefix_set_length begins (by rwa [List.length_map, count]) (some row)
    rw [List.length_map, count] at behind
    rwa [List.map_append]
  have fresh : (rows ++ [row]).Nodup := by
    refine List.nodup_append.mpr ⟨once, List.nodup_singleton row, ?_⟩
    intro other member new isNew same
    obtain ⟨old, oldLive⟩ := live_of_forall₂_holdsRow hold other member
    exact (others other old oldLive).1 (same.trans (List.mem_singleton.mp isNew))
  have held : List.Forall₂ (HoldsRow cellArrays) rows lines :=
    forall₂_holdsRow_frame hold fun other _ old oldLive => (others other old oldLive).2
  refine ⟨rows, row, cNew, rowArrays.modify cNew fun block => block.set t.m (some row), cellArrays,
    ⟨pointers, fresh, held, _, rowLive, length_resize ..⟩,
    ⟨holds.columnCount, holds.lineCount, holds.width, holds.columnArray, rows,
      pointers.of_prefix (List.prefix_append ..), once, held⟩, ?_⟩
  · simp only [addRow, tried, ok_bind, if_neg (Heap.ne_null live), allocatedRow,
      stored, if_neg (Heap.ne_null rowLive)]

theorem fillRow_spec {fmt : List UInt8} {rows : List Nat} {row : Nat} {outcome : Option Nat}
    {v : Table D} (represents : t.Represents v) (hasRow : t.HasRow v.cells rows row)
    (filled : t.fillRow memory fmt ap row = .ok (outcome, next)) :
    ∃ result, readRow memory v.sep row 0 v.cols.length (some fmt) ap = .ok result ∧
        (result.complete = true → outcome = some v.cells.length ∧ next.Represents
              ((v.attachWidgets result.attached).storeRow result.cells)) ∧
        (result.complete = false → outcome = none ∧
            next.Represents (v.attachWidgets result.attached)) := by
  have holds := represents.holds
  obtain ⟨result, read, filled⟩ := bind_eq_ok.mp filled
  obtain ⟨cellArrays, stored, filled⟩ := bind_eq_ok.mp filled
  obtain ⟨block, live, length⟩ := hasRow.room
  obtain ⟨onceRows, _, fresh⟩ := List.nodup_append.mp hasRow.once
  have fits : result.cells.length ≤ block.length := length ▸ (length_readRow read).1
  simp only [storeElements, live, if_pos fits] at stored
  cases stored
  have others : List.Forall₂ (HoldsRow (t.cellArrays.modify row fun block =>
          result.cells.map some ++ block.drop result.cells.length))
        rows v.cells := by
    refine forall₂_holdsRow_frame hasRow.held fun other member old oldLive => ?_
    rw [Heap.cells_modify, Function.update_of_ne
      (fresh other member row (List.mem_singleton_self row)), oldLive]
  refine ⟨result, ?_, fun complete => ?_, fun refused => ?_⟩
  · rw [← represents.sep, ← holds.columnCount]
    exact read
  · simp only [complete, if_true] at filled
    cases filled
    refine ⟨congrArg some holds.lineCount, ?_, represents.sep,
      congrArg (· ++ _) represents.attached, holds.columnCount, ?_, ?_,
      holds.columnArray, rows ++ [row], hasRow.pointers, hasRow.once, ?_⟩
    · rw [represents.flags]
      exact rfl
    · have longer := @List.length_append _ v.cells [result.cells]
      exact (congrArg (· + 1) holds.lineCount).trans longer.symm
    · refine List.forall_mem_append.mpr ⟨holds.width, List.forall_mem_singleton.mpr ?_⟩
      exact ((length_readRow read).2 complete).trans holds.columnCount
    · exact List.rel_append others
        (.cons ⟨_, Heap.cells_modify_self live _, List.prefix_append ..⟩ .nil)
  · simp only [refused, Bool.false_eq_true, if_false] at filled
    cases filled
    refine ⟨rfl, ?_, represents.sep, congrArg (· ++ _) represents.attached,
      holds.columnCount, holds.lineCount, holds.width, holds.columnArray, rows,
      hasRow.pointers.of_prefix (List.prefix_append ..), onceRows, others⟩
    rw [represents.flags]
    exact rfl

/--
With memory for both, a row is added as to a table whose allocations are
granted.
-/
theorem addRow_represents {v : Table D} {outcome : Option Nat} (represents : t.Represents v)
    (granted : requests.cells.Granted) (grantedRow : requests.row.Granted)
    (added : t.addRow memory requests fmtp ap = .ok (outcome, next)) :
    ∃ row result left, v.addRow memory row fmtp ap = .ok (outcome, result, left) ∧
        next.Represents result := by
  obtain ⟨rows, row, cNew, rowArrays, cellArrays, hasRow, holds, fills⟩ :=
    addRow_granted represents.holds granted grantedRow
  rw [fills] at added
  obtain ⟨result, read, completed, refused⟩ :=
    fillRow_spec
      (t := { t with cells := cNew, rowArrays := rowArrays, cellArrays := cellArrays })
      ⟨represents.flags, represents.sep, represents.attached, holds⟩ hasRow added
  refine ⟨row, ?_⟩
  rw [Table.addRow, read, ok_bind]
  cases complete : result.complete with
  | true =>
    obtain ⟨rfl, represents⟩ := completed complete
    exact ⟨_, _, rfl, represents⟩
  | false =>
    obtain ⟨rfl, represents⟩ := refused complete
    exact ⟨_, _, rfl, represents⟩

/-! ## Columns that are added -/

theorem forall₂_split {α β : Type} {R : α → β → Prop} {list : List α} {others : List β}
    (related : List.Forall₂ R list others) {i : Nat} (inside : i < list.length) :
    ∃ front element back otherFront other otherBack, list = front ++ element :: back ∧
        others = otherFront ++ other :: otherBack ∧ front.length = i ∧
        List.Forall₂ R front otherFront ∧ R element other ∧ List.Forall₂ R back otherBack := by
  induction related generalizing i with
  | nil => exact absurd inside (Nat.not_lt_zero i)
  | cons first rest ih =>
    rename_i element other back otherBack
    cases i with
    | zero => exact ⟨[], element, back, [], other, otherBack, rfl, rfl, rfl, .nil, first, rest⟩
    | succ i =>
      obtain ⟨front, _, _, _, _, _, rfl, rfl, length, fronts, here, backs⟩ :=
        ih (Nat.lt_of_succ_lt_succ inside)
      exact ⟨_ :: front, _, _, _ :: _, _, _, rfl, rfl,
        congrArg (· + 1) length, .cons first fronts, here, backs⟩

/-- A row of a table, among the others -/
structure RowAt (t : StoredTable D) (lines : List (List (TableCell D))) (m row : Nat)
    (block : List (Option Nat)) (front back : List Nat) (line : List (TableCell D))
    (lineFront lineBack : List (List (TableCell D))) : Prop where
  live : t.rowArrays.cells t.cells = some block
  pointers : (front ++ row :: back).map some <+: block
  once : (front ++ row :: back).Nodup
  split : lines = lineFront ++ line :: lineBack
  index : front.length = m
  fronts : List.Forall₂ (HoldsRow t.cellArrays) front lineFront
  here : HoldsRow t.cellArrays row line
  backs : List.Forall₂ (HoldsRow t.cellArrays) back lineBack

/-- The array of rows leads to some lines. -/
def HoldsLines (t : StoredTable D) (lines : List (List (TableCell D))) : Prop :=
  ∃ rows : List Nat, HoldsElements t.rowArrays t.cells rows ∧ rows.Nodup ∧
    List.Forall₂ (HoldsRow t.cellArrays) rows lines

variable {m : Nat}

theorem exists_rowAt (hold : t.HoldsLines lines) (inside : m < lines.length) :
    ∃ row block front back line lineFront lineBack,
      t.RowAt lines m row block front back line lineFront lineBack ∧
        readElement t.rowArrays t.cells m = .ok row := by
  obtain ⟨rows, rowsHold, once, hold⟩ := hold
  obtain ⟨front, row, back, lineFront, line, lineBack, rfl, split, index, fronts,
    here, backs⟩ := forall₂_split hold (hold.length_eq ▸ inside)
  rcases rowsHold with ⟨_, empty⟩ | ⟨block, live, pointers⟩
  · exact absurd empty (List.append_ne_nil_of_right_ne_nil _ (by simp))
  · refine ⟨row, block, front, back, line, lineFront, lineBack,
      ⟨live, pointers, once, split, index, fronts, here, backs⟩, ?_⟩
    have stored : block[m]? = some (some row) := by
      obtain ⟨rest, rfl⟩ := pointers
      rw [List.map_append, List.map_cons, List.append_assoc,
        List.getElem?_append_right (by rw [List.length_map, index]),
        List.length_map, index, Nat.sub_self]
      exact rfl
    simp only [readElement, live, stored]

theorem RowAt.others {row : Nat} {block : List (Option Nat)} {front back : List Nat}
    {line : List (TableCell D)} {lineFront lineBack : List (List (TableCell D))}
    (rowAt : t.RowAt lines m row block front back line lineFront lineBack) :
    ∀ other ∈ front ++ back, other ≠ row ∧ ∃ old, t.cellArrays.cells other = some old := by
  intro other member
  refine ⟨?_, ?_⟩
  · rintro rfl
    exact (List.nodup_middle.mp rowAt.once |> List.nodup_cons.mp).1 member
  · rcases List.mem_append.mp member with inFront | inBack
    · exact live_of_forall₂_holdsRow rowAt.fronts other inFront
    · exact live_of_forall₂_holdsRow rowAt.backs other inBack

variable {resizings : Nat → Resizing}

theorem growRows_widens {left : Nat} (hold : t.HoldsLines lines) (inside : m < lines.length)
    (width : ∀ line ∈ lines.drop m, line.length = t.n) (granted : (resizings m).Granted) :
    ∃ lineFront line lineBack rowArrays cellArrays,
      lines = lineFront ++ line :: lineBack ∧ lineFront.length = m ∧
        { t with rowArrays := rowArrays, cellArrays := cellArrays }.HoldsLines
          (lineFront ++ (line ++ [tableInitCell]) :: lineBack) ∧
        t.growRows resizings m (left + 1) = growRows resizings (m + 1) left
            { t with rowArrays := rowArrays, cellArrays := cellArrays } := by
  obtain ⟨row, block, front, back, line, lineFront, lineBack, rowAt, read⟩ :=
    exists_rowAt hold inside
  have index : lineFront.length = m := rowAt.fronts.length_eq.symm.trans rowAt.index
  obtain ⟨rowBlock, rowLive, begins⟩ := rowAt.here
  obtain ⟨grown, cNew, resized, live, frame⟩ :=
    @Heap.realloc_granted_live _ (fun _ => none) t.cellArrays row (t.n + 1) _ _ rowLive granted
  have tried : tryRealloc t.cellArrays row (t.n + 1) (resizings m) = .ok (grown, cNew) := by
    rw [tryRealloc, resized]
  have wide : line.length = t.n := by
    refine width line ?_
    rw [rowAt.split, ← index, List.drop_left]
    exact List.mem_cons_self
  have others : ∀ other ∈ front ++ back, other ≠ cNew ∧ ∀ old, t.cellArrays.cells other = some old →
              grown.cells other = some old := by
    intro other member
    obtain ⟨different, old, oldLive⟩ := rowAt.others other member
    refine ⟨(frame other old oldLive different).1, fun other' otherLive => ?_⟩
    exact (frame other other' otherLive different).2
  have room : m < block.length := by
    have length := rowAt.pointers.length_le
    rw [List.length_map, List.length_append, List.length_cons, rowAt.index] at length
    omega
  have kept : ∀ other ∈ front ++ back, ∀ old, t.cellArrays.cells other = some old →
            (grown.modify cNew fun block =>
              block.set t.n (some tableInitCell)).cells other = some old := by
    intro other member old oldLive
    rw [Heap.cells_modify, Function.update_of_ne (others other member).1]
    exact (others other member).2 old oldLive
  refine ⟨lineFront, line, lineBack,
    t.rowArrays.modify t.cells fun block => block.set m (some cNew),
    grown.modify cNew fun block => block.set t.n (some tableInitCell), rowAt.split, index,
    ⟨front ++ cNew :: back, ?_, ?_, ?_⟩, ?_⟩
  · refine .inr ⟨_, Heap.cells_modify_self rowAt.live _, ?_⟩
    obtain ⟨rest, whole⟩ := rowAt.pointers
    refine ⟨rest, ?_⟩
    rw [← whole, List.map_append, List.map_append, List.map_cons, List.map_cons,
      List.append_assoc, List.append_assoc,
      List.set_append_right _ _ (by rw [List.length_map, rowAt.index]),
      List.length_map, rowAt.index, Nat.sub_self]
    exact rfl
  · refine List.nodup_middle.mpr (List.nodup_cons.mpr ⟨fun member => ?_, ?_⟩)
    · exact (others cNew member).1 rfl
    · exact (List.nodup_cons.mp (List.nodup_middle.mp rowAt.once)).2
  · refine List.rel_append ?_ (.cons ⟨_, Heap.cells_modify_self live _, ?_⟩ ?_)
    · exact forall₂_holdsRow_frame rowAt.fronts fun other member =>
        kept other (List.mem_append_left _ member)
    · have length : (line.map some).length = t.n := by
        rw [List.length_map, wide]
      have behind := prefix_set_length
        (prefix_resize begins (length ▸ Nat.le_succ _ : _ ≤ t.n + 1) fun _ => none)
        (by rw [length_resize, length]; exact Nat.lt_succ_self _) (some tableInitCell)
      rwa [length, ← List.map_singleton, ← List.map_append] at behind
    · exact forall₂_holdsRow_frame rowAt.backs fun other member =>
        kept other (List.mem_append_right _ member)
  · rw [growRows, read, ok_bind, tried, ok_bind]
    dsimp only
    rw [if_neg (Heap.ne_null live), storeElement_inside rowAt.live room, ok_bind,
      storeElement_inside live (by rw [length_resize]; omega)]
    exact rfl

theorem forall₂_holdsRow_narrow {arrays : Heap (List (Option (TableCell D)))} {rows : List Nat}
    {lineFront lineBack : List (List (TableCell D))} {line more : List (TableCell D)}
    (hold : List.Forall₂ (HoldsRow arrays) rows (lineFront ++ (line ++ more) :: lineBack)) :
    List.Forall₂ (HoldsRow arrays) rows (lineFront ++ line :: lineBack) := by
  induction lineFront generalizing rows with
  | nil =>
    obtain _ | ⟨⟨block, live, begins⟩, others⟩ := hold
    rw [List.map_append] at begins
    exact .cons ⟨block, live, (List.prefix_append ..).trans begins⟩ others
  | cons first front ih =>
    obtain _ | ⟨here, others⟩ := hold
    exact .cons here (ih others)

theorem growRows_refused {left : Nat} (hold : t.HoldsLines lines) (inside : m < lines.length)
    (refused : ¬ (resizings m).Granted) : t.growRows resizings m (left + 1) = .ok (false, t) := by
  obtain ⟨row, block, front, back, line, lineFront, lineBack, rowAt, read⟩ :=
    exists_rowAt hold inside
  obtain ⟨rowBlock, rowLive, _⟩ := rowAt.here
  rw [growRows, read, ok_bind, tryRealloc_refused (.inr ⟨rowBlock, rowLive⟩) refused
      (.inr (Nat.succ_ne_zero _))]
  rfl

/--
The loop of `AG_TableAddCol` goes through and gives the rows that are left a
cell, or a request is refused and the rows are as before.
-/
theorem growRows_spec {done rest : List (List (TableCell D))} {grown : Bool}
    (hold : t.HoldsLines (done ++ rest)) (width : ∀ line ∈ rest, line.length = t.n)
    (grows : t.growRows resizings done.length rest.length = .ok (grown, next)) :
    ∃ rowArrays cellArrays, next = { t with rowArrays := rowArrays, cellArrays := cellArrays } ∧
      ((grown = true ∧ next.HoldsLines (done ++ rest.map (· ++ [tableInitCell])) ∧
          ∀ i, done.length ≤ i → i < done.length + rest.length → (resizings i).Granted) ∨
        (grown = false ∧ next.HoldsLines (done ++ rest) ∧
          ∃ i < done.length + rest.length, ¬ (resizings i).Granted)) := by
  induction rest generalizing done t with
  | nil =>
    cases grows
    exact ⟨_, _, rfl, .inl ⟨rfl, hold, fun i low high => absurd low (Nat.not_le.mpr high)⟩⟩
  | cons line rest ih =>
    have inside : done.length < (done ++ line :: rest).length := by simp
    by_cases granted : (resizings done.length).Granted
    · obtain ⟨front, first, back, rowArrays, cellArrays, split, index, held, one⟩ :=
        @growRows_widens _ t _ _ resizings rest.length hold inside (by rwa [List.drop_left]) granted
      obtain ⟨rfl, same⟩ := List.append_inj split index.symm
      cases same
      have longer : done.length + 1 = (done ++ [line ++ [tableInitCell]]).length := by simp
      rw [List.length_cons, one, longer] at grows
      rw [List.append_cons] at held
      obtain ⟨_, _, rfl, ⟨rfl, holdNext, all⟩ | ⟨rfl, holdNext, i, below, refused⟩⟩ :=
        ih held (List.forall_mem_cons.mp width).2 grows
      · refine ⟨_, _, rfl, .inl ⟨rfl, by rwa [List.map_cons, List.append_cons], ?_⟩⟩
        intro i low high
        rcases low.eq_or_lt with rfl | later
        · exact granted
        · rw [← longer] at all
          exact all i later (by rw [List.length_cons] at high; omega)
      · rw [← List.append_cons] at holdNext
        obtain ⟨rows, rowsHold, once, holdNext⟩ := holdNext
        exact ⟨_, _, rfl, .inr ⟨rfl, ⟨rows, rowsHold, once, forall₂_holdsRow_narrow holdNext⟩, i,
          by rw [← longer] at below; rw [List.length_cons]; omega, refused⟩⟩
    · rw [List.length_cons, growRows_refused hold inside granted] at grows
      cases grows
      exact ⟨_, _, rfl, .inr ⟨rfl, hold, _, by simp, granted⟩⟩

theorem lastCol_eq {colArrays : Heap (List (Option (TableCol D)))} {cols : Nat}
    {block : List (Option (TableCol D))} (live : colArrays.cells cols = some block)
    (begins : columns.map some <+: block) :
    lastCol colArrays cols columns.length = .ok columns.getLast? := by
  rcases List.eq_nil_or_concat' columns with rfl | ⟨front, last, rfl⟩
  · rfl
  · obtain ⟨rest, rfl⟩ := begins
    simp only [lastCol, readElement, live]
    simp
    rfl

variable {requests : ColRequests} {name : Option (List UInt8)} {sizeSpec : Option SizeSpec}
  {sortFn : Option (TableCell D → TableCell D → Int)}

/-- `AG_TableAddCol` adds a column where all its requests are granted, and else changes nothing. -/
theorem addCol_spec {outcome : Option Nat} {v : Table D} (represents : t.Represents v)
    (added : t.addCol requests name sizeSpec sortFn = .ok (outcome, next)) :
    ((requests.cols.Granted ∧ ∀ i < v.cells.length, (requests.rows i).Granted) ∧
        outcome = some v.cols.length ∧ next.Represents (v.addCol name sizeSpec sortFn)) ∨
      (¬ (requests.cols.Granted ∧ ∀ i < v.cells.length, (requests.rows i).Granted) ∧
        outcome = none ∧ next.Represents v) := by
  have holds := represents.holds
  by_cases granted : requests.cols.Granted
  · obtain ⟨colArrays, colsNew, block, tried, _, live, length, begins⟩ :=
      holds.columnArray.grow granted (show v.cols.length ≤ t.n + 1 by
          rw [holds.columnCount]
          exact Nat.le_succ _)
    have last := lastCol_eq live begins
    have column := prefix_set_length begins (by rw [List.length_map, ← holds.columnCount]; omega)
      (some (newTableCol v.cols.getLast? name sizeSpec sortFn))
    rw [← holds.columnCount] at last
    rw [List.length_map, ← holds.columnCount] at column
    simp only [addCol, tried, ok_bind, if_neg (Heap.ne_null live), last,
      storeElement_inside live (by omega : t.n < block.length)] at added
    obtain ⟨⟨grown, left⟩, grows, added⟩ := bind_eq_ok.mp added
    rw [holds.lineCount] at grows
    obtain ⟨rowArrays, cellArrays, rfl, ⟨rfl, ⟨rows, rowsHold, once, hold⟩, all⟩ |
        ⟨rfl, hold, i, below, refused⟩⟩ :=
      @growRows_spec D { t with m := v.cells.length, cols := colsNew, colArrays := _ } left
        requests.rows [] v.cells grown holds.lineArrays
        (fun line member => (holds.width line member).trans holds.columnCount.symm) grows
    · cases added
      refine .inl ⟨⟨granted, fun i below => all i (Nat.zero_le i) (by simpa using below)⟩,
        congrArg some holds.columnCount, congrArg (· ||| tableNeedSort) represents.flags,
        represents.sep, represents.attached, ?_, ?_, ?_,
        .inr ⟨_, Heap.cells_modify_self live _, ?_⟩, rows, rowsHold, once, hold⟩
      · simp [Table.addCol, holds.columnCount]
      · simp [Table.addCol]
      · simp only [Table.addCol, List.mem_map]
        rintro _ ⟨line, member, rfl⟩
        simp [holds.width line member]
      · rwa [Table.addCol, List.map_append]
    · cases added
      refine .inr ⟨fun all => refused (all.2 i (by simpa using below)), rfl, represents.flags,
        represents.sep, represents.attached, holds.columnCount, rfl, holds.width,
        .inr ⟨_, Heap.cells_modify_self live _, (List.prefix_append ..).trans column⟩, hold⟩
  · rw [addCol, tryRealloc_refused holds.columnArray.pointer granted
      (.inr (Nat.succ_ne_zero _))] at added
    cases added
    exact .inr ⟨fun all => granted all.1, rfl, represents⟩

theorem addCol_failed (holds : t.Holds columns lines)
    (failed : t.addCol requests name sizeSpec sortFn = .ok (none, next)) :
    next.Holds columns lines := by
  let v : Table D :=
    { (Table.init : Table D) with
      flags := t.flags
      sep := t.sep
      attached := t.attached
      cols := columns
      cells := lines }
  rcases addCol_spec (v := v) ⟨rfl, rfl, rfl, holds⟩ failed with ⟨_, made, _⟩ | ⟨_, _, kept⟩
  · cases made
  · exact kept.holds

end StoredTable

/--
An insertion that fails leaves the counts, the columns and the rows, all in
allocated arrays, unless it gives up the array of rows that the table points to.
-/
theorem insert_holds_iff {t next : StoredTable D} {columns : List (TableCol D)}
    {lines : List (List (TableCell D))} {insertion : TableInsertion D}
    (holds : t.Holds columns lines) (failed : t.insert insertion = .ok (none, next)) :
    next.Holds columns lines ↔ ¬ t.LosesRows insertion := by
  cases insertion with
  | addCol requests name sizeSpec sortFn =>
    exact iff_of_true (StoredTable.addCol_failed holds failed) id
  | addRow memory requests fmtp ap =>
    change t.addRow memory requests fmtp ap = _ at failed
    by_cases granted : requests.cells.Granted
    · by_cases grantedRow : requests.row.Granted
      · refine iff_of_true ?_ fun loses => loses.2.2 grantedRow
        let v : Table D :=
          { (Table.init : Table D) with
            flags := t.flags
            sep := t.sep
            attached := t.attached
            cols := columns
            cells := lines }
        obtain ⟨rows, row, cNew, rowArrays, cellArrays, hasRow, rowHolds,
          fills⟩ := StoredTable.addRow_granted holds granted grantedRow
        rw [fills] at failed
        obtain ⟨result, _, completed, refused⟩ :=
          StoredTable.fillRow_spec
            (t := { t with cells := cNew, rowArrays := rowArrays, cellArrays := cellArrays })
            (v := v) ⟨rfl, rfl, rfl, rowHolds⟩ hasRow failed
        cases complete : result.complete with
        | true => cases (completed complete).1
        | false => exact (refused complete).2.holds
      · obtain ⟨rowArrays, gaveUp, freed⟩ :=
          StoredTable.addRow_givenUp holds granted grantedRow
        rw [gaveUp] at failed
        cases failed
        by_cases null : t.cells = 0
        · refine iff_of_true ?_ fun loses => loses.1 null
          obtain ⟨rows, rowsHold, once, hold⟩ := holds.lineArrays
          refine ⟨holds.columnCount, holds.lineCount, holds.width,
            holds.columnArray, rows, ?_, once, hold⟩
          rcases rowsHold with empty | ⟨block, live, _⟩
          · exact .inl empty
          · exact absurd null (Heap.ne_null live)
        · refine iff_of_false (fun holds => ?_) (not_not.mpr ⟨null, granted, grantedRow⟩)
          obtain ⟨rows, rowsHold, _⟩ := holds.lineArrays
          obtain ⟨block, live⟩ := rowsHold.pointer.resolve_left null
          rw [freed null] at live
          cases live
    · refine iff_of_true ?_ fun loses => granted loses.2.1
      rw [StoredTable.addRow_refused holds granted] at failed
      cases failed
      exact holds

def StoredTable.init : StoredTable D where
  flags := 0
  sep := ascii ":"
  attached := []
  cols := 0
  cells := 0
  n := 0
  m := 0
  colArrays := .empty
  rowArrays := .empty
  cellArrays := .empty

theorem insert_holds_iff_init : (StoredTable.init : StoredTable Int).Holds [] [] ↔
      ¬ (StoredTable.init : StoredTable Int).LosesRows
        (.addRow plainMemory ⟨.refused, .refused⟩ [] []) :=
  insert_holds_iff (t := StoredTable.init)
    ⟨rfl, rfl, List.forall_mem_nil _, .inl ⟨rfl, rfl⟩, [], .inl ⟨rfl, rfl⟩,
      List.nodup_nil, .nil⟩ rfl

def smallCol : TableCol Int := newTableCol none none none none

def smallCell : TableCell Int := { (tableInitCell : TableCell Int) with type := .int, data := .i 1 }

def smallTable : StoredTable Int where
  flags := tableNeedSort
  sep := ascii ":"
  attached := []
  cols := 1
  cells := 1
  n := 1
  m := 1
  colArrays := Heap.empty.alloc [some smallCol]
  rowArrays := Heap.empty.alloc (some 1 :: List.replicate 29 none)
  cellArrays := Heap.empty.alloc [some smallCell]

theorem rows_are_given_up : ∃ next, smallTable.Holds [smallCol] [[smallCell]] ∧ smallTable.insert
            (.addRow plainMemory ⟨.inPlace, .refused⟩ (ascii "%d") [.int 2]) =
          .ok (none, next) ∧
        ¬ next.Holds [smallCol] [[smallCell]] := by
  refine ⟨_, ?_, rfl, ?_⟩
  · exact ⟨rfl, rfl, List.forall_mem_singleton.mpr rfl, .inr ⟨_, rfl, List.prefix_refl _⟩, [1],
      .inr ⟨_, rfl, List.prefix_append [some 1] _⟩, List.nodup_singleton 1,
      .cons ⟨_, rfl, List.prefix_refl _⟩ .nil⟩
  · intro holds
    obtain ⟨rows, rowsHold, _⟩ := holds.lineArrays
    obtain ⟨block, live⟩ := rowsHold.pointer.resolve_left (by decide)
    cases live

end Agar.Gui
