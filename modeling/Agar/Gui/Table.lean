import Agar.Core.ClassPattern
import Agar.Core.PolledFormat

namespace Agar.Gui

open Agar.Lib
open Agar.Core

/-!
# Tables

An `AG_Table` shows rows of cells below the headers of its columns.  A cell has
a type and, by it, a number, a text, a function, a widget, or a pointer to
where the application keeps its value.

`int` has 32 bits, `long` and pointers have 64.  The values of `double` cells
are of a type `D`.
-/

/-! ## The data model -/

/-- `enum ag_table_cell_type` -/
inductive TableCellType where
  | null
  | string
  | int
  | uint
  | long
  | ulong
  | float
  | double
  | pstring
  | pint
  | puint
  | plong
  | pulong
  | puint8
  | psint8
  | puint16
  | psint16
  | puint32
  | psint32
  | pfloat
  | pdouble
  | int64
  | uint64
  | pint64
  | puint64
  | pointer
  | fnSu
  | fnSuNodup
  | fnTxt
  | widget
  deriving Repr, DecidableEq

/-- What the `data.p` of a cell points to -/
inductive CellPointer where
  /-- Something of the application -/
  | user (address : Nat)
  /-- The cell at an index of a row, which is given by its address -/
  | cell (row n : Nat)
  deriving Repr, DecidableEq

/-- The member of `data` that was stored last, unless none was -/
inductive CellData (D : Type) where
  | unset
  | s (text : List UInt8)
  | i (value : UInt32)
  | f (value : D)
  | p (pointer : CellPointer)
  | l (value : UInt64)
  deriving Repr, DecidableEq

/-- `AG_TableCell`, without its links; functions and widgets are addresses -/
structure TableCell (D : Type) where
  type : TableCellType
  data : CellData D
  fmt : List UInt8
  fnSu : Nat
  fnTxt : Nat
  widget : Nat
  selected : Bool
  surface : Int
  id : UInt32
  flags : UInt32
  nPrev : UInt32
  deriving Repr, DecidableEq

/-- `AG_TABLE_COL_FILL` -/
def tableColFill : UInt32 := 0x01

/-- `AG_TABLE_SORT_ASCENDING` -/
def tableSortAscending : UInt32 := 0x02

/-- `AG_TABLE_SORT_DESCENDING` -/
def tableSortDescending : UInt32 := 0x04

/-- `AG_TABLE_WIDGETS` -/
def tableWidgets : UInt32 := 0x080

/-- `AG_TABLE_NEEDSORT` -/
def tableNeedSort : UInt32 := 0x200

/-- `AG_TABLE_TXT_MAX` -/
def tableTxtMax : Nat := 128

/-- `AG_TABLE_FMT_MAX` -/
def tableFmtMax : Nat := 16

/-- `AG_TABLE_COL_NAME_MAX` -/
def tableColNameMax : Nat := 48

instance : NeZero tableTxtMax := ⟨by decide⟩

instance : NeZero tableFmtMax := ⟨by decide⟩

instance : NeZero tableColNameMax := ⟨by decide⟩

/-- `AG_TableCol`, without its cursor area -/
structure TableCol (D : Type) where
  name : List UInt8
  sortFn : Option (TableCell D → TableCell D → Int)
  flags : UInt32
  selected : Bool
  w : Int
  wPct : Int
  x : Int
  surface : Int

/-- The values that are at an address of the application, by their types -/
structure CellMemory (D : Type) where
  string : Nat → PolledString
  int : Nat → UInt32
  long : Nat → UInt64
  uint8 : Nat → UInt8
  uint16 : Nat → UInt16
  float : Nat → D
  double : Nat → D
  /-- The flags of a widget -/
  widgetFlags : Nat → UInt32

/-- `AG_TablePopup`, of a row and a column, `-1` being all of them -/
structure TablePopup where
  m : Int
  n : Int
  deriving Repr, DecidableEq

/-- `AG_Table`, as far as its rows, columns and clicks depend on it -/
structure Table (D : Type) where
  flags : UInt32
  sep : List UInt8
  wColMin : Int
  xOffs : Int
  /-- `r.w`, the width of the view -/
  rW : Int
  wTot : Int
  cols : List (TableCol D)
  cells : List (List (TableCell D))
  nResizing : Int
  nSorting : Nat
  popups : List TablePopup
  /-- The widgets that were attached -/
  attached : List Nat

/-! ## Cells and columns -/

variable {D : Type}

/-- `AG_TableInitCell` of a cell whose `data` nothing was stored in -/
def tableInitCell : TableCell D where
  type := .null
  data := .unset
  fmt := []
  fnSu := 0
  fnTxt := 0
  widget := 0
  selected := false
  surface := -1
  id := 0
  flags := 0
  nPrev := 0

/-- What `AG_WidgetParseSizeSpec` makes of a size -/
inductive SizeSpec where
  | badSpec
  | pixels (w : Int)
  | percent (w : Int)
  | stringLen (w : Int)
  | fill
  deriving Repr, DecidableEq

/-- The column that `AG_TableAddCol` puts behind the last one -/
def newTableCol (lc : Option (TableCol D)) (name : Option (List UInt8)) (sizeSpec : Option SizeSpec)
    (sortFn : Option (TableCell D → TableCell D → Int)) : TableCol D :=
  let tc : TableCol D := {
    name :=
      match name with
      | some name => (CString.strlcpy name : CString tableColNameMax).bytes
      | none => []
    sortFn := sortFn
    flags := 0
    selected := false
    w := 0
    wPct := -1
    x :=
      match lc with
      | some lc => lc.x + lc.w
      | none => 0
    surface := -1
  }
  match sizeSpec with
  | some (.percent w) => { tc with wPct := w }
  | some .fill => { tc with flags := tableColFill }
  | some (.pixels w) | some (.stringLen w) => { tc with w := w }
  | some .badSpec => tc
  | none => { tc with flags := tableColFill }

namespace Table

/-- `Init` of the class of tables -/
def init : Table D where
  flags := 0
  sep := ascii ":"
  wColMin := 16
  xOffs := 0
  rW := 0
  wTot := 0
  cols := []
  cells := []
  nResizing := -1
  nSorting := 0
  popups := []
  attached := []

/-- `AG_TableAddCol`, whose allocations are granted -/
def addCol (name : Option (List UInt8)) (sizeSpec : Option SizeSpec)
    (sortFn : Option (TableCell D → TableCell D → Int)) (t : Table D) : Table D :=
  { t with
    cols := t.cols ++ [newTableCol t.cols.getLast? name sizeSpec sortFn]
    cells := t.cells.map fun cells => cells ++ [tableInitCell]
    flags := t.flags ||| tableNeedSort }

end Table

end Agar.Gui
