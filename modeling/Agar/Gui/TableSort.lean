import Agar.Gui.Table
import Agar.Lib.CInteger
import Agar.Lib.Comparators

namespace Agar.Gui

open Agar.Lib
open Agar.Core

/-!
# Sorted tables

`AG_TableCompareCells` takes the difference of two cells as an `int`, whatever
they hold, and `AG_TableSort` has `qsort` put the rows of a table in the order
of the cells of one column.
-/

variable {D : Type}

/-! ## The comparison -/

/-- `strcoll` of a locale -/
structure Collation where
  strcoll : List UInt8 → List UInt8 → Int
  exchanged : ∀ s t, 0 ≤ strcoll s t ↔ strcoll t s ≤ 0
  transitive : ∀ s t u, strcoll s t ≤ 0 → strcoll t u ≤ 0 → strcoll s u ≤ 0

/-- What the comparison of cells depends on -/
structure CellComparison (D : Type) where
  memory : CellMemory D
  collation : Collation
  /-- The text that a function makes of its argument -/
  fnTxt : Nat → CellPointer → List UInt8
  /-- The difference of two `float` values, as an `int` -/
  floatDifference : D → D → Except Stop Int
  /-- The difference of two `double` values, as an `int` -/
  doubleDifference : D → D → Except Stop Int

/-- `data.s` -/
def CellData.readS : CellData D → Except Stop (List UInt8)
  | .s text => .ok text
  | _ => .error .undefined

/-- `data.i` -/
def CellData.readI : CellData D → Except Stop UInt32
  | .i value => .ok value
  | _ => .error .undefined

/-- `data.f` -/
def CellData.readF : CellData D → Except Stop D
  | .f value => .ok value
  | _ => .error .undefined

/-- `data.l`, or `data.u64` -/
def CellData.readL : CellData D → Except Stop UInt64
  | .l value => .ok value
  | _ => .error .undefined

/-- `data.p` -/
def CellData.readP : CellData D → Except Stop CellPointer
  | .p pointer => .ok pointer
  | _ => .error .undefined

/-- The address of the application in `data.p` -/
def CellData.readAddress : CellData D → Except Stop Nat
  | .p (.user address) => .ok address
  | _ => .error .undefined

/-- The value of a type with some bits -/
def CInt.ofBits (t : CType) (bits : Nat) : CInt t := ⟨t.wrap bits, t.holds_wrap bits⟩

/-- `a - b`, returned as an `int` -/
def differ {t : CType} (a b : CInt t) : Except Stop Int :=
  match a.sub b with
  | none => .error .undefined
  | some difference => .ok (difference.convert CType.int).val

/-- The difference of the numbers of a type that have the bits of two cells -/
def differAs (t : CType) (read : CellData D → Except Stop Nat)
    (c1 c2 : TableCell D) : Except Stop Int := do
  let a ← read c1.data
  let b ← read c2.data
  differ (CInt.ofBits t a) (CInt.ofBits t b)

/-- `Uint8` -/
def uint8Type : CType := ⟨.w8, false⟩

/-- `Uint16` -/
def uint16Type : CType := ⟨.w16, false⟩

/-- `Uint`, or `Uint32` -/
def uintType : CType := ⟨.w32, false⟩

/-- `long` -/
def longType : CType := ⟨.w64, true⟩

/-- `Ulong`, or `Uint64` -/
def ulongType : CType := ⟨.w64, false⟩

namespace CellComparison

variable (env : CellComparison D)

/-- The bits of `data.i` -/
def bitsI (data : CellData D) : Except Stop Nat := return (← data.readI).toNat

/-- The bits of `data.l` -/
def bitsL (data : CellData D) : Except Stop Nat := return (← data.readL).toNat

/-- The bits of `*(int *)data.p`, or `*(Uint32 *)data.p` -/
def bitsInt (data : CellData D) : Except Stop Nat :=
  return (env.memory.int (← data.readAddress)).toNat

/-- The bits of `*(long *)data.p`, or `*(Uint64 *)data.p` -/
def bitsLong (data : CellData D) : Except Stop Nat :=
  return (env.memory.long (← data.readAddress)).toNat

/-- The bits of `*(Uint8 *)data.p` -/
def bitsUint8 (data : CellData D) : Except Stop Nat :=
  return (env.memory.uint8 (← data.readAddress)).toNat

/-- The bits of `*(Uint16 *)data.p` -/
def bitsUint16 (data : CellData D) : Except Stop Nat :=
  return (env.memory.uint16 (← data.readAddress)).toNat

/-- `strcoll` of two texts -/
def collate (text : CellData D → Except Stop (List UInt8))
    (c1 c2 : TableCell D) : Except Stop Int := do
  let s ← text c1.data
  let t ← text c2.data
  return env.collation.strcoll s t

/-- The text at `data.p` -/
def textAt (data : CellData D) : Except Stop (List UInt8) :=
  return (env.memory.string (← data.readAddress)).val

/-- The number that a comparison gives -/
def ofBool (differs : Bool) : Int :=
  if differs then 1 else 0

/-- The switch of `AG_TableCompareCells` on the type of the cells -/
def compareByType [DecidableEq D] (c1 c2 : TableCell D) : Except Stop Int :=
  match c1.type with
  | .string => env.collate CellData.readS c1 c2
  | .pstring => env.collate env.textAt c1 c2
  | .int => differAs CType.int bitsI c1 c2
  | .uint => differAs uintType bitsI c1 c2
  | .long => differAs longType bitsL c1 c2
  | .ulong => differAs ulongType bitsL c1 c2
  | .float | .double => do
      let a ← c1.data.readF
      let b ← c2.data.readF
      return ofBool (a ≠ b)
  | .int64 | .uint64 => differAs ulongType bitsL c1 c2
  | .puint64 | .pint64 => differAs ulongType env.bitsLong c1 c2
  | .pulong | .plong => differAs longType env.bitsLong c1 c2
  | .puint | .pint => differAs CType.int env.bitsInt c1 c2
  | .puint8 | .psint8 => differAs uint8Type env.bitsUint8 c1 c2
  | .puint16 | .psint16 => differAs uint16Type env.bitsUint16 c1 c2
  | .puint32 | .psint32 => differAs uintType env.bitsInt c1 c2
  | .pfloat => do
      let a ← c1.data.readAddress
      let b ← c2.data.readAddress
      env.floatDifference (env.memory.float a) (env.memory.float b)
  | .pdouble => do
      let a ← c1.data.readAddress
      let b ← c2.data.readAddress
      env.doubleDifference (env.memory.double a) (env.memory.double b)
  | .pointer => do
      let a ← c1.data.readP
      let b ← c2.data.readP
      return ofBool (a ≠ b)
  | .fnSu | .fnSuNodup => do
      let a ← c1.data.readP
      let b ← c2.data.readP
      return ofBool (a ≠ b ∨ c1.fnSu ≠ c2.fnSu)
  | .fnTxt => do
      let a ← c1.data.readP
      let b ← c2.data.readP
      return env.collation.strcoll (env.fnTxt c1.fnTxt a) (env.fnTxt c2.fnTxt b)
  | .widget => .ok 1
  | .null => .ok 0

/-- `AG_TableCompareCells` -/
def compareCells [DecidableEq D] (c1 c2 : TableCell D) : Except Stop Int :=
  if c1.type ≠ c2.type ∨ c1.fmt ≠ c2.fmt then
    if c1.type = .null ∨ c2.type = .null then .ok (if c1.type = .null then 1 else -1)
    else .ok 1
  else if c1.id ≠ 0 ∧ c2.id ≠ 0 then
    differ (CInt.ofBits uintType c1.id.toNat) (CInt.ofBits uintType c2.id.toNat)
  else env.compareByType c1 c2

end CellComparison

/-! ## The sort -/

/-- How a column is sorted -/
inductive SortMode where
  | ascending
  | descending
  deriving Repr, DecidableEq

/-- The mode in which a column is sorted, if it is -/
def TableCol.sortMode (tc : TableCol D) : Option SortMode :=
  if tc.flags &&& tableSortAscending ≠ 0 then some .ascending
  else if tc.flags &&& tableSortDescending ≠ 0 then some .descending
  else none

/-- The loop of `AG_TableSort`: the column that it ends at, and its mode -/
def sortingColumn : Nat → List (TableCol D) → Option (Nat × TableCol D × SortMode)
  | _, [] => none
  | i, tc :: cols =>
    match tc.sortMode with
    | some mode => some (i, tc, mode)
    | none => sortingColumn (i + 1) cols

/-- A cell of a row -/
def cellAt (i : Nat) (row : List (TableCell D)) : TableCell D := row.getD i tableInitCell

namespace CellComparison

variable (env : CellComparison D) [DecidableEq D]

/-- The comparison of cells of a column, which may have its own -/
def compareIn (tc : TableCol D) (c1 c2 : TableCell D) : Except Stop Int :=
  match tc.sortFn with
  | some sortFn => .ok (sortFn c1 c2)
  | none => env.compareCells c1 c2

/-- `AG_TableSortCellsAsc` -/
def tableSortCellsAsc (nSorting : Nat) (tc : TableCol D)
    (row1 row2 : List (TableCell D)) : Except Stop Int :=
  env.compareIn tc (cellAt nSorting row1) (cellAt nSorting row2)

/-- `AG_TableSortCellsDsc` -/
def tableSortCellsDsc (nSorting : Nat) (tc : TableCol D)
    (row1 row2 : List (TableCell D)) : Except Stop Int :=
  env.compareIn tc (cellAt nSorting row2) (cellAt nSorting row1)

end CellComparison

/-- `AG_TableSort` -/
def Table.sort [DecidableEq D] (env : CellComparison D) (qsort : Qsort Stop)
    (t : Table D) : Except Stop (Table D) :=
  match sortingColumn 0 t.cols with
  | none => .ok t
  | some (i, tc, mode) => do
      let sortFn :=
        match mode with
        | .ascending => env.tableSortCellsAsc i tc
        | .descending => env.tableSortCellsDsc i tc
      let cells ← qsort.sort sortFn t.cells
      return { t with nSorting := i, cells := cells, flags := t.flags &&& ~~~tableNeedSort }

/-! ## Differences -/

/--
The type holds a difference, and its last 32 bits are those of a positive
number.
-/
def Apart (t : CType) (difference : Int) : Prop :=
  (t.signed = true → t.promoted.Holds difference) ∧
    0 < difference % 2 ^ 32 ∧ difference % 2 ^ 32 < 2 ^ 31

section Differences

variable {t : CType} {a b : CInt t}

theorem int_wrap_wrap_promoted (t : CType) (value : Int) :
    CType.int.wrap (t.promoted.wrap value) = CType.int.wrap value := by
  obtain ⟨width, signed⟩ := t
  unfold CType.wrap
  cases width <;> cases signed <;>
    simp only [CType.promoted, Width.narrow, CType.int, CType.least, CType.size,
      Width.bits, Bool.false_eq_true, if_true, if_false] <;>
    norm_num <;> omega

theorem wrap_eq_wrap {u : CType} (sameWidth : u.width = t.width) {a b : Int}
    (same : t.wrap a = t.wrap b) : u.wrap a = u.wrap b := by
  have sameSize : u.size = t.size := by rw [CType.size, CType.size, sameWidth]
  have congruent : a % t.size = b % t.size := by
    have shifted : (a - t.least) % t.size = (b - t.least) % t.size := add_right_cancel same
    exact Int.ModEq.add_right_cancel' (-t.least) shifted
  rw [CType.wrap, CType.wrap, sameSize]
  exact congrArg (· + u.least) (Int.ModEq.sub_right u.least congruent)

theorem differ_eq (a b : CInt t) : differ a b =
      if t.promoted.signed = true ∧ ¬ t.promoted.Holds (a.val - b.val) then .error .undefined
      else
        .ok (CType.int.wrap (a.val - b.val)) := by
  rw [differ, CInt.sub_eq a.holds_common_self b.holds_common_self, CType.compute]
  rw [← CType.common_self]
  by_cases undefined : (t.common t).signed = true ∧ ¬ (t.common t).Holds (a.val - b.val)
  · rw [if_pos undefined, if_pos undefined]
  · rw [if_neg undefined, if_neg undefined]
    simp only [CInt.convert, CType.common_self, int_wrap_wrap_promoted]

theorem int_wrap_eq (value : Int) : CType.int.wrap value = (value + 2 ^ 31) % 2 ^ 32 - 2 ^ 31 := by
  norm_num [CType.wrap, CType.int, CType.least, CType.size, Width.bits]
  exact rfl

theorem int_wrap_pos (value : Int) : 0 < CType.int.wrap value ↔
      0 < value % 2 ^ 32 ∧ value % 2 ^ 32 < 2 ^ 31 := by
  rw [int_wrap_eq]
  omega

theorem promoted_signed (isSigned : t.signed = true) : t.promoted.signed = true := by
  obtain ⟨width, signed⟩ := t
  cases isSigned
  cases width <;> rfl

theorem exists_differ (sign : Int → Prop) : (∃ result, differ a b = .ok result ∧ sign result) ↔
      (t.promoted.signed = true → t.promoted.Holds (a.val - b.val)) ∧
        sign (CType.int.wrap (a.val - b.val)) := by
  rw [differ_eq]
  by_cases undefined : t.promoted.signed = true ∧ ¬ t.promoted.Holds (a.val - b.val)
  · rw [if_pos undefined]
    refine iff_of_false ?_ fun defined => undefined.2 (defined.1 undefined.1)
    rintro ⟨result, failed, _⟩
    cases failed
  · rw [if_neg undefined]
    have defined : t.promoted.signed = true → t.promoted.Holds (a.val - b.val) :=
      fun isSigned => not_not.mp fun outside => undefined ⟨isSigned, outside⟩
    rw [and_iff_right defined]
    constructor
    · rintro ⟨result, same, holds⟩
      cases same
      exact holds
    · exact fun holds => ⟨_, rfl, holds⟩

theorem differ_self (same : a.val = b.val) : differ a b = .ok 0 := by
  have zero : t.promoted.Holds 0 := ⟨CType.least_nonpos _, CType.zero_le_greatest _⟩
  rw [differ_eq, same, sub_self, if_neg fun undefined => undefined.2 zero]
  exact rfl

theorem holds_difference (unsigned : t.signed = false) (isSigned : t.promoted.signed = true) :
    t.promoted.Holds (a.val - b.val) := by
  obtain ⟨width, signed⟩ := t
  obtain ⟨x, holdsX⟩ := a
  obtain ⟨y, holdsY⟩ := b
  cases unsigned
  unfold CType.Holds at *
  cases width <;>
    simp only [CType.promoted, Width.narrow, CType.int, CType.least,
      CType.greatest, Width.bits, Bool.false_eq_true, if_true,
      if_false] at isSigned holdsX holdsY ⊢ <;>
    norm_num at holdsX holdsY ⊢ <;> omega

theorem holds_opposite {value : Int} (isSigned : t.promoted.signed = true)
    (holds : t.promoted.Holds value) (apart : 0 < value % 2 ^ 32 ∧ value % 2 ^ 32 < 2 ^ 31) :
    t.promoted.Holds (-value) := by
  obtain ⟨width, signed⟩ := t
  unfold CType.Holds at *
  cases width <;> cases signed <;>
    simp only [CType.promoted, Width.narrow, CType.int, CType.least,
      CType.greatest, Width.bits, Bool.false_eq_true, if_true,
      if_false] at isSigned holds ⊢ <;>
    norm_num at holds apart ⊢ <;> omega

theorem differ_apart : ((∃ sign, differ a b = .ok sign ∧ 0 < sign) ∧
        ∃ sign, differ b a = .ok sign ∧ sign < 0) ↔
      Apart t (a.val - b.val) := by
  rw [exists_differ (0 < ·), exists_differ (· < 0), int_wrap_pos, ← Int.neg_sub a.val b.val]
  constructor
  · rintro ⟨⟨defined, positive⟩, _⟩
    exact ⟨fun isSigned => defined (promoted_signed isSigned), positive⟩
  · rintro ⟨defined, positive⟩
    have holds : t.promoted.signed = true → t.promoted.Holds (a.val - b.val) := by
      intro isSigned
      cases signed : t.signed with
      | true => exact defined signed
      | false => exact holds_difference signed isSigned
    refine ⟨⟨holds, positive⟩, fun isSigned =>
      holds_opposite isSigned (holds isSigned) positive, ?_⟩
    rw [int_wrap_eq]
    omega

theorem ofBits_id (id : UInt32) : (CInt.ofBits uintType id.toNat).val = id.toNat := by
  refine CType.wrap_of_holds ⟨Int.natCast_nonneg _, ?_⟩
  have bound := id.toNat_lt
  change (id.toNat : Int) ≤ 2 ^ 32 - 1
  omega

theorem differ_ids (id other : UInt32) :
    differ (CInt.ofBits uintType id.toNat) (CInt.ofBits uintType other.toNat) = .ok 0 ↔
      id = other := by
  constructor
  · intro zero
    obtain ⟨_, wrapped⟩ := (exists_differ (· = 0)).mp ⟨0, zero, rfl⟩
    rw [ofBits_id, ofBits_id, int_wrap_eq] at wrapped
    have bound := id.toNat_lt
    have bound' := other.toNat_lt
    exact UInt32.toNat_inj.mp (by omega)
  · rintro rfl
    exact differ_self rfl

end Differences

/-! ## The values of cells -/

/-- A cell type that stands for integers -/
structure IntegerCell (D : Type) where
  /-- The type of the value -/
  value : CType
  /-- The type as which it is compared -/
  compared : CType
  bits : CellData D → Except Stop Nat

/-- The value of a cell -/
inductive CellKey (D : Type) where
  | integer (value : Int)
  | text (value : List UInt8)
  | real (value : D)
  deriving DecidableEq

namespace CellComparison

variable (env : CellComparison D)

/-- The cell types that stand for integers -/
def integerCell : TableCellType → Option (IntegerCell D)
  | .int => some ⟨.int, .int, bitsI⟩
  | .uint => some ⟨uintType, uintType, bitsI⟩
  | .long => some ⟨longType, longType, bitsL⟩
  | .ulong => some ⟨ulongType, ulongType, bitsL⟩
  | .int64 => some ⟨longType, ulongType, bitsL⟩
  | .uint64 => some ⟨ulongType, ulongType, bitsL⟩
  | .pint => some ⟨.int, .int, env.bitsInt⟩
  | .puint => some ⟨uintType, .int, env.bitsInt⟩
  | .plong => some ⟨longType, longType, env.bitsLong⟩
  | .pulong => some ⟨ulongType, longType, env.bitsLong⟩
  | .puint8 => some ⟨uint8Type, uint8Type, env.bitsUint8⟩
  | .psint8 => some ⟨⟨.w8, true⟩, uint8Type, env.bitsUint8⟩
  | .puint16 => some ⟨uint16Type, uint16Type, env.bitsUint16⟩
  | .psint16 => some ⟨⟨.w16, true⟩, uint16Type, env.bitsUint16⟩
  | .puint32 => some ⟨uintType, uintType, env.bitsInt⟩
  | .psint32 => some ⟨.int, uintType, env.bitsInt⟩
  | .pint64 => some ⟨longType, ulongType, env.bitsLong⟩
  | .puint64 => some ⟨ulongType, ulongType, env.bitsLong⟩
  | _ => none

/-- The value of a cell, if that is an integer, a text or an exact number -/
def cellKey (c : TableCell D) : Option (CellKey D) :=
  match env.integerCell c.type with
  | some kind => (kind.bits c.data).toOption.map fun bits : Nat => .integer (kind.value.wrap bits)
  | none =>
    match c.type with
    | .string => c.data.readS.toOption.map .text
    | .pstring => (env.textAt c.data).toOption.map .text
    | .float | .double => c.data.readF.toOption.map .real
    | _ => none

variable [LinearOrder D]

/-- The order of values, which for texts is that of the locale -/
def KeyLe : CellKey D → CellKey D → Prop
  | .integer a, .integer b => a ≤ b
  | .text s, .text t => env.collation.strcoll s t ≤ 0
  | .real a, .real b => a ≤ b
  | _, _ => False

/-- The order of cells by their values -/
def CellLe (c1 c2 : TableCell D) : Prop :=
  match env.cellKey c1, env.cellKey c2 with
  | some k, some l => env.KeyLe k l
  | _, _ => False

/-- The difference of two integers, as the comparison takes it -/
def comparedDifference (kind : IntegerCell D) (c1 c2 : TableCell D) : Int :=
  match kind.bits c1.data, kind.bits c2.data with
  | .ok a, .ok b => kind.compared.wrap a - kind.compared.wrap b
  | _, _ => 0

/--
Two cells are told apart as they should: they have the same format, and where
the first is behind the other, their identifiers are apart if both have one,
or their values are if these are integers; numbers are not.
-/
def Discerns (c1 c2 : TableCell D) : Prop :=
  c1.fmt = c2.fmt ∧ if c1.id ≠ 0 ∧ c2.id ≠ 0 then
      (¬ env.CellLe c1 c2 → Apart uintType ((c1.id.toNat : Int) - c2.id.toNat)) ∧
        (env.CellLe c1 c2 → env.CellLe c2 c1 → c1.id = c2.id)
    else
      match env.integerCell c1.type with
      | some kind => ¬ env.CellLe c1 c2 → Apart kind.compared (comparedDifference kind c1 c2)
      | none => (c1.type = .float ∨ c1.type = .double) → env.CellLe c1 c2

end CellComparison

/-- The sign of a comparison is that of an order. -/
def SignIs (result : Except Stop Int) (below above : Prop) : Prop :=
  ∃ sign, result = .ok sign ∧ (sign ≤ 0 ↔ below) ∧ (0 ≤ sign ↔ above)

section Signs

variable {first : Except Stop Int} {below above P : Prop}

theorem signIs_of_equal (isBelow : below) (isAbove : above) :
    SignIs first below above ↔ first = .ok 0 := by
  constructor
  · rintro ⟨sign, rfl, le, ge⟩
    rw [le_antisymm (le.mpr isBelow) (ge.mpr isAbove)]
  · rintro rfl
    exact ⟨0, rfl, by simpa using isBelow, by simpa using isAbove⟩

theorem signIs_of_above (notBelow : ¬ below) (isAbove : above) :
    SignIs first below above ↔ ∃ sign, first = .ok sign ∧ 0 < sign := by
  constructor
  · rintro ⟨sign, same, le, _⟩
    exact ⟨sign, same, lt_of_not_ge fun small => notBelow (le.mp small)⟩
  · rintro ⟨sign, same, positive⟩
    exact ⟨sign, same, iff_of_false (not_le.mpr positive) notBelow, iff_of_true positive.le isAbove⟩

theorem signIs_of_below (isBelow : below) (notAbove : ¬ above) :
    SignIs first below above ↔ ∃ sign, first = .ok sign ∧ sign < 0 := by
  constructor
  · rintro ⟨sign, same, _, ge⟩
    exact ⟨sign, same, lt_of_not_ge fun large => notAbove (ge.mp large)⟩
  · rintro ⟨sign, same, negative⟩
    exact ⟨sign, same, iff_of_true negative.le isBelow, iff_of_false (not_le.mpr negative) notAbove⟩

theorem signIs_differ {t : CType} {a b : CInt t} (total : below ∨ above)
    (same : below → above → (differ a b = .ok 0 ∧ differ b a = .ok 0 ↔ P)) :
    SignIs (differ a b) below above ∧ SignIs (differ b a) above below ↔
      (¬ below → Apart t (a.val - b.val)) ∧ (¬ above → Apart t (b.val - a.val)) ∧
        (below → above → P) := by
  by_cases isBelow : below
  · by_cases isAbove : above
    · rw [signIs_of_equal isBelow isAbove, signIs_of_equal isAbove isBelow, same isBelow isAbove]
      simp [isBelow, isAbove]
    · rw [signIs_of_below isBelow isAbove, signIs_of_above isAbove isBelow, and_comm, differ_apart]
      simp [isBelow, isAbove]
  · have isAbove := total.resolve_left isBelow
    rw [signIs_of_above isBelow isAbove, signIs_of_below isAbove isBelow, differ_apart]
    simp [isBelow, isAbove]

end Signs

/-! ## Cells that are told apart -/

namespace CellComparison

/-- Two cells of a column of values -/
structure Comparable (env : CellComparison D) (c1 c2 : TableCell D) : Prop where
  type : c1.type = c2.type
  first : (env.cellKey c1).isSome
  second : (env.cellKey c2).isSome

variable {env : CellComparison D} {c1 c2 : TableCell D}

theorem Comparable.symm (comparable : env.Comparable c1 c2) : env.Comparable c2 c1 :=
  ⟨comparable.type.symm, comparable.second, comparable.first⟩

theorem type_of_cellKey {c : TableCell D} (valued : (env.cellKey c).isSome)
    (noIntegers : env.integerCell c.type = none) :
    (c.type = .string ∨ c.type = .pstring) ∨ c.type = .float ∨ c.type = .double := by
  rw [cellKey, noIntegers] at valued
  cases type : c.type <;> rw [type] at valued <;>
    first
    | exact absurd valued Bool.false_ne_true
    | simp

theorem exists_of_isSome_map {α β : Type} {result : Except Stop α} {f : α → β}
    (defined : (result.toOption.map f).isSome) : ∃ value, result = .ok value := by
  cases result with
  | error stop => cases defined
  | ok value => exact ⟨value, rfl⟩

variable {kind : IntegerCell D}

theorem cellKey_integer {c : TableCell D} (valued : (env.cellKey c).isSome)
    (integers : env.integerCell c.type = some kind) :
    ∃ bits, kind.bits c.data = .ok bits ∧
        env.cellKey c = some (.integer (kind.value.wrap bits)) := by
  simp only [cellKey, integers] at valued ⊢
  obtain ⟨bits, read⟩ := exists_of_isSome_map valued
  rw [read]
  exact ⟨bits, rfl, rfl⟩

theorem width_integerCell {type : TableCellType} (integers : env.integerCell type = some kind) :
    kind.compared.width = kind.value.width := by
  cases type <;> cases integers <;> rfl

variable [LinearOrder D]

/-- The comparison of two cells has the sign of their order. -/
abbrev Orders (env : CellComparison D) (c1 c2 : TableCell D) : Prop :=
  SignIs (env.compareCells c1 c2) (env.CellLe c1 c2) (env.CellLe c2 c1)

theorem cellLe_iff {k l : CellKey D} (first : env.cellKey c1 = some k)
    (second : env.cellKey c2 = some l) : env.CellLe c1 c2 ↔ env.KeyLe k l := by
  rw [CellLe, first, second]

theorem compareByType_integer (integers : env.integerCell c1.type = some kind) :
    env.compareByType c1 c2 = differAs kind.compared kind.bits c1 c2 := by
  unfold compareByType integerCell at *
  cases type : c1.type <;> rw [type] at integers <;>
    simp only [Option.some.injEq, reduceCtorEq] at integers <;>
    rw [← integers]

theorem compareByType_text (comparable : env.Comparable c1 c2)
    (isText : c1.type = .string ∨ c1.type = .pstring) :
    ∃ s t, env.cellKey c1 = some (.text s) ∧ env.cellKey c2 = some (.text t) ∧
        env.compareByType c1 c2 = .ok (env.collation.strcoll s t) := by
  obtain ⟨same, first, second⟩ := comparable
  rcases isText with type | type
  · simp only [cellKey, integerCell, ← same, type] at first second ⊢
    obtain ⟨s, readS⟩ := exists_of_isSome_map first
    obtain ⟨t, readT⟩ := exists_of_isSome_map second
    rw [compareByType, type, readS, readT]
    refine ⟨s, t, rfl, rfl, ?_⟩
    simp only [collate, readS, readT]
    rfl
  · simp only [cellKey, integerCell, ← same, type] at first second ⊢
    obtain ⟨s, readS⟩ := exists_of_isSome_map first
    obtain ⟨t, readT⟩ := exists_of_isSome_map second
    rw [compareByType, type, readS, readT]
    refine ⟨s, t, rfl, rfl, ?_⟩
    simp only [collate, readS, readT]
    rfl

theorem compareByType_real (comparable : env.Comparable c1 c2)
    (isReal : c1.type = .float ∨ c1.type = .double) :
    ∃ a b, env.cellKey c1 = some (.real a) ∧ env.cellKey c2 = some (.real b) ∧
        env.compareByType c1 c2 = .ok (ofBool (a ≠ b)) := by
  obtain ⟨same, first, second⟩ := comparable
  rcases isReal with type | type
  · simp only [cellKey, integerCell, ← same, type] at first second ⊢
    obtain ⟨a, readA⟩ := exists_of_isSome_map first
    obtain ⟨b, readB⟩ := exists_of_isSome_map second
    rw [compareByType, type, readA, readB]
    exact ⟨a, b, rfl, rfl, rfl⟩
  · simp only [cellKey, integerCell, ← same, type] at first second ⊢
    obtain ⟨a, readA⟩ := exists_of_isSome_map first
    obtain ⟨b, readB⟩ := exists_of_isSome_map second
    rw [compareByType, type, readA, readB]
    exact ⟨a, b, rfl, rfl, rfl⟩

theorem Comparable.total (comparable : env.Comparable c1 c2) :
    env.CellLe c1 c2 ∨ env.CellLe c2 c1 := by
  cases integers : env.integerCell c1.type with
  | some kind =>
    obtain ⟨a, _, first⟩ := cellKey_integer comparable.first integers
    obtain ⟨b, _, second⟩ := cellKey_integer comparable.second (comparable.type ▸ integers)
    rw [cellLe_iff first second, cellLe_iff second first]
    exact le_total _ _
  | none =>
    rcases type_of_cellKey comparable.first integers with isText | isReal
    · obtain ⟨s, t, first, second, _⟩ := compareByType_text comparable isText
      rw [cellLe_iff first second, cellLe_iff second first]
      exact (le_total (env.collation.strcoll s t) 0).imp_right (env.collation.exchanged s t).mp
    · obtain ⟨a, b, first, second, _⟩ := compareByType_real comparable isReal
      rw [cellLe_iff first second, cellLe_iff second first]
      exact le_total a b

theorem orders_text (comparable : env.Comparable c1 c2)
    (isText : c1.type = .string ∨ c1.type = .pstring) :
    SignIs (env.compareByType c1 c2) (env.CellLe c1 c2) (env.CellLe c2 c1) := by
  obtain ⟨s, t, first, second, compared⟩ := compareByType_text comparable isText
  rw [compared, cellLe_iff first second, cellLe_iff second first]
  exact ⟨_, rfl, Iff.rfl, env.collation.exchanged s t⟩

theorem orders_real (comparable : env.Comparable c1 c2)
    (isReal : c1.type = .float ∨ c1.type = .double) :
    SignIs (env.compareByType c1 c2) (env.CellLe c1 c2) (env.CellLe c2 c1) ∧
        SignIs (env.compareByType c2 c1) (env.CellLe c2 c1) (env.CellLe c1 c2) ↔
      env.CellLe c1 c2 ∧ env.CellLe c2 c1 := by
  obtain ⟨a, b, first, second, compared⟩ := compareByType_real comparable isReal
  obtain ⟨b', a', second', first', exchanged⟩ :=
    compareByType_real comparable.symm (comparable.type ▸ isReal)
  cases Option.some.inj (first.symm.trans first')
  cases Option.some.inj (second.symm.trans second')
  rw [compared, exchanged, cellLe_iff first second, cellLe_iff second first]
  by_cases same : a = b
  · subst same
    have equal : env.KeyLe (.real a) (.real a) := le_refl a
    refine iff_of_true ⟨?_, ?_⟩ ⟨equal, equal⟩ <;>
    · rw [signIs_of_equal equal equal, decide_eq_false (not_not.mpr rfl)]
      exact rfl
  · rw [decide_eq_true same, decide_eq_true (Ne.symm same)]
    refine iff_of_false ?_ fun equal => same (le_antisymm equal.1 equal.2)
    rintro ⟨⟨sign, isOne, _, ge⟩, sign', isOne', le', _⟩
    cases isOne
    cases isOne'
    exact absurd (le'.mpr (ge.mp Int.one_nonneg)) (by decide)

theorem orders_integer (comparable : env.Comparable c1 c2)
    (integers : env.integerCell c1.type = some kind) :
    SignIs (env.compareByType c1 c2) (env.CellLe c1 c2) (env.CellLe c2 c1) ∧
        SignIs (env.compareByType c2 c1) (env.CellLe c2 c1) (env.CellLe c1 c2) ↔
      (¬ env.CellLe c1 c2 → Apart kind.compared (comparedDifference kind c1 c2)) ∧
        (¬ env.CellLe c2 c1 → Apart kind.compared (comparedDifference kind c2 c1)) := by
  have integersToo : env.integerCell c2.type = some kind := comparable.type ▸ integers
  obtain ⟨a, readA, first⟩ := cellKey_integer comparable.first integers
  obtain ⟨b, readB, second⟩ := cellKey_integer comparable.second integersToo
  have forward : env.compareByType c1 c2 =
        differ (CInt.ofBits kind.compared a) (CInt.ofBits kind.compared b) := by
    rw [compareByType_integer integers, differAs, readA, readB]
    exact rfl
  have backward : env.compareByType c2 c1 =
        differ (CInt.ofBits kind.compared b) (CInt.ofBits kind.compared a) := by
    rw [compareByType_integer integersToo, differAs, readA, readB]
    exact rfl
  have equal : env.CellLe c1 c2 → env.CellLe c2 c1 →
          kind.compared.wrap a = kind.compared.wrap b := by
    rw [cellLe_iff first second, cellLe_iff second first]
    intro below above
    exact wrap_eq_wrap (width_integerCell integers) (le_antisymm below above)
  rw [forward, backward, comparedDifference, comparedDifference, readA, readB,
    signIs_differ (P := True) comparable.total fun below above =>
      iff_of_true ⟨differ_self (equal below above), differ_self (equal below above).symm⟩ trivial]
  exact and_congr_right fun _ => and_iff_left fun _ _ => trivial

theorem compareCells_formats (same : c1.type = c2.type) (formats : c1.fmt ≠ c2.fmt) :
    env.compareCells c1 c2 = .ok 1 := by
  rw [compareCells, if_pos (.inr formats)]
  split
  case isTrue eitherNull =>
    have isNull : c1.type = .null := eitherNull.elim id same.trans
    rw [if_pos isNull]
  case isFalse => rfl

theorem compareCells_eq (same : c1.type = c2.type) (formats : c1.fmt = c2.fmt) :
    env.compareCells c1 c2 = if c1.id ≠ 0 ∧ c2.id ≠ 0 then
        differ (CInt.ofBits uintType c1.id.toNat) (CInt.ofBits uintType c2.id.toNat)
      else
        env.compareByType c1 c2 := by
  rw [compareCells, if_neg]
  rintro (types | differ)
  · exact types same
  · exact differ formats

theorem orders_iff (comparable : env.Comparable c1 c2) : env.Orders c1 c2 ∧ env.Orders c2 c1 ↔
      env.Discerns c1 c2 ∧ env.Discerns c2 c1 := by
  have type := comparable.type
  by_cases formats : c1.fmt = c2.fmt
  · rw [Orders, Orders, compareCells_eq type formats,
      compareCells_eq type.symm formats.symm, Discerns, Discerns,
      and_iff_right formats, and_iff_right formats.symm]
    by_cases ids : c1.id ≠ 0 ∧ c2.id ≠ 0
    · rw [if_pos ids, if_pos ids.symm, if_pos ids, if_pos ids.symm,
        signIs_differ (P := c1.id = c2.id) comparable.total fun _ _ => by
          rw [differ_ids, differ_ids, eq_comm (a := c2.id), and_self],
        ofBits_id, ofBits_id]
      constructor
      · rintro ⟨first, second, same⟩
        exact ⟨⟨first, same⟩, second, fun above below => (same below above).symm⟩
      · rintro ⟨⟨first, same⟩, second, _⟩
        exact ⟨first, second, same⟩
    · have idsToo : ¬ (c2.id ≠ 0 ∧ c1.id ≠ 0) := fun both => ids both.symm
      rw [if_neg ids, if_neg idsToo, if_neg ids, if_neg idsToo, ← type]
      cases integers : env.integerCell c1.type with
      | some kind => exact orders_integer comparable integers
      | none =>
        rcases type_of_cellKey comparable.first integers with isText | isReal
        · refine iff_of_true ⟨orders_text comparable isText,
            orders_text comparable.symm (type ▸ isText)⟩ ?_
          have noReal : ¬ (c1.type = .float ∨ c1.type = .double) := by
            rintro (isReal | isReal) <;> rw [isReal] at isText <;>
              simp at isText
          exact ⟨fun isReal => absurd isReal noReal, fun isReal => absurd isReal noReal⟩
        · rw [orders_real comparable isReal]
          exact ⟨fun equal => ⟨fun _ => equal.1, fun _ => equal.2⟩,
            fun equal => ⟨equal.1 isReal, equal.2 isReal⟩⟩
  · refine iff_of_false ?_ fun discerns => formats discerns.1.1
    rw [Orders, Orders, compareCells_formats type formats,
      compareCells_formats type.symm (Ne.symm formats)]
    rintro ⟨⟨sign, isOne, _, ge⟩, sign', isOne', le', _⟩
    cases isOne
    cases isOne'
    exact absurd (le'.mpr (ge.mp Int.one_nonneg)) (by decide)

theorem CellLe.trans {c3 : TableCell D} (first : env.CellLe c1 c2) (second : env.CellLe c2 c3) :
    env.CellLe c1 c3 := by
  unfold CellLe at *
  cases key1 : env.cellKey c1 <;> cases key2 : env.cellKey c2 <;>
    cases key3 : env.cellKey c3 <;> rw [key1, key2] at first <;>
    rw [key2, key3] at second <;> try contradiction
  rename_i k l m
  cases k <;> cases l <;> cases m <;> try contradiction
  case integer => exact le_trans (α := Int) first second
  case text => exact env.collation.transitive _ _ _ first second
  case real => exact le_trans (α := D) first second

end CellComparison

/-! ## Columns of values -/

/-- The cells of a column have one type, and values. -/
def ColumnOfValues (env : CellComparison D) (type : TableCellType)
    (column : List (TableCell D)) : Prop :=
  ∀ c ∈ column, c.type = type ∧ (env.cellKey c).isSome

section Columns

variable {env : CellComparison D} {type : TableCellType} {column : List (TableCell D)}

theorem ColumnOfValues.comparable (values : ColumnOfValues env type column) {c1 c2 : TableCell D}
    (inColumn : c1 ∈ column) (inColumnToo : c2 ∈ column) : env.Comparable c1 c2 :=
  ⟨(values c1 inColumn).1.trans (values c2 inColumnToo).1.symm,
    (values c1 inColumn).2, (values c2 inColumnToo).2⟩

variable [LinearOrder D]

theorem agrees_iff (values : ColumnOfValues env type column) :
    Agrees env.compareCells env.CellLe column ↔
      ∀ c1 ∈ column, ∀ c2 ∈ column, env.Discerns c1 c2 := by
  constructor
  · intro agrees c1 inColumn c2 inColumnToo
    have orders := (CellComparison.orders_iff (values.comparable inColumn inColumnToo)).mp
        ⟨agrees c1 inColumn c2 inColumnToo, agrees c2 inColumnToo c1 inColumn⟩
    exact orders.1
  · intro discerns c1 inColumn c2 inColumnToo
    have orders := (CellComparison.orders_iff (values.comparable inColumn inColumnToo)).mpr
        ⟨discerns c1 inColumn c2 inColumnToo, discerns c2 inColumnToo c1 inColumn⟩
    exact orders.1

theorem transitiveOn_cellLe (env : CellComparison D) (column : List (TableCell D)) :
    TransitiveOn env.CellLe column :=
  fun _ _ _ _ _ _ => CellComparison.CellLe.trans

/-- The order of the cells of a column, which may have its own -/
def ColumnLe (env : CellComparison D) (tc : TableCol D) (c1 c2 : TableCell D) : Prop :=
  match tc.sortFn with
  | some sortFn => sortFn c1 c2 ≤ 0
  | none => env.CellLe c1 c2

/-- The order that a mode requests -/
def Requested (env : CellComparison D)
    (tc : TableCol D) : SortMode → TableCell D → TableCell D → Prop
  | .ascending, c1, c2 => ColumnLe env tc c1 c2
  | .descending, c1, c2 => ColumnLe env tc c2 c1

/-- The column's own function, if it has one, is that of an order. -/
def OwnOrder (tc : TableCol D) (column : List (TableCell D)) : Prop :=
  ∀ sortFn, tc.sortFn = some sortFn →
      (∀ c1 ∈ column, ∀ c2 ∈ column, 0 ≤ sortFn c1 c2 ↔ sortFn c2 c1 ≤ 0) ∧
        TransitiveOn (fun c1 c2 => sortFn c1 c2 ≤ 0) column

theorem agrees_compareIn {tc : TableCol D} (own : OwnOrder tc column)
    (agrees : Agrees env.compareCells env.CellLe column) :
    Agrees (env.compareIn tc) (ColumnLe env tc) column ∧ TransitiveOn (ColumnLe env tc) column := by
  unfold CellComparison.compareIn ColumnLe
  cases function : tc.sortFn with
  | some sortFn =>
    obtain ⟨exchanged, transitive⟩ := own sortFn function
    exact ⟨fun c1 inColumn c2 inColumnToo =>
      ⟨_, rfl, Iff.rfl, exchanged c1 inColumn c2 inColumnToo⟩, transitive⟩
  | none => exact ⟨agrees, transitiveOn_cellLe env column⟩

end Columns

namespace Table

variable {env : CellComparison D} {qsort : Qsort Stop} {type : TableCellType} {t : Table D}
  {i : Nat} {tc : TableCol D} {mode : SortMode}

/-- The cells of a column -/
def column (t : Table D) (i : Nat) : List (TableCell D) := t.cells.map (cellAt i)

variable [LinearOrder D]

/--
A sort by a column rearranges the rows, so that the cells of the column are in
the order requested, and changes nothing else but the state of the sort.
-/
def Sorts (env : CellComparison D) (qsort : Qsort Stop) (t : Table D) (i : Nat) (tc : TableCol D)
    (mode : SortMode) : Prop :=
  ∃ cells, let next :=
      { t with nSorting := i, cells := cells, flags := t.flags &&& ~~~tableNeedSort }
    t.sort env qsort = .ok next ∧ next.cells.Perm t.cells ∧
      (next.column i).Pairwise (Requested env tc mode)

theorem sort_of_sorted {cells : List (List (TableCell D))}
    (sorting : sortingColumn 0 t.cols = some (i, tc, mode)) (sorted : qsort.sort (match mode with
          | .ascending => env.tableSortCellsAsc i tc
          | .descending => env.tableSortCellsDsc i tc) t.cells =
        .ok cells) :
    t.sort env qsort =
      .ok { t with nSorting := i, cells := cells, flags := t.flags &&& ~~~tableNeedSort } := by
  simp only [Table.sort, sorting]
  exact congrArg (· >>= _) sorted

theorem sorts_of_agrees (sorting : sortingColumn 0 t.cols = some (i, tc, mode))
    (own : OwnOrder tc (t.column i)) (agrees : Agrees env.compareCells env.CellLe (t.column i)) :
    t.Sorts env qsort i tc mode := by
  obtain ⟨compared, transitive⟩ := agrees_compareIn own agrees
  have parts : ∀ row ∈ t.cells, cellAt i row ∈ t.column i :=
    fun row inTable => List.mem_map_of_mem inTable
  have byRows := compared.comap parts
  have transitiveRows := transitive.comap parts
  cases mode with
  | ascending =>
    obtain ⟨sorted, isSorted, permuted, pairwise⟩ := qsort.sorts _ _ _ byRows transitiveRows
    exact ⟨sorted, sort_of_sorted sorting isSorted, permuted, List.pairwise_map.mpr pairwise⟩
  | descending =>
    obtain ⟨sorted, isSorted, permuted, pairwise⟩ :=
      qsort.sorts _ _ _ byRows.flip transitiveRows.flip
    exact ⟨sorted, sort_of_sorted sorting isSorted, permuted, List.pairwise_map.mpr pairwise⟩

/--
In a column of values of one type, cells are compared as their values are, and
the table is sorted, exactly when all cells of the column are told apart as they
should.
-/
theorem sort_holds_iff (sorting : sortingColumn 0 t.cols = some (i, tc, mode))
    (own : OwnOrder tc (t.column i)) (values : ColumnOfValues env type (t.column i)) :
    (Agrees env.compareCells env.CellLe (t.column i) ∧ TransitiveOn env.CellLe (t.column i) ∧
        t.Sorts env qsort i tc mode) ↔
      ∀ c1 ∈ t.column i, ∀ c2 ∈ t.column i, env.Discerns c1 c2 := by
  rw [← agrees_iff values]
  constructor
  · exact fun holds => holds.1
  · exact fun agrees => ⟨agrees, transitiveOn_cellLe env _, sorts_of_agrees sorting own agrees⟩

/-! ## Two rows -/

def bytesCollation : Collation where
  strcoll s t :=
    if s.map UInt8.toNat < t.map UInt8.toNat then -1
    else if t.map UInt8.toNat < s.map UInt8.toNat then 1
    else 0
  exchanged s t := by
    rcases lt_trichotomy (s.map UInt8.toNat) (t.map UInt8.toNat) with
      below | same | above
    · simp [below, below.not_gt]
    · simp [same]
    · simp [above, above.not_gt]
  transitive s t u := by
    have isLe : ∀ a b : List Nat,
          (if a < b then (-1 : Int) else if b < a then 1 else 0) ≤ 0 ↔ a ≤ b := by
      intro a b
      rcases lt_trichotomy a b with below | same | above
      · simp [below, below.le]
      · simp [same]
      · simp [above, above.not_gt]
    rw [isLe, isLe, isLe]
    exact le_trans

theorem noNul_empty : (0 : UInt8) ∉ [] := List.not_mem_nil

def emptyComparison : CellComparison Int where
  memory := {
    string := fun _ => ⟨[], noNul_empty⟩
    int := fun _ => 0
    long := fun _ => 0
    uint8 := fun _ => 0
    uint16 := fun _ => 0
    float := fun _ => 0
    double := fun _ => 0
    widgetFlags := fun _ => 0
  }
  collation := bytesCollation
  fnTxt _ _ := []
  floatDifference a b := .ok (a - b)
  doubleDifference a b := .ok (a - b)

def uintCell (value : UInt32) : TableCell Int :=
  { (tableInitCell : TableCell Int) with type := .uint, data := .i value, fmt := ascii "%u" }

def flaggedCol (flags : UInt32) : TableCol Int :=
  { newTableCol (D := Int) none none none none with flags := flags }

def twoNumbers (flags first second : UInt32) : Table Int :=
  { (init : Table Int) with
    cols := [flaggedCol flags]
    cells := [[uintCell first], [uintCell second]] }

theorem sort_holds_iff_two : (Agrees emptyComparison.compareCells emptyComparison.CellLe
          ((twoNumbers tableSortDescending 7 1000).column 0) ∧
        TransitiveOn emptyComparison.CellLe ((twoNumbers tableSortDescending 7 1000).column 0) ∧
        (twoNumbers tableSortDescending 7 1000).Sorts emptyComparison
          Qsort.merging 0 (flaggedCol tableSortDescending) .descending) ↔
      ∀ c1 ∈ (twoNumbers tableSortDescending 7 1000).column 0,
        ∀ c2 ∈ (twoNumbers tableSortDescending 7 1000).column 0,
          emptyComparison.Discerns c1 c2 := by
  have values : ColumnOfValues emptyComparison .uint
        ((twoNumbers tableSortDescending 7 1000).column 0) := by
    intro c inColumn
    change c ∈ [uintCell 7, uintCell 1000] at inColumn
    rcases List.mem_pair.mp inColumn with rfl | rfl
    · exact ⟨rfl, rfl⟩
    · exact ⟨rfl, rfl⟩
  exact sort_holds_iff rfl (fun sortFn own => by cases own) values

theorem compareCells_uintCell (a b : UInt32) :
    emptyComparison.compareCells (uintCell a) (uintCell b) =
      differ (CInt.ofBits uintType a.toNat) (CInt.ofBits uintType b.toNat) := by
  rw [@CellComparison.compareCells_eq Int emptyComparison (uintCell a)
    (uintCell b) _ rfl rfl, if_neg fun ids => ids.1 rfl]
  exact rfl

theorem cellLe_uintCell (a b : UInt32) :
    emptyComparison.CellLe (uintCell a) (uintCell b) ↔ a ≤ b := by
  change (CInt.ofBits uintType a.toNat).val ≤ (CInt.ofBits uintType b.toNat).val ↔ a ≤ b
  rw [ofBits_id, ofBits_id, Int.ofNat_le, UInt32.le_iff_toNat_le]

theorem large_number_comes_first : ¬ Agrees emptyComparison.compareCells emptyComparison.CellLe
        ((twoNumbers tableSortAscending 3000000000 0).column 0) ∧
      ¬ (twoNumbers tableSortAscending 3000000000 0).Sorts emptyComparison
          Qsort.merging 0 (flaggedCol tableSortAscending) .ascending := by
  have notLe : ¬ emptyComparison.CellLe (uintCell 3000000000) (uintCell 0) := by
    rw [cellLe_uintCell]
    decide
  have compared : emptyComparison.compareCells (uintCell 3000000000) (uintCell 0) =
        .ok (-1294967296) := by
    rw [compareCells_uintCell]
    decide
  constructor
  · intro agrees
    obtain ⟨sign, sameSign, below, _⟩ :=
      agrees (uintCell 3000000000) (by simp [column, twoNumbers, cellAt])
        (uintCell 0) (by simp [column, twoNumbers, cellAt])
    cases compared.symm.trans sameSign
    exact notLe (below.mp (by decide))
  · rintro ⟨cells, sorted, _, pairwise⟩
    have still : Qsort.merging.sort
            (emptyComparison.tableSortCellsAsc 0 (flaggedCol tableSortAscending))
            (twoNumbers tableSortAscending 3000000000 0).cells =
          .ok (twoNumbers tableSortAscending 3000000000 0).cells :=
      Qsort.sort_merging_pair compared (by decide)
    have sorting : sortingColumn 0 (twoNumbers tableSortAscending 3000000000 0).cols =
          some (0, flaggedCol tableSortAscending, .ascending) :=
      rfl
    have same := sort_of_sorted sorting still
    have sameCells := congrArg Table.cells (Except.ok.inj (same.symm.trans sorted))
    change [_, _] = cells at sameCells
    subst sameCells
    exact notLe (List.rel_of_pairwise_cons pairwise List.mem_cons_self)

end Table

end Agar.Gui
