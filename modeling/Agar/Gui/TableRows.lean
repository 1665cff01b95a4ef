import Agar.Gui.Table

namespace Agar.Gui

open Agar.Lib
open Agar.Core

/-!
# Rows of tables

`AG_TableAddRow` makes the cells of a row from a format, whose fields are
separated by characters of the table, and from its variable arguments.  Here
the allocations are granted.
-/

variable {D : Type}

/-! ## Variable arguments -/

/-- A variable argument, by what `va_arg` may read it as -/
inductive VaArg (D : Type) where
  /-- An `int` or an unsigned one -/
  | int (value : UInt32)
  /-- A `long` or a `long long`, signed or not -/
  | long (value : UInt64)
  | double (value : D)
  | pointer (address : Nat)
  deriving Repr, DecidableEq

/-- The value of an `int` -/
def VaArg.int? : VaArg D → Option UInt32
  | .int value => some value
  | _ => none

/-- The value of a `long` -/
def VaArg.long? : VaArg D → Option UInt64
  | .long value => some value
  | _ => none

/-- The value of a `double` -/
def VaArg.double? : VaArg D → Option D
  | .double value => some value
  | _ => none

/-- The address of a pointer -/
def VaArg.pointer? : VaArg D → Option Nat
  | .pointer address => some address
  | _ => none

/-- `va_arg`: the value of the next argument, and the arguments behind it -/
def vaArg {α : Type} (read : VaArg D → Option α) : List (VaArg D) → Except Stop (α × List (VaArg D))
  | [] => .error .undefined
  | arg :: ap =>
    match read arg with
    | none => .error .undefined
    | some value => .ok (value, ap)

/-! ## Fields -/

/-- `AG_Strsep` with a set of delimiters -/
def strsepAmong (delim s : List UInt8) : List UInt8 × Option (List UInt8) :=
  (s.takeWhile (· ∉ delim), (s.dropWhile (· ∉ delim)).tail?)

/-- What the loop over a field keeps -/
structure FieldScan where
  ptr : Nat
  lflag : Nat
  ptrLong : Nat
  infmt : Bool
  deriving Repr, DecidableEq

/-- The loop over a field, and what `sc` points to at its end -/
def scanField (scan : FieldScan) : List UInt8 → FieldScan × List UInt8
  | [] => (scan, [])
  | c :: sc =>
    if c ∈ ascii "%" then scanField { scan with infmt := true } sc
    else if c ∈ ascii "*" ∧ sc ≠ [] then scanField { scan with ptr := scan.ptr + 1 } sc
    else if c ∈ ascii "[" ∧ sc ≠ [] then ({ scan with ptrLong := scan.ptrLong + 1 }, c :: sc)
    else if c ∈ ascii "l" then scanField { scan with lflag := scan.lflag + 1 } sc
    else if scan.infmt ∧ c ∈ ascii "sdiufgp]" then (scan, c :: sc)
    else if c ∈ ascii ".0123456789" then scanField scan sc
    else scanField { scan with infmt := false } sc

/-- The byte at an index of a string, or its terminator -/
def byteAt (s : List UInt8) (i : Nat) : UInt8 := s.getD i 0

/-- `AG_WIDGET_TABLE_EMBEDDABLE` -/
def widgetTableEmbeddable : UInt32 := 0x080000

/--
What is done for an extended specifier: `s` is the field, `sc` is behind the
bracket, and `p` was read.  Nothing is left where the widget is refused.
-/
def extendedSpecifier (memory : CellMemory D) (row n : Nat) (s sc : List UInt8) (p : Nat)
    (c : TableCell D) : Option (TableCell D) :=
  if byteAt sc 0 ∈ ascii "s" then
    if byteAt sc 1 ∈ ascii "3" ∧ byteAt sc 2 ∈ ascii "2" then some { c with type := .psint32 }
    else if byteAt s 1 ∈ ascii "1" ∧ byteAt sc 2 ∈ ascii "6" then some { c with type := .psint16 }
    else if byteAt s 1 ∈ ascii "8" then some { c with type := .psint8 }
    else some c
  else if byteAt sc 0 ∈ ascii "u" then
    if byteAt sc 1 ∈ ascii "3" ∧ byteAt sc 2 ∈ ascii "2" then some { c with type := .puint32 }
    else if byteAt s 1 ∈ ascii "1" ∧ byteAt sc 2 ∈ ascii "6" then some { c with type := .puint16 }
    else if byteAt s 1 ∈ ascii "8" then some { c with type := .puint8 }
    else some c
  else if byteAt sc 0 ∈ ascii "F" ∧ byteAt sc 1 ∈ ascii "t" then
    some { c with type := .fnTxt, fnTxt := p, data := .p (.cell row n) }
  else if byteAt sc 0 ∈ ascii "F" ∧ byteAt sc 1 ∈ ascii "s" then
    some { c with type := .fnSu, fnSu := p, data := .p (.cell row n) }
  else if byteAt sc 0 ∈ ascii "F" ∧ byteAt sc 1 ∈ ascii "S" then
    some { c with type := .fnSuNodup, fnSu := p, data := .p (.cell row n) }
  else if byteAt sc 0 ∈ ascii "W" then
    if memory.widgetFlags p &&& widgetTableEmbeddable = 0 then none
    else some { c with type := .widget, widget := p }
  else some c

/--
A case of the switch on a conversion: with a `*` the cell keeps its pointer, and
without one the value is read.
-/
def fetchValue {α : Type} (ptr : Nat) (pointerType valueType : TableCellType)
    (read : VaArg D → Option α) (stored : α → CellData D) (c : TableCell D)
    (ap : List (VaArg D)) : Except Stop (TableCell D × List (VaArg D)) :=
  if ptr ≠ 0 then .ok ({ c with type := pointerType }, ap)
  else do
    let (value, ap) ← vaArg read ap
    return ({ c with type := valueType, data := stored value }, ap)

/-- The switch on the conversion that a field ends with -/
def readConversion (memory : CellMemory D) (scan : FieldScan) (letter : UInt8) (c : TableCell D)
    (ap : List (VaArg D)) : Except Stop (TableCell D × List (VaArg D)) :=
  if letter ∈ ascii "s" then
    fetchValue scan.ptr .pstring .string VaArg.pointer? (fun p => .s
        (CString.strlcpy (memory.string p).val : CString tableTxtMax).bytes)
      c ap
  else if letter ∈ ascii "di" then
    if scan.lflag = 0 then fetchValue scan.ptr .pint .int VaArg.int? .i c ap
    else if scan.lflag = 2 then fetchValue scan.ptr .pint64 .int64 VaArg.long? .l c ap
    else fetchValue scan.ptr .plong .long VaArg.long? .l c ap
  else if letter ∈ ascii "u" then
    if scan.lflag = 0 then fetchValue scan.ptr .puint .uint VaArg.int? .i c ap
    else if scan.lflag = 2 then fetchValue scan.ptr .puint64 .uint64 VaArg.long? .l c ap
    else fetchValue scan.ptr .pulong .ulong VaArg.long? .l c ap
  else if letter ∈ ascii "fg" then
    if scan.lflag ≠ 0 then fetchValue scan.ptr .pfloat .float VaArg.double? .f c ap
    else fetchValue scan.ptr .pdouble .double VaArg.double? .f c ap
  else if letter ∈ ascii "p" then do
    let (p, ap) ← vaArg VaArg.pointer? ap
    return ({ c with type := .pointer, data := .p (.user p) }, ap)
  else .ok (c, ap)

/-- The cell of a field, and the arguments behind those that were read -/
structure FieldResult (D : Type) where
  cell : TableCell D
  ap : List (VaArg D)
  /-- The operation goes on -/
  accepted : Bool
  deriving Repr, DecidableEq

/-- What the loop of `AG_TableAddRow` does with the field of a column -/
def readField (memory : CellMemory D) (row n : Nat) (s : List UInt8)
    (ap : List (VaArg D)) : Except Stop (FieldResult D) :=
  let c : TableCell D :=
    { tableInitCell with fmt := (CString.strlcpy s : CString tableFmtMax).bytes }
  let (scan, sc) := scanField ⟨0, 0, 0, false⟩ s
  if sc = [] ∨ ¬ scan.infmt then .ok ⟨c, ap, true⟩
  else if scan.ptr ≠ 0 then do
    let (p, ap) ← vaArg VaArg.pointer? ap
    let (c, ap) ← readConversion memory scan (byteAt sc 0) { c with data := .p (.user p) } ap
    return ⟨c, ap, true⟩
  else if scan.ptrLong ≠ 0 then do
    let (p, ap) ← vaArg VaArg.pointer? ap
    let c := { c with data := .p (.user p) }
    match extendedSpecifier memory row n s sc.tail p c with
    | none => return ⟨{ c with type := .widget, widget := p }, ap, false⟩
    | some c => do
        let (c, ap) ← readConversion memory scan (byteAt sc.tail 0) c ap
        return ⟨c, ap, true⟩
  else do
    let (c, ap) ← readConversion memory scan (byteAt sc 0) c ap
    return ⟨c, ap, true⟩

/-- The cells that a row has got, and the arguments that are left -/
structure RowResult (D : Type) where
  cells : List (TableCell D)
  ap : List (VaArg D)
  /-- No field was refused -/
  complete : Bool
  deriving Repr, DecidableEq

/--
The loop of `AG_TableAddRow`, from a column on, over as many columns as are
left; `sp` is what `AG_Strsep` goes on with
-/
def readRow (memory : CellMemory D) (sep : List UInt8) (row : Nat) :
    Nat → Nat → Option (List UInt8) → List (VaArg D) → Except Stop (RowResult D)
  | _, 0, _, ap => .ok ⟨[], ap, true⟩
  | _, _ + 1, none, _ =>
    -- the null pointer that `AG_Strsep` returns is read
    .error .undefined
  | n, left + 1, some sp, ap => do
      let (s, sp) := strsepAmong sep sp
      let field ← readField memory row n s ap
      if field.accepted then do
        let rest ← readRow memory sep row (n + 1) left sp field.ap
        return { rest with cells := field.cell :: rest.cells }
      else return ⟨[field.cell], field.ap, false⟩

/-- `sizeof(fmt)` in `AG_TableAddRow` -/
def rowFormatMax : Nat := 64

instance : NeZero rowFormatMax := ⟨by decide⟩

/-- The widgets in the cells of a row, without the one that was refused -/
def RowResult.attached (result : RowResult D) : List Nat :=
  let cells :=
    if result.complete then result.cells else result.cells.dropLast
  (cells.filter fun c => c.type = .widget).map TableCell.widget

/-- The table to which some widgets were attached -/
def Table.attachWidgets (widgets : List Nat) (t : Table D) : Table D :=
  { t with
    flags := if widgets = [] then t.flags else t.flags ||| tableWidgets
    attached := t.attached ++ widgets }

/-- The table with another row -/
def Table.storeRow (cells : List (TableCell D)) (t : Table D) : Table D :=
  { t with cells := t.cells ++ [cells], flags := t.flags ||| tableNeedSort }

/--
`AG_TableAddRow`, whose cells are at the address `row`: the number of the new
row, unless a widget is refused, and the arguments that were not read
-/
def Table.addRow (memory : CellMemory D) (row : Nat) (fmtp : List UInt8) (ap : List (VaArg D))
    (t : Table D) : Except Stop (Option Nat × Table D × List (VaArg D)) := do
  let fmt : CString rowFormatMax := .strlcpy fmtp
  let result ← readRow memory t.sep row 0 t.cols.length (some fmt.bytes) ap
  let t := t.attachWidgets result.attached
  if result.complete then return (some t.cells.length, t.storeRow result.cells, result.ap)
  else return (none, t, result.ap)

/-! ## What is documented -/

/-- The characters that modify the precision of a number -/
abbrev Modifiers := { modifiers : List UInt8 // ∀ c ∈ modifiers, c ∈ ascii ".0123456789" }

/-- The widths of the integers of an extended specifier -/
inductive ExtendedWidth where
  | w8
  | w16
  | w32
  deriving Repr, DecidableEq

/-- The specifiers of the manual of `AG_Table` -/
inductive TableSpecifier where
  /-- `%s` -/
  | s
  /-- `%i` and `%d` -/
  | i
  | d
  /-- `%li` and `%ld` -/
  | li
  | ld
  /-- `%lli` and `%lld` -/
  | lli
  | lld
  /-- `%u`, `%lu` and `%llu` -/
  | u
  | lu
  | llu
  /-- `%[s8]`, `%[s16]` and `%[s32]` -/
  | extendedS (width : ExtendedWidth)
  /-- `%[u8]`, `%[u16]` and `%[u32]` -/
  | extendedU (width : ExtendedWidth)
  /-- `%f` and `%g`, with a precision -/
  | f (modifiers : Modifiers)
  | g (modifiers : Modifiers)
  /-- `%p` -/
  | p
  /-- `%[Ft]`, `%[Fs]` and `%[FS]` -/
  | Ft
  | Fs
  | FS
  /-- `%[W]` -/
  | W
  deriving DecidableEq

namespace TableSpecifier

/-- The text of a specifier -/
def text : TableSpecifier → List UInt8
  | s => ascii "%s"
  | i => ascii "%i"
  | d => ascii "%d"
  | li => ascii "%li"
  | ld => ascii "%ld"
  | lli => ascii "%lli"
  | lld => ascii "%lld"
  | u => ascii "%u"
  | lu => ascii "%lu"
  | llu => ascii "%llu"
  | extendedS .w8 => ascii "%[s8]"
  | extendedS .w16 => ascii "%[s16]"
  | extendedS .w32 => ascii "%[s32]"
  | extendedU .w8 => ascii "%[u8]"
  | extendedU .w16 => ascii "%[u16]"
  | extendedU .w32 => ascii "%[u32]"
  | f modifiers => ascii "%" ++ modifiers.val ++ ascii "f"
  | g modifiers => ascii "%" ++ modifiers.val ++ ascii "g"
  | p => ascii "%p"
  | Ft => ascii "%[Ft]"
  | Fs => ascii "%[Fs]"
  | FS => ascii "%[FS]"
  | W => ascii "%[W]"

/-- An argument is of the type that a specifier is documented for. -/
def Takes : TableSpecifier → VaArg D → Prop
  | i, arg | d, arg | u, arg => arg.int?.isSome
  | li, arg | ld, arg | lli, arg | lld, arg | lu, arg | llu, arg => arg.long?.isSome
  | f _, arg | g _, arg => arg.double?.isSome
  | s, arg | extendedS _, arg | extendedU _, arg | p, arg
  | Ft, arg | Fs, arg | FS, arg | W, arg => arg.pointer?.isSome

/-- The type of the cell of a specifier -/
def cellType : TableSpecifier → TableCellType
  | s => .string
  | i | d => .int
  | li | ld => .long
  | lli | lld => .int64
  | u => .uint
  | lu => .ulong
  | llu => .uint64
  | extendedS .w8 => .psint8
  | extendedS .w16 => .psint16
  | extendedS .w32 => .psint32
  | extendedU .w8 => .puint8
  | extendedU .w16 => .puint16
  | extendedU .w32 => .puint32
  | f _ | g _ => .double
  | p => .pointer
  | Ft => .fnTxt
  | Fs => .fnSu
  | FS => .fnSuNodup
  | W => .widget

/-- A cell holds the argument of a specifier. -/
def Holds (memory : CellMemory D) : TableSpecifier → VaArg D → TableCell D → Prop
  | s, .pointer address, c => c.data = .s (memory.string address).val
  | i, .int value, c | d, .int value, c | u, .int value, c => c.data = .i value
  | li, .long value, c | ld, .long value, c | lli, .long value, c
  | lld, .long value, c | lu, .long value, c | llu, .long value, c => c.data = .l value
  | f _, .double value, c | g _, .double value, c => c.data = .f value
  | extendedS _, .pointer address, c | extendedU _, .pointer address, c
  | p, .pointer address, c => c.data = .p (.user address)
  | Ft, .pointer address, c => c.fnTxt = address
  | Fs, .pointer address, c | FS, .pointer address, c => c.fnSu = address
  | W, .pointer address, c => c.widget = address
  | _, _, _ => False

end TableSpecifier

/-- A field of a format, with its argument -/
structure TableField (D : Type) where
  specifier : TableSpecifier
  arg : VaArg D
  takes : specifier.Takes arg

namespace TableField

/-- A cell of the documented type that holds the argument -/
def Documents (memory : CellMemory D) (field : TableField D) (c : TableCell D) : Prop :=
  c.type = field.specifier.cellType ∧ field.specifier.Holds memory field.arg c

/--
A field whose cell can hold its argument: a text is shorter than the cell, a
widget may be embedded, and the specifier is none for integers in brackets.
-/
def Readable (memory : CellMemory D) (field : TableField D) : Prop :=
  match field.specifier, field.arg with
  | .s, .pointer address => (memory.string address).val.length < tableTxtMax
  | .extendedS _, _ | .extendedU _, _ => False
  | .W, .pointer address => memory.widgetFlags address &&& widgetTableEmbeddable ≠ 0
  | _, _ => True

/-- The format of some fields -/
def format (fields : List (TableField D)) : List UInt8 :=
  joined (fields.map fun field => field.specifier.text)

/-- The arguments of some fields -/
def args (fields : List (TableField D)) : List (VaArg D) := fields.map arg

end TableField

/-! ## Fields that are read -/

namespace TableSpecifier

/-- The specifiers in brackets -/
def bracketed : TableSpecifier → Bool
  | extendedS _ | extendedU _ | Ft | Fs | FS | W => true
  | _ => false

/-- What is between the percent sign and the letter of a specifier -/
def modifiers : TableSpecifier → List UInt8
  | li | ld | lu => ascii "l"
  | lli | lld | llu => ascii "ll"
  | f modifiers | g modifiers => modifiers.val
  | _ => []

/-- The letter of a specifier without brackets -/
def letter : TableSpecifier → UInt8
  | i | li | lli => 105
  | d | ld | lld => 100
  | u | lu | llu => 117
  | f _ => 102
  | g _ => 103
  | p => 112
  | _ => 115

theorem text_eq {specifier : TableSpecifier} (plain : specifier.bracketed = false) :
    specifier.text = ascii "%" ++ (specifier.modifiers ++ [specifier.letter]) := by
  cases specifier with
  | f modifiers | g modifiers => exact List.append_assoc ..
  | extendedS | extendedU | Ft | Fs | FS | W => cases plain
  | _ => rfl

theorem mem_modifiers (specifier : TableSpecifier) :
    ∀ c ∈ specifier.modifiers, c ∈ ascii "l.0123456789" := by
  have long : (108 : UInt8) ∈ ascii "l.0123456789" := by decide
  intro c member
  cases specifier with
  | f modifiers | g modifiers => exact List.mem_cons_of_mem _ (modifiers.property c member)
  | li | ld | lu => exact List.mem_singleton.mp member ▸ long
  | lli | lld | llu => exact List.eq_of_mem_replicate (n := 2) member ▸ long
  | _ => cases member

end TableSpecifier

theorem modifier_noSpecial : ∀ c ∈ ascii "l.0123456789",
      c ∉ ascii "%" ∧ c ∉ ascii "*" ∧ c ∉ ascii "[" ∧ c ∉ ascii "sdiufgp]" := by
  decide +kernel

theorem scanField_modifiers {modifiers : List UInt8}
    (known : ∀ c ∈ modifiers, c ∈ ascii "l.0123456789") (scan : FieldScan)
    (inside : scan.infmt = true) (rest : List UInt8) :
    scanField scan (modifiers ++ rest) =
      scanField { scan with lflag := scan.lflag + modifiers.count 108 }
        rest := by
  induction modifiers generalizing scan with
  | nil => rfl
  | cons c modifiers ih =>
    obtain ⟨isModifier, behind⟩ := List.forall_mem_cons.mp known
    obtain ⟨percent, star, bracket, letter⟩ := modifier_noSpecial c isModifier
    rw [List.cons_append, scanField, if_neg percent, if_neg (star ·.1), if_neg (bracket ·.1)]
    by_cases long : c ∈ ascii "l"
    · have isL : c = 108 := List.mem_singleton.mp long
      rw [if_pos long, ih behind { scan with lflag := scan.lflag + 1 } inside,
        isL, List.count_cons_self, Nat.add_assoc, Nat.add_comm 1]
    · have digit : c ∈ ascii ".0123456789" :=
        (List.mem_cons.mp isModifier).resolve_left fun same => long (List.mem_singleton.mpr same)
      have noLong : c ≠ 108 := fun same => long (List.mem_singleton.mpr same)
      rw [if_neg long, if_neg (letter ·.2), if_pos digit,
        ih behind scan inside, List.count_cons_of_ne noLong]

section Fields

variable (memory : CellMemory D) (row n : Nat) (ap : List (VaArg D))

variable {s : List UInt8}

theorem readField_without_conversion (ends : (scanField ⟨0, 0, 0, false⟩ s).2 = []) :
    ∃ c : TableCell D, readField memory row n s ap = .ok ⟨c, ap, true⟩ ∧ c.type = .null := by
  refine ⟨{ tableInitCell with fmt := (CString.strlcpy s : CString tableFmtMax).bytes }, ?_, rfl⟩
  rw [readField]
  exact if_pos (.inl ends)

theorem readField_cut (field : TableField D) (plain : field.specifier.bracketed = false) {k : Nat}
    (cut : k < field.specifier.text.length) :
    ∃ c : TableCell D, readField memory row n (field.specifier.text.take k) ap =
        .ok ⟨c, ap, true⟩ ∧ c.type = .null := by
  apply readField_without_conversion
  rw [TableSpecifier.text_eq plain] at cut ⊢
  cases k with
  | zero => rfl
  | succ k =>
    have short : k ≤ field.specifier.modifiers.length := by simpa [ascii] using cut
    have known : ∀ c ∈ field.specifier.modifiers.take k, c ∈ ascii "l.0123456789" :=
      fun c member => field.specifier.mem_modifiers c (List.mem_of_mem_take member)
    have scanned := scanField_modifiers known ⟨0, 0, 0, true⟩ rfl []
    rw [List.append_nil] at scanned
    rw [show ascii "%" = [37] from rfl, List.singleton_append,
      List.take_succ_cons, List.take_append_of_le_length short]
    exact congrArg Prod.snd scanned

variable {letter : UInt8}

theorem readField_real (modifiers : Modifiers) (isReal : letter = 102 ∨ letter = 103) (value : D) :
    ∃ c : TableCell D, readField memory row n (ascii "%" ++ modifiers.val ++ [letter])
          (.double value :: ap) =
        .ok ⟨c, ap, true⟩ ∧ c.type = .double ∧ c.data = .f value := by
  have known : ∀ c ∈ modifiers.val, c ∈ ascii "l.0123456789" :=
    fun c member => List.mem_cons_of_mem _ (modifiers.property c member)
  have noLength : modifiers.val.count 108 = 0 := by
    refine List.count_eq_zero.mpr fun member => ?_
    have digit := modifiers.property 108 member
    revert digit
    decide
  have ends : scanField ⟨0, 0, 0, true⟩ [letter] = (⟨0, 0, 0, true⟩, [letter]) := by
    rcases isReal with rfl | rfl <;> rfl
  have scanned : scanField ⟨0, 0, 0, false⟩ (ascii "%" ++ modifiers.val ++ [letter]) =
        (⟨0, 0, 0, true⟩, [letter]) := by
    rw [List.append_assoc]
    refine (scanField_modifiers known ⟨0, 0, 0, true⟩ rfl [letter]).trans ?_
    rw [noLength]
    exact ends
  rw [readField, scanned]
  rcases isReal with rfl | rfl <;> exact ⟨_, rfl, rfl, rfl⟩

theorem type_of_fetchValue {α : Type} {pointerType valueType : TableCellType}
    {read : VaArg D → Option α} {stored : α → CellData D} {c next : TableCell D}
    {ap left : List (VaArg D)}
    (fetched : fetchValue 0 pointerType valueType read stored c ap = .ok (next, left)) :
    next.type = valueType := by
  rw [fetchValue, if_neg (by simp), bind_eq_ok] at fetched
  obtain ⟨value, _, stores⟩ := fetched
  cases stores
  rfl

theorem extendedSpecifier_integer (isExtended : letter = 115 ∨ letter = 117)
    (s behind : List UInt8) (p : Nat) (c : TableCell D) :
    ∃ next, extendedSpecifier memory row n s (letter :: behind) p c = some next := by
  have first : byteAt (letter :: behind) 0 = letter := rfl
  rw [extendedSpecifier, first]
  rcases isExtended with rfl | rfl
  · rw [if_pos (by decide)]
    split_ifs <;> exact ⟨_, rfl⟩
  · rw [if_neg (by decide), if_pos (by decide)]
    split_ifs <;> exact ⟨_, rfl⟩

theorem type_of_readConversion (isExtended : letter = 115 ∨ letter = 117) {scan : FieldScan}
    (noPointer : scan.ptr = 0) (noLength : scan.lflag = 0) {c next : TableCell D}
    {left : List (VaArg D)}
    (converted : readConversion memory scan letter c ap = .ok (next, left)) :
    next.type = .string ∨ next.type = .uint := by
  rw [readConversion, noPointer, noLength] at converted
  rcases isExtended with rfl | rfl
  · rw [if_pos (by decide)] at converted
    exact .inl (type_of_fetchValue converted)
  · rw [if_neg (by decide), if_neg (by decide), if_pos (by decide), if_pos rfl] at converted
    exact .inr (type_of_fetchValue converted)

theorem type_of_readField_extended (isExtended : letter = 115 ∨ letter = 117)
    (behind : List UInt8) {result : FieldResult D}
    (read : readField memory row n (37 :: 91 :: letter :: behind) ap = .ok result) :
    result.cell.type = .string ∨ result.cell.type = .uint := by
  have scanned : scanField ⟨0, 0, 0, false⟩ (37 :: 91 :: letter :: behind) =
        (⟨0, 0, 1, true⟩, 91 :: letter :: behind) :=
    rfl
  rw [readField, scanned] at read
  dsimp only at read
  rw [if_neg (by simp), if_neg (by simp), if_pos (by simp), bind_eq_ok] at read
  obtain ⟨⟨p, ap⟩, _, read⟩ := read
  dsimp only [List.tail_cons] at read
  obtain ⟨c, accepted⟩ :=
    extendedSpecifier_integer memory row n isExtended (37 :: 91 :: letter :: behind) behind p
      { (tableInitCell : TableCell D) with
        fmt := (CString.strlcpy (37 :: 91 :: letter :: behind) : CString tableFmtMax).bytes
        data := .p (.user p) }
  rw [accepted] at read
  obtain ⟨⟨c, left⟩, converted, stored⟩ := bind_eq_ok.mp read
  cases stored
  exact type_of_readConversion memory ap isExtended rfl rfl converted

/-- A specifier in brackets is read without its closing bracket as well. -/
def TableSpecifier.Whole (specifier : TableSpecifier) (k : Nat) : Prop :=
  specifier.text.length ≤ k ∨ specifier.bracketed = true ∧ specifier.text.length = k + 1

theorem strlcpy_bytes_eq_iff {size : Nat} [NeZero size] (text : PolledString) :
    (CString.strlcpy text.val : CString size).bytes = text.val ↔ text.val.length < size := by
  constructor
  · intro same
    rw [← same]
    exact CString.fits _
  · exact CString.strlcpy_bytes_of_fits text.property

variable {specifier : TableSpecifier}

theorem TableSpecifier.Whole.take_text {k : Nat} (whole : specifier.Whole k) :
    specifier.text.take k = specifier.text ∨ specifier.bracketed = true ∧
        specifier.text.take k = specifier.text.dropLast := by
  rcases whole with uncut | ⟨brackets, closing⟩
  · exact .inl (List.take_of_length_le uncut)
  · refine .inr ⟨brackets, ?_⟩
    rw [List.dropLast_eq_take, closing, Nat.add_sub_cancel]

theorem readField_function (isFunction : specifier = .Ft ∨ specifier = .Fs ∨ specifier = .FS)
    (whole : s = specifier.text ∨ s = specifier.text.dropLast) (address : Nat) :
    ∃ c : TableCell D, readField memory row n s (.pointer address :: ap) = .ok ⟨c, ap, true⟩ ∧
        c.type = specifier.cellType ∧ specifier.Holds memory (.pointer address) c := by
  rcases isFunction with rfl | rfl | rfl <;>
    rcases whole with rfl | rfl <;>
      exact ⟨_, rfl, rfl, rfl⟩

theorem readField_widget (whole : s = TableSpecifier.W.text ∨ s = TableSpecifier.W.text.dropLast)
    (address : Nat) :
    ∃ c : TableCell D, readField memory row n s (.pointer address :: ap) = .ok ⟨c, ap,
            memory.widgetFlags address &&& widgetTableEmbeddable ≠ 0⟩ ∧
        c.type = .widget ∧ c.widget = address := by
  have accepts : ∀ c : TableCell D, extendedSpecifier memory row n s s.tail.tail address c =
          if memory.widgetFlags address &&& widgetTableEmbeddable = 0 then none
          else
            some { c with type := .widget, widget := address } := by
    intro c
    rcases whole with rfl | rfl <;> rfl
  have scanned : scanField ⟨0, 0, 0, false⟩ s = (⟨0, 0, 1, true⟩, s.tail) := by
    rcases whole with rfl | rfl <;> rfl
  have isW : byteAt s.tail.tail 0 = 87 ∧ s.tail ≠ [] := by rcases whole with rfl | rfl <;> decide
  rw [readField, scanned]
  dsimp only
  rw [if_neg (by simpa using isW.2), if_neg (by simp), if_pos (by simp),
    vaArg, VaArg.pointer?, ok_bind, accepts, isW.1]
  by_cases refused : memory.widgetFlags address &&& widgetTableEmbeddable = 0
  · rw [if_pos refused, decide_eq_false (not_not.mpr refused)]
    exact ⟨_, rfl, rfl, rfl⟩
  · rw [if_neg refused, decide_eq_true refused]
    exact ⟨_, rfl, rfl, rfl⟩

theorem readField_whole (field : TableField D) {k : Nat} (whole : field.specifier.Whole k)
    (noInteger : ∀ width, field.specifier ≠ .extendedS width ∧ field.specifier ≠ .extendedU width) :
    ∃ (c : TableCell D) (accepted : Bool),
      readField memory row n (field.specifier.text.take k) (field.arg :: ap) =
          .ok ⟨c, ap, accepted⟩ ∧
        (accepted = true ∧ field.Documents memory c ↔ field.Readable memory) := by
  obtain ⟨specifier, arg, takes⟩ := field
  dsimp only at whole noInteger ⊢
  have part := whole.take_text
  cases specifier with
  | extendedS width => exact absurd rfl (noInteger width).1
  | extendedU width => exact absurd rfl (noInteger width).2
  | Ft | Fs | FS =>
    cases arg with
    | pointer address =>
      obtain ⟨c, read, typed, held⟩ :=
        readField_function memory row n ap (by simp) (part.imp_right And.right) address
      exact ⟨c, true, read, iff_of_true ⟨rfl, typed, held⟩ trivial⟩
    | _ => cases takes
  | W =>
    cases arg with
    | pointer address =>
      obtain ⟨c, read, typed, held⟩ :=
        readField_widget memory row n ap (part.imp_right And.right) address
      refine ⟨c, _, read, ?_⟩
      rw [decide_eq_true_iff]
      exact and_iff_left ⟨typed, held⟩
    | _ => cases takes
  | f modifiers =>
    rw [part.resolve_right fun cut => Bool.false_ne_true cut.1]
    cases arg with
    | double value =>
      obtain ⟨c, read, isDouble, held⟩ := readField_real memory row n ap modifiers (.inl rfl) value
      exact ⟨c, true, read, iff_of_true ⟨rfl, isDouble, held⟩ trivial⟩
    | _ => cases takes
  | g modifiers =>
    rw [part.resolve_right fun cut => Bool.false_ne_true cut.1]
    cases arg with
    | double value =>
      obtain ⟨c, read, isDouble, held⟩ := readField_real memory row n ap modifiers (.inr rfl) value
      exact ⟨c, true, read, iff_of_true ⟨rfl, isDouble, held⟩ trivial⟩
    | _ => cases takes
  | s =>
    rw [part.resolve_right fun cut => Bool.false_ne_true cut.1]
    cases arg with
    | pointer address =>
      refine ⟨_, true, rfl, ?_⟩
      refine (and_iff_right rfl).trans ((and_iff_right rfl).trans ?_)
      exact (CellData.s.injEq ..).to_iff.trans (strlcpy_bytes_eq_iff (memory.string address))
    | _ => cases takes
  | i | d | u | li | ld | lu | lli | lld | llu | p =>
    rw [part.resolve_right fun cut => Bool.false_ne_true cut.1]
    cases arg with
    | int value | long value | pointer value =>
      first
        | exact ⟨_, true, rfl, iff_of_true ⟨rfl, rfl, rfl⟩ trivial⟩
        | cases takes
    | double value => cases takes

theorem type_of_readField_function {result : FieldResult D}
    (read : readField memory row n (ascii "%[F") ap = .ok result) : result.cell.type = .null := by
  have scanned : scanField ⟨0, 0, 0, false⟩ (ascii "%[F") = (⟨0, 0, 1, true⟩, ascii "[F") := rfl
  rw [readField, scanned] at read
  dsimp only at read
  rw [if_neg (by decide), if_neg (by simp), if_pos (by simp), bind_eq_ok] at read
  obtain ⟨⟨p, ap⟩, _, read⟩ := read
  cases read
  rfl

theorem TableSpecifier.text_bracketed (brackets : specifier.bracketed = true) :
    ∃ behind, specifier.text = 37 :: 91 :: behind := by
  cases specifier with
  | extendedS width | extendedU width => cases width <;> exact ⟨_, rfl⟩
  | Ft | Fs | FS | W => exact ⟨_, rfl⟩
  | _ => cases brackets

theorem TableSpecifier.cellType_ne_null (specifier : TableSpecifier) :
    specifier.cellType ≠ .null := by
  cases specifier with
  | extendedS width | extendedU width => cases width <;> decide
  | _ => exact TableCellType.noConfusion

theorem type_of_readField_start (brackets : specifier.bracketed = true) {k : Nat} (start : k < 3)
    {result : FieldResult D}
    (read : readField memory row n (specifier.text.take k) ap = .ok result) :
    result.cell.type = .null := by
  obtain ⟨behind, text⟩ := TableSpecifier.text_bracketed brackets
  rw [text] at read
  interval_cases k <;>
  · cases read
    rfl

theorem type_of_readField_integer
    (isInteger : ∃ width, specifier = .extendedS width ∨ specifier = .extendedU width) {k : Nat}
    {result : FieldResult D}
    (read : readField memory row n (specifier.text.take k) ap = .ok result) :
    result.cell.type ≠ specifier.cellType := by
  by_cases start : k < 3
  · have brackets : specifier.bracketed = true := by
      obtain ⟨width, rfl | rfl⟩ := isInteger <;> rfl
    rw [type_of_readField_start memory row n ap brackets start read]
    exact specifier.cellType_ne_null.symm
  · obtain ⟨k, rfl⟩ := Nat.exists_eq_add_of_le' (Nat.le_of_not_lt start)
    obtain ⟨width, rfl | rfl⟩ := isInteger
    · cases width <;>
        rcases type_of_readField_extended memory row n ap (.inl rfl) _ read with typed | typed <;>
        · rw [typed]
          decide
    · cases width <;>
        rcases type_of_readField_extended memory row n ap (.inr rfl) _ read with typed | typed <;>
        · rw [typed]
          decide

theorem type_of_readField_cut {field : TableField D} {k : Nat} (cut : ¬ field.specifier.Whole k)
    {result : FieldResult D}
    (read : readField memory row n (field.specifier.text.take k) ap = .ok result) :
    result.cell.type ≠ field.specifier.cellType := by
  obtain ⟨uncut, unclosed⟩ := not_or.mp cut
  by_cases isInteger : ∃ width,
        field.specifier = .extendedS width ∨ field.specifier = .extendedU width
  · exact type_of_readField_integer memory row n ap isInteger read
  · suffices isNull : result.cell.type = .null by
      rw [isNull]
      exact field.specifier.cellType_ne_null.symm
    by_cases brackets : field.specifier.bracketed = true
    · by_cases start : k < 3
      · exact type_of_readField_start memory row n ap brackets start read
      · have unclosed := fun length => unclosed ⟨brackets, length⟩
        cases named : field.specifier with
        | extendedS width => exact absurd ⟨width, .inl named⟩ isInteger
        | extendedU width => exact absurd ⟨width, .inr named⟩ isInteger
        | Ft | Fs | FS =>
          rw [named] at uncut unclosed read
          have three : k = 3 := by
            have long : ¬ 5 ≤ k := uncut
            have closed : ¬ 5 = k + 1 := unclosed
            omega
          rw [three] at read
          exact type_of_readField_function memory row n ap read
        | W =>
          rw [named] at uncut unclosed
          have long : ¬ 4 ≤ k := uncut
          have closed : ¬ 4 = k + 1 := unclosed
          omega
        | _ =>
          rw [named] at brackets
          cases brackets
    · obtain ⟨c, emptied, isNull⟩ :=
        readField_cut memory row n ap field (Bool.eq_false_iff.mpr brackets)
          (Nat.lt_of_not_le uncut)
      rw [emptied] at read
      cases read
      exact isNull

theorem readField_documents {field : TableField D} {k : Nat} {result : FieldResult D}
    (read : readField memory row n (field.specifier.text.take k) (field.arg :: ap) = .ok result)
    (accepted : result.accepted = true) (documents : field.Documents memory result.cell) :
    result.ap = ap ∧ field.specifier.Whole k ∧ field.Readable memory := by
  have typed := documents.1
  by_cases whole : field.specifier.Whole k
  · by_cases isInteger : ∃ width,
        field.specifier = .extendedS width ∨ field.specifier = .extendedU width
    · exact absurd typed (type_of_readField_integer memory row n _ isInteger read)
    · obtain ⟨c, expected, expectedRead, readable⟩ :=
        readField_whole memory row n ap field whole fun width =>
          not_or.mp fun same => isInteger ⟨width, same⟩
      cases Except.ok.inj (read.symm.trans expectedRead)
      exact ⟨rfl, whole, readable.mp ⟨accepted, documents⟩⟩
  · exact absurd typed (type_of_readField_cut memory row n _ whole read)

theorem readField_documents_iff (field : TableField D) (k : Nat) : (∃ c,
      readField memory row n (field.specifier.text.take k) (field.arg :: ap) = .ok ⟨c, ap, true⟩ ∧
        field.Documents memory c) ↔
      field.specifier.Whole k ∧ field.Readable memory := by
  constructor
  · rintro ⟨c, read, documents⟩
    exact (readField_documents memory row n ap read rfl documents).2
  · rintro ⟨whole, readable⟩
    have noInteger : ∀ width, field.specifier ≠ .extendedS width ∧
            field.specifier ≠ .extendedU width := by
      refine fun width => ⟨fun same => ?_, fun same => ?_⟩ <;>
      · rw [TableField.Readable, same] at readable
        exact readable
    obtain ⟨c, accepted, read, documented⟩ := readField_whole memory row n ap field whole noInteger
    obtain ⟨rfl, documents⟩ := documented.mpr readable
    exact ⟨c, read, documents⟩

end Fields

/-! ## Formats -/

theorem TableSpecifier.noColon_text (specifier : TableSpecifier) : colon ∉ specifier.text := by
  cases specifier with
  | extendedS width | extendedU width => cases width <;> decide
  | f modifiers | g modifiers =>
    have noColon : colon ∉ modifiers.val := by
      intro member
      have digit := modifiers.property colon member
      revert digit
      decide
    simp only [text, List.mem_append, not_or]
    exact ⟨⟨by decide, noColon⟩, by decide⟩
  | _ => decide

theorem TableSpecifier.getLast?_text (specifier : TableSpecifier) :
    specifier.text.getLast? = some 93 ↔ specifier.bracketed = true := by
  cases specifier with
  | extendedS width | extendedU width => cases width <;> decide
  | f modifiers | g modifiers =>
    refine iff_of_false (fun ends => ?_) Bool.false_ne_true
    have last := (List.getLast?_concat ..).symm.trans ends
    revert last
    decide
  | _ => decide

variable {s : List UInt8}

theorem strsepAmong_none (noColon : colon ∉ s) : strsepAmong [colon] s = (s, none) := by
  have among : ∀ c ∈ s, decide (c ∉ [colon]) = true := by
    intro c member
    refine decide_eq_true fun isColon => noColon ?_
    exact List.mem_singleton.mp isColon ▸ member
  rw [strsepAmong, List.takeWhile_eq_self_iff.mpr among, List.dropWhile_eq_nil_iff.mpr among]
  exact rfl

theorem strsepAmong_some (noColon : colon ∉ s) (rest : List UInt8) :
    strsepAmong [colon] (s ++ colon :: rest) = (s, some rest) := by
  have among : ∀ c ∈ s, decide (c ∉ [colon]) = true := by
    intro c member
    refine decide_eq_true fun isColon => noColon ?_
    exact List.mem_singleton.mp isColon ▸ member
  rw [strsepAmong, List.takeWhile_append_of_pos among, List.dropWhile_append_of_pos among]
  exact congrArg (·, some rest) (List.append_nil s)

theorem strsepAmong_take (noColon : colon ∉ s) (rest : List UInt8) {k : Nat}
    (inside : s.length < k) :
    strsepAmong [colon] ((s ++ colon :: rest).take k) =
      (s.take k, some (rest.take (k - s.length - 1))) := by
  obtain ⟨behind, rfl⟩ := Nat.exists_eq_add_of_lt inside
  rw [Nat.add_assoc, List.take_length_add_append, List.take_succ_cons,
    List.take_of_length_le (Nat.le_add_right ..), Nat.add_sub_cancel_left,
    Nat.add_sub_cancel]
  exact strsepAmong_some noColon _

namespace TableField

variable (field : TableField D)

theorem format_cons_cons (next : TableField D) (fields : List (TableField D)) :
    format (field :: next :: fields) =
      field.specifier.text ++ colon :: format (next :: fields) := by
  simp [format, joined, List.intercalate]

theorem format_singleton : format [field] = field.specifier.text := by
  simp [format, joined, List.intercalate]

/--
A format of which so many bytes are read is whole, except that the last bracket
need not be.
-/
def FormatFits (fields : List (TableField D)) (k : Nat) : Prop :=
  (format fields).length ≤ k ∨ (format fields).length = k + 1 ∧ (format fields).getLast? = some 93

theorem formatFits_singleton (k : Nat) : FormatFits [field] k ↔ field.specifier.Whole k := by
  rw [FormatFits, format_singleton, TableSpecifier.Whole,
    TableSpecifier.getLast?_text, and_comm (b := _ = true)]

theorem two_le_length_text (specifier : TableSpecifier) : 2 ≤ specifier.text.length := by
  by_cases brackets : specifier.bracketed = true
  · obtain ⟨behind, text⟩ := TableSpecifier.text_bracketed brackets
    rw [text, List.length_cons, List.length_cons]
    omega
  · rw [TableSpecifier.text_eq (Bool.eq_false_iff.mpr brackets),
      List.length_append, List.length_append, List.length_singleton,
      show (ascii "%").length = 1 from rfl]
    omega

theorem two_le_length_format (fields : List (TableField D)) :
    2 ≤ (format (field :: fields)).length := by
  have two := two_le_length_text field.specifier
  cases fields with
  | nil =>
    rw [format_singleton]
    exact two
  | cons next fields =>
    rw [format_cons_cons, List.length_append]
    omega

theorem formatFits_cons_cons (next : TableField D) (fields : List (TableField D)) (k : Nat) :
    FormatFits (field :: next :: fields) k ↔ field.specifier.text.length < k ∧
        FormatFits (next :: fields) (k - field.specifier.text.length - 1) := by
  have two := two_le_length_format next fields
  have last : (format (field :: next :: fields)).getLast? = (format (next :: fields)).getLast? := by
    have nonempty : format (next :: fields) ≠ [] :=
      List.ne_nil_of_length_pos (Nat.lt_of_lt_of_le Nat.two_pos two)
    rw [format_cons_cons, List.getLast?_append_of_ne_nil _ (by simp),
      List.getLast?_cons_of_ne_nil nonempty]
  have length : (format (field :: next :: fields)).length =
        field.specifier.text.length + 1 + (format (next :: fields)).length := by
    rw [format_cons_cons, List.length_append, List.length_cons]
    omega
  rw [FormatFits, FormatFits, last, length]
  constructor
  · rintro (fits | ⟨closing, bracket⟩)
    · exact ⟨by omega, .inl (by omega)⟩
    · exact ⟨by omega, .inr ⟨by omega, bracket⟩⟩
  · rintro ⟨inside, fits | ⟨closing, bracket⟩⟩
    · exact .inl (by omega)
    · exact .inr ⟨by omega, bracket⟩

end TableField

/-! ## Rows that are read -/

/-- The row of some fields was read, and so many arguments are left. -/
structure RowResult.Documents (memory : CellMemory D) (fields : List (TableField D))
    (more : List (VaArg D)) (result : RowResult D) : Prop where
  complete : result.complete = true
  left : result.ap = more
  cells : ∃ held empty, result.cells = held ++ empty ∧
        List.Forall₂ (TableField.Documents memory) fields held ∧
        ∀ c ∈ empty, c.type = .null

section Rows

variable (memory : CellMemory D) (row n : Nat) (more : List (VaArg D))

/-- A row of some fields is read, in a number of columns. -/
def ReadsRow (fields : List (TableField D)) (left : Nat) (sp : Option (List UInt8)) : Prop :=
  ∃ result, readRow memory [colon] row n left sp (TableField.args fields ++ more) = .ok result ∧
      result.Documents memory fields more

theorem readsRow_zero (sp : Option (List UInt8)) :
    ReadsRow memory row n more ([] : List (TableField D)) 0 sp :=
  ⟨⟨[], more, true⟩, rfl, rfl, rfl, [], [], rfl, .nil, by simp⟩

theorem not_readsRow_none (fields : List (TableField D)) (left : Nat) :
    ¬ ReadsRow memory row n more fields (left + 1) none := by
  rintro ⟨result, read, _⟩
  cases read

theorem readsRow_cons {field : TableField D} {fields : List (TableField D)} {left k : Nat}
    {sp : List UInt8} {next : Option (List UInt8)}
    (token : strsepAmong [colon] sp = (field.specifier.text.take k, next)) :
    ReadsRow memory row n more (field :: fields) (left + 1) (some sp) ↔
      (field.specifier.Whole k ∧ field.Readable memory) ∧
        ReadsRow memory row (n + 1) more fields left next := by
  rw [← readField_documents_iff memory row n (TableField.args fields ++ more),
    ReadsRow, readRow, token]
  constructor
  · rintro ⟨result, read, complete, behind, held, empty, cells, documents, null⟩
    obtain ⟨⟨cell, ap, accepted⟩, readFirst, read⟩ := bind_eq_ok.mp read
    split at read
    case isTrue accepts =>
      obtain ⟨rest, readRest, stored⟩ := bind_eq_ok.mp read
      cases stored
      cases documents with
      | cons firstDocuments restDocuments =>
        obtain ⟨rfl, restCells⟩ := List.cons.inj cells
        obtain ⟨onlyFirst, -⟩ :=
          readField_documents memory row n (TableField.args fields ++ more)
            readFirst accepts firstDocuments
        cases accepts
        cases onlyFirst
        exact ⟨⟨cell, readFirst, firstDocuments⟩, rest, readRest, complete,
          behind, _, _, restCells, restDocuments, null⟩
    case isFalse refused =>
      cases read
      cases complete
  · rintro ⟨⟨c, readCell, documents⟩, rest, readRest, complete, behind, held,
      empty, cells, restDocuments, null⟩
    refine ⟨{ rest with cells := c :: rest.cells }, ?_, complete, behind,
      c :: held, empty, congrArg (c :: ·) cells, .cons documents restDocuments,
      null⟩
    refine bind_eq_ok.mpr ⟨_, readCell, ?_⟩
    rw [if_pos rfl]
    exact bind_eq_ok.mpr ⟨rest, readRest, rfl⟩

theorem readsRow_nil (left k : Nat) : ReadsRow memory row n more [] left
        (some ((TableField.format ([] : List (TableField D))).take k)) ↔
      left ≤ 1 := by
  have token : strsepAmong [colon] ((TableField.format ([] : List (TableField D))).take k) =
        ([], none) := by
    cases k <;> rfl
  rcases left with _ | _ | left
  · exact iff_of_true (readsRow_zero memory row n more _) (Nat.zero_le 1)
  · refine iff_of_true ?_ (Nat.le_refl 1)
    rw [ReadsRow, readRow, token]
    exact ⟨_, rfl, rfl, rfl, [], [_], rfl, .nil, List.forall_mem_singleton.mpr rfl⟩
  · refine iff_of_false ?_ (by omega)
    rintro ⟨result, read, _⟩
    rw [readRow, token] at read
    cases read

theorem readsRow_iff (fields : List (TableField D)) (left k : Nat) (room : fields.length ≤ left) :
    ReadsRow memory row n more fields left (some ((TableField.format fields).take k)) ↔
      left ≤ max 1 fields.length ∧ TableField.FormatFits fields k ∧
        ∀ field ∈ fields, field.Readable memory := by
  induction fields generalizing n left k with
  | nil =>
    rw [readsRow_nil, List.length_nil, Nat.max_zero]
    exact (and_iff_left ⟨.inl (Nat.zero_le k), List.forall_mem_nil _⟩).symm
  | cons field fields ih =>
    obtain ⟨left, rfl⟩ := Nat.exists_eq_succ_of_ne_zero
      (Nat.ne_of_gt (Nat.lt_of_lt_of_le (Nat.succ_pos _) room))
    have noColon : colon ∉ field.specifier.text.take k :=
      fun member => field.specifier.noColon_text (List.mem_of_mem_take member)
    cases fields with
    | nil =>
      rw [TableField.format_singleton, readsRow_cons memory row n more (strsepAmong_none noColon),
        TableField.formatFits_singleton, List.forall_mem_singleton]
      cases left with
      | zero =>
        exact (and_iff_left (readsRow_zero memory row _ more _)).trans
          (and_iff_right (Nat.le_refl 1)).symm
      | succ left =>
        exact iff_of_false (fun reads => not_readsRow_none memory row _ more _ _ reads.2)
          (fun fits => absurd fits.1 (by simp))
    | cons next fields =>
      rw [TableField.format_cons_cons, TableField.formatFits_cons_cons, List.forall_mem_cons]
      by_cases inside : field.specifier.text.length < k
      · have token :=
          strsepAmong_take field.specifier.noColon_text (TableField.format (next :: fields)) inside
        rw [readsRow_cons memory row n more token, ih (n + 1) left _ (Nat.le_of_succ_le_succ room)]
        have columns : left + 1 ≤ max 1 (field :: next :: fields).length ↔
              left ≤ max 1 (next :: fields).length := by
          simp only [List.length_cons]
          omega
        rw [columns]
        constructor
        · rintro ⟨⟨-, readable⟩, width, fits, others⟩
          exact ⟨width, ⟨inside, fits⟩, readable, others⟩
        · rintro ⟨width, ⟨-, fits⟩, readable, others⟩
          exact ⟨⟨.inl (Nat.le_of_lt inside), readable⟩, width, fits, others⟩
      · have cut : (field.specifier.text ++ colon :: TableField.format (next :: fields)).take k =
              field.specifier.text.take k :=
          List.take_append_of_le_length (Nat.le_of_not_lt inside)
        obtain ⟨left, rfl⟩ := Nat.exists_eq_succ_of_ne_zero (show left ≠ 0 by
            rw [List.length_cons, List.length_cons] at room
            omega)
        rw [cut, readsRow_cons memory row n more (strsepAmong_none noColon)]
        exact iff_of_false (fun reads => not_readsRow_none memory row _ more _ _ reads.2)
          (fun fits => inside fits.2.1.1)

end Rows

theorem length_readRow {memory : CellMemory D} {sep : List UInt8} {row n left : Nat}
    {sp : Option (List UInt8)} {ap : List (VaArg D)} {result : RowResult D}
    (read : readRow memory sep row n left sp ap = .ok result) :
    result.cells.length ≤ left ∧ (result.complete = true → result.cells.length = left) := by
  induction left generalizing n sp ap result with
  | zero =>
    cases read
    exact ⟨Nat.le_refl 0, fun _ => rfl⟩
  | succ left ih =>
    cases sp with
    | none => cases read
    | some sp =>
      rw [readRow] at read
      obtain ⟨field, _, read⟩ := bind_eq_ok.mp read
      split at read
      · obtain ⟨rest, readRest, stored⟩ := bind_eq_ok.mp read
        cases stored
        obtain ⟨fits, whole⟩ := ih readRest
        exact ⟨Nat.succ_le_succ fits, fun complete => congrArg (· + 1) (whole complete)⟩
      · cases read
        exact ⟨Nat.succ_le_succ (Nat.zero_le left), nofun⟩

theorem noNul_format (fields : List (TableField D)) : 0 ∉ TableField.format fields := by
  have noNul : ∀ specifier : TableSpecifier, 0 ∉ specifier.text := by
    intro specifier
    cases specifier with
    | extendedS width | extendedU width => cases width <;> decide
    | f modifiers | g modifiers =>
      have noNul : 0 ∉ modifiers.val := by
        intro member
        have digit := modifiers.property 0 member
        revert digit
        decide
      simp only [TableSpecifier.text, List.mem_append, not_or]
      exact ⟨⟨by decide, noNul⟩, by decide⟩
    | _ => decide
  induction fields with
  | nil => exact List.not_mem_nil
  | cons field fields ih =>
    cases fields with
    | nil =>
      rw [TableField.format_singleton]
      exact noNul _
    | cons next fields =>
      rw [TableField.format_cons_cons, List.mem_append, List.mem_cons]
      rintro (inText | isColon | behind)
      · exact noNul _ inText
      · cases isColon
      · exact ih behind

/--
`AG_TableAddRow` adds a row with the cells that its fields are documented for,
and reads one argument for each of them.
-/
def Table.AddsRow (memory : CellMemory D) (row : Nat) (fields : List (TableField D))
    (more : List (VaArg D)) (t : Table D) : Prop :=
  ∃ next held empty, t.addRow memory row (TableField.format fields)
        (TableField.args fields ++ more) =
      .ok (some t.cells.length, next, more) ∧
    next.cells = t.cells ++ [held ++ empty] ∧
    (held ++ empty).length = t.cols.length ∧
    List.Forall₂ (TableField.Documents memory) fields held ∧
    ∀ c ∈ empty, c.type = .null

/--
`AG_TableAddRow` does what is documented exactly when every column has a field,
the format fits its buffer, and each field can be read.
-/
theorem addRow_iff (memory : CellMemory D) (row : Nat) (fields : List (TableField D))
    (more : List (VaArg D)) (t : Table D) (separated : t.sep = ascii ":")
    (room : fields.length ≤ t.cols.length) :
    t.AddsRow memory row fields more ↔ t.cols.length ≤ max 1 fields.length ∧
        TableField.FormatFits fields 63 ∧
        ∀ field ∈ fields, field.Readable memory := by
  have copied : (CString.strlcpy (TableField.format fields) : CString rowFormatMax).bytes =
        (TableField.format fields).take 63 := by
    simp only [CString.strlcpy]
    rw [cString_of_noNul (noNul_format fields)]
    exact rfl
  rw [← readsRow_iff memory row 0 more fields _ 63 room, Table.AddsRow,
    Table.addRow, copied, separated]
  constructor
  · rintro ⟨next, held, empty, added, cells, -, documents, null⟩
    obtain ⟨result, read, added⟩ := bind_eq_ok.mp added
    refine ⟨result, read, ?_⟩
    split at added
    case isTrue complete =>
      cases added
      exact ⟨complete, rfl, held, empty,
        List.singleton_inj.mp (List.append_cancel_left cells), documents, null⟩
    case isFalse refused => cases added
  · rintro ⟨result, read, complete, rfl, held, empty, cells, documents, null⟩
    refine ⟨(t.attachWidgets result.attached).storeRow result.cells, held,
      empty, bind_eq_ok.mpr ⟨result, read, ?_⟩, ?_, ?_, documents, null⟩
    · exact if_pos complete
    · exact congrArg (t.cells ++ [·]) cells
    · rw [← cells]
      exact (length_readRow read).2 complete

def plainMemory : CellMemory Int where
  string _ := ⟨ascii "Foo", by decide⟩
  int _ := 0
  long _ := 0
  uint8 _ := 0
  uint16 _ := 0
  float _ := 0
  double _ := 0
  widgetFlags _ := widgetTableEmbeddable

def oneColumn : Table Int := Table.init.addCol (some (ascii "Name")) none none

def twoColumns : Table Int := oneColumn.addCol (some (ascii "Value")) (some (.pixels 50)) none

def textAndNumber : List (TableField Int) := [⟨.s, .pointer 4, rfl⟩, ⟨.d, .int 5, rfl⟩]

theorem addRow_iff_two : twoColumns.AddsRow plainMemory 1 textAndNumber [] := by
  have readable : ∀ field ∈ textAndNumber, field.Readable plainMemory := by
    refine List.forall_mem_cons.mpr ⟨?_, List.forall_mem_singleton.mpr trivial⟩
    exact (show (ascii "Foo").length < tableTxtMax by decide)
  exact (addRow_iff plainMemory 1 textAndNumber [] twoColumns rfl
    (Nat.le_refl 2)).mpr ⟨Nat.le_refl 2, .inl (by decide), readable⟩

theorem integer_in_brackets_is_read_twice : ¬ oneColumn.AddsRow plainMemory 1
      [⟨.extendedS .w32, .pointer 4, rfl⟩] [] := by
  rintro ⟨next, held, empty, added, -⟩
  cases added

end Agar.Gui
