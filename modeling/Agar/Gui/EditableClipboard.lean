import Agar.Gui.Editable
import Agar.Lib.Outcome

namespace Agar.Gui

open Agar.Lib
open Agar.Core

/-!
# Cutting, copying and pasting

A buffer holds a text where its memory does, up to its length.  The editing
functions then replace a range of that text, so that pasting what was cut puts
the text back.
-/

/-! ## Texts and selections -/

/-- The working buffer holds a text, and `maxLen` is not more than its memory. -/
structure EditableBuffer.Holds (buf : EditableBuffer) (s text : List UInt32) : Prop where
  memory : buf.s = some s
  len : buf.len = text.length
  stored : HoldsText 0 s text
  maxLen : buf.maxLen ≤ 4 * s.length

namespace Editable

/-- Both ends of the selection are positions of a text. -/
structure ValidSelection (ed : Editable) (length : Nat) : Prop where
  pos_nonneg : 0 ≤ ed.pos
  pos_le : ed.pos ≤ length
  end_nonneg : 0 ≤ ed.pos + ed.sel
  end_le : ed.pos + ed.sel ≤ length

/-- Where the selection begins, on whichever side of it the cursor is -/
def selectionStart (ed : Editable) : Nat := (min ed.pos (ed.pos + ed.sel)).toNat

/-- How many characters are selected -/
def selectionLength (ed : Editable) : Nat := ed.sel.natAbs

/-- The selected characters of a text -/
def selected (ed : Editable) (text : List UInt32) : List UInt32 :=
  rangeOf text ed.selectionStart ed.selectionLength

variable {ed : Editable} {buf : EditableBuffer} {length : Nat}

theorem ValidSelection.inside (valid : ed.ValidSelection length) :
    ed.selectionStart + ed.selectionLength ≤ length := by
  obtain ⟨_, _, _, _⟩ := valid
  unfold selectionStart selectionLength
  omega

theorem toUint_le (value : Int) (nonneg : 0 ≤ value) : toUint value ≤ value.toNat := by
  unfold toUint
  omega

theorem ValidSelection.validate (valid : ed.ValidSelection buf.len) :
    ed.validateSelection buf = ed := by
  obtain ⟨_, _, _, _⟩ := valid
  have cursor : ¬ buf.len < toUint ed.pos := by
    have less := toUint_le ed.pos (by assumption)
    omega
  have other : ¬ buf.len < toUint (ed.pos + ed.sel) := by
    have less := toUint_le (ed.pos + ed.sel) (by assumption)
    omega
  unfold validateSelection
  rw [if_neg cursor]
  by_cases selected : ed.sel ≠ 0
  · simp only [if_pos selected]
    rw [if_neg (by omega), if_neg other]
  · simp only [if_neg selected]

/-- The field with the cursor at the beginning of what is selected -/
def selecting (ed : Editable) (start count : Nat) : Editable :=
  { ed with pos := start, sel := count }

theorem ValidSelection.norm (valid : ed.ValidSelection length) :
    ed.normSelection = ed.selecting ed.selectionStart ed.selectionLength := by
  obtain ⟨_, _, _, _⟩ := valid
  unfold normSelection selecting selectionStart selectionLength
  split
  case isTrue backwards => congr 1 <;> omega
  case isFalse forwards =>
    have pos : ((min ed.pos (ed.pos + ed.sel)).toNat : Int) = ed.pos := by omega
    have sel : (ed.sel.natAbs : Int) = ed.sel := by omega
    rw [pos, sel]

@[simp] theorem selectionStart_selecting (ed : Editable) (start count : Nat) :
    (ed.selecting start count).selectionStart = start := by
  simp only [selectionStart, selecting]
  omega

@[simp] theorem selectionLength_selecting (ed : Editable) (start count : Nat) :
    (ed.selecting start count).selectionLength = count := by
  simp only [selectionLength, selecting]
  omega

theorem ValidSelection.selecting (valid : ed.ValidSelection length) :
    (ed.selecting ed.selectionStart ed.selectionLength).ValidSelection
      length := by
  obtain ⟨_, _, _, _⟩ := valid
  unfold Editable.selecting selectionStart selectionLength
  constructor <;> simp only <;> omega

end Editable

/-! ## What the functions make of a text -/

section Editing

variable {ed : Editable} {buf : EditableBuffer} {cb : EditableClipboard} {s text : List UInt32}
  {chunk growth : Allocation} {fresh : Nat → UInt32}

theorem deletedCells {start count : Nat} (stored : HoldsText 0 s text)
    (inside : start + count ≤ text.length) :
    ∃ cells, (if (start + count : Int) = text.length then
          copyCells? s start [0]
        else
          moveCells? s start (start + count)
            (text.length - count + 1 - start : Int).toNat) = some cells ∧
        cells.length = s.length ∧ HoldsText 0 cells (replaceRange text start count []) := by
  have memoryLength := stored.length_lt
  by_cases last : (start + count : Int) = text.length
  · rw [if_pos last, copyCells?_inside (by rw [List.length_singleton]; omega)]
    refine ⟨_, rfl, length_splice (by rw [List.length_singleton]; omega), ?_⟩
    have behind : text.drop (start + count) = [] := List.drop_eq_nil_of_le (by omega)
    rw [replaceRange, behind, List.append_nil, List.append_nil]
    exact stored.cutShort (by omega)
  · have moved : (text.length - count + 1 - start : Int).toNat =
        text.length + 1 - (start + count) := by
      omega
    have target : start + (rangeOf s (start + count)
          (text.length + 1 - (start + count))).length ≤ s.length := by
      rw [length_rangeOf (by omega)]
      omega
    rw [if_neg last, moved, ← Nat.cast_add, moveCells?_inside (by omega) (by omega)]
    exact ⟨_, rfl, length_splice target, stored.closeUp inside⟩

theorem editableDelete_selected (ed : Editable) (holds : buf.Holds s text)
    (writable : ed.readOnly = false) (valid : ed.ValidSelection text.length)
    (nonempty : ed.sel ≠ 0) :
    ∃ cells, editableDelete ed buf = .ok (.done, ed.selecting ed.selectionStart 0,
            { buf with s := some cells, len := text.length - ed.selectionLength }) ∧
        cells.length = s.length ∧
        HoldsText 0 cells (replaceRange text ed.selectionStart ed.selectionLength []) := by
  have inside := valid.inside
  have validated : ed.validateSelection buf = ed :=
    Editable.ValidSelection.validate (holds.len ▸ valid)
  obtain ⟨cells, deleted, sameLength, stored⟩ := deletedCells holds.stored inside
  refine ⟨cells, ?_, sameLength, stored⟩
  have length : (text.length - ed.selectionLength : Int).toNat =
        text.length - ed.selectionLength := by
    omega
  unfold editableDelete
  rw [if_neg (by simp [writable, nonempty])]
  simp only [validated, valid.norm, holds.memory, pointee, Option.elim,
    ok_bind, holds.len, Editable.selecting, deleted, inBounds, length]
  rfl

theorem copyChunk_range (cb : EditableClipboard) {start count : Nat} (stored : HoldsText 0 s text)
    (inside : start + count ≤ text.length) (granted : chunk.grants (4 * (count + 1)) = true) :
    copyChunk chunk cb s start count =
      .ok { s := some (rangeOf text start count ++ [0]), len := count } := by
  have memoryLength := stored.length_lt
  rw [copyChunk, if_pos granted, readCells,
    if_pos ⟨Int.natCast_nonneg _, by omega⟩, Int.toNat_natCast,
    stored.rangeOf inside]
  rfl

theorem editableCopy_selected (cb : EditableClipboard) (holds : buf.Holds s text)
    (valid : ed.ValidSelection text.length) (nonempty : ed.sel ≠ 0)
    (granted : chunk.grants (4 * (ed.selectionLength + 1)) = true) :
    editableCopy chunk ed buf cb =
      .ok ⟨.done, ed.selecting ed.selectionStart ed.selectionLength, buf,
        { s := some (ed.selected text ++ [0]), len := ed.selectionLength }⟩ := by
  have validated : ed.validateSelection buf = ed :=
    Editable.ValidSelection.validate (holds.len ▸ valid)
  have copied := copyChunk_range cb holds.stored valid.inside granted
  unfold editableCopy
  rw [if_neg nonempty]
  simp only [validated, valid.norm, holds.memory, pointee, Option.elim,
    ok_bind, Editable.selecting, Int.toNat_natCast, copied]
  rfl

theorem editableCut_selected (cb : EditableClipboard) (holds : buf.Holds s text)
    (writable : ed.readOnly = false) (valid : ed.ValidSelection text.length) (nonempty : ed.sel ≠ 0)
    (granted : chunk.grants (4 * (ed.selectionLength + 1)) = true) :
    ∃ cells, editableCut chunk ed buf cb = .ok ⟨.done, ed.selecting ed.selectionStart 0,
            { buf with s := some cells, len := text.length - ed.selectionLength },
            { s := some (ed.selected text ++ [0])
              len := ed.selectionLength }⟩ ∧
        cells.length = s.length ∧
        HoldsText 0 cells (replaceRange text ed.selectionStart ed.selectionLength []) := by
  have validated : ed.validateSelection buf = ed :=
    Editable.ValidSelection.validate (holds.len ▸ valid)
  have copied := copyChunk_range cb holds.stored valid.inside granted
  obtain ⟨cells, deleted, sameLength, stored⟩ :=
    editableDelete_selected (ed.selecting ed.selectionStart ed.selectionLength) holds writable
      valid.selecting
      (by simpa [Editable.selecting, Editable.selectionLength] using nonempty)
  rw [Editable.selectionStart_selecting, Editable.selectionLength_selecting] at deleted stored
  refine ⟨cells, ?_, sameLength, stored⟩
  unfold editableCut
  rw [if_neg (by simp [writable, nonempty])]
  simp only [validated, valid.norm, holds.memory, pointee, Option.elim, ok_bind]
  have whole : copyChunk chunk cb s (ed.selecting ed.selectionStart ed.selectionLength).pos
          (ed.selecting ed.selectionStart ed.selectionLength).sel.toNat =
        _ :=
    copied
  rw [whole, ok_bind, deleted]
  rfl

/-! ## Room -/

/-- The part of a text in front of the first NUL, which `strlen` would see -/
def upToNul (text : List UInt32) : List UInt32 := text.takeWhile (· ≠ 0)

theorem upToNul_zero (rest : List UInt32) : upToNul (0 :: rest) = [] := rfl

theorem upToNul_cons {c : UInt32} (nonzero : c ≠ 0) (rest : List UInt32) :
    upToNul (c :: rest) = c :: upToNul rest :=
  List.takeWhile_cons_of_pos (by simpa)

/-- The bytes of a text in UTF-8, where all of its characters have some -/
def utf8Size : List UInt32 → Option Nat
  | [] => some 0
  | c :: rest => do
      let cLen ← charLengthUTF8FromUCS4 c
      let size ← utf8Size rest
      return cLen + size

theorem lengthUTF8FromUCS4_stored (stored : HoldsText 0 s text) :
    lengthUTF8FromUCS4 s = .ok (utf8Size (upToNul text)) := by
  obtain ⟨rest, rfl⟩ := stored.exists_rest
  clear stored
  induction text with
  | nil => rfl
  | cons c text ih =>
    rw [List.cons_append, lengthUTF8FromUCS4, ih]
    by_cases nul : c = 0
    · rw [if_pos nul, nul, upToNul_zero]
      rfl
    · rw [if_neg nul, upToNul_cons nul, utf8Size]
      cases charLengthUTF8FromUCS4 c with
      | none => rfl
      | some cLen => cases utf8Size (upToNul text) <;> rfl

theorem lengthUCS4_stored (stored : HoldsText 0 s text) :
    lengthUCS4 s = .ok (upToNul text).length := by
  obtain ⟨rest, rfl⟩ := stored.exists_rest
  clear stored
  induction text with
  | nil => rfl
  | cons c text ih =>
    rw [List.cons_append, lengthUCS4, ih]
    by_cases nul : c = 0
    · rw [if_pos nul, nul, upToNul_zero]
      rfl
    · rw [if_neg nul, upToNul_cons nul]
      rfl

/-- What `AG_EditableGrowBuffer` takes a text and what is put in it to need -/
def Editable.estimate (ed : Editable) (text new : List UInt32) (nIns : Nat) : Option Nat :=
  if equalsNoCase ed.encoding (ascii "UTF-8") then do
    let sLen ← utf8Size (upToNul text)
    let insLen ← utf8Size (upToNul new)
    return sLen + insLen + 1
  else if equalsNoCase ed.encoding (ascii "US-ASCII") then some ((upToNul text).length + nIns + 1)
  else some (4 * (text.length + nIns + 1))

theorem convertedLength_stored {ins new : List UInt32} (holds : buf.Holds s text)
    (inserted : HoldsText 0 ins new) (nIns : Nat) :
    convertedLength ed buf s ins nIns = .ok (ed.estimate text new nIns) := by
  unfold convertedLength Editable.estimate
  split
  case isTrue =>
    rw [lengthUTF8FromUCS4_stored holds.stored, lengthUTF8FromUCS4_stored inserted]
    cases utf8Size (upToNul text) with
    | none => rfl
    | some sLen => cases utf8Size (upToNul new) <;> rfl
  case isFalse =>
    rw [lengthUCS4_stored holds.stored, holds.len]
    split <;> rfl

theorem utf8Size_append_eq_some {front back : List UInt32} {size : Nat} :
    utf8Size (front ++ back) = some size ↔ ∃ first second, utf8Size front = some first ∧
          utf8Size back = some second ∧ first + second = size := by
  induction front generalizing size with
  | nil => simp [utf8Size]
  | cons c front ih =>
    rw [List.cons_append, utf8Size, utf8Size]
    cases charLengthUTF8FromUCS4 c with
    | none => simp
    | some cLen =>
      simp only [Option.pure_def, Option.bind_eq_bind, Option.bind_some,
        Option.bind_eq_some_iff, Option.some.injEq]
      constructor
      · rintro ⟨size, whole, rfl⟩
        obtain ⟨first, second, sized, rest, rfl⟩ := ih.mp whole
        exact ⟨_, second, ⟨first, sized, rfl⟩, rest, Nat.add_assoc _ _ _⟩
      · rintro ⟨_, second, ⟨first, sized, rfl⟩, rest, rfl⟩
        exact ⟨first + second, ih.mpr ⟨first, second, sized, rest, rfl⟩, (Nat.add_assoc _ _ _).symm⟩

theorem utf8Size_upToNul_le {size : Nat} (sized : utf8Size text = some size) :
    ∃ part ≤ size, utf8Size (upToNul text) = some part := by
  rw [← List.takeWhile_append_dropWhile (p := (· ≠ 0)) (l := text)] at sized
  obtain ⟨first, second, part, -, rfl⟩ := utf8Size_append_eq_some.mp sized
  exact ⟨first, by omega, part⟩

theorem length_upToNul_le (text : List UInt32) : (upToNul text).length ≤ text.length :=
  (List.takeWhile_prefix _).length_le

/-- What a whole text takes in a variable, as the functions estimate it -/
def Editable.storedSize (ed : Editable) (text : List UInt32) : Option Nat :=
  if equalsNoCase ed.encoding (ascii "UTF-8") then (utf8Size text).map (· + 1)
  else if equalsNoCase ed.encoding (ascii "US-ASCII") then some (text.length + 1)
  else some (4 * (text.length + 1))

theorem Editable.estimate_restored {start count size : Nat}
    (stored : ed.storedSize text = some size) (inside : start + count ≤ text.length) :
    ∃ convLen ≤ size, ed.estimate (replaceRange text start count [])
        (rangeOf text start count) count = some convLen := by
  have length := length_replaceRange inside []
  unfold storedSize at stored
  unfold estimate
  split at stored
  case isTrue utf8 =>
    rw [if_pos utf8]
    obtain ⟨whole, sized, rfl⟩ := Option.map_eq_some_iff.mp stored
    have parts : text.take start ++ (rangeOf text start count ++
          text.drop (start + count)) = text := by
      rw [rangeOf, ← List.drop_drop, List.take_append_drop, List.take_append_drop]
    rw [← parts] at sized
    obtain ⟨first, _, front, behind, rfl⟩ := utf8Size_append_eq_some.mp sized
    obtain ⟨second, third, middle, back, rfl⟩ := utf8Size_append_eq_some.mp behind
    have rest : utf8Size (replaceRange text start count []) = some (first + third) := by
      rw [replaceRange, List.append_nil]
      exact utf8Size_append_eq_some.mpr ⟨_, _, front, back, rfl⟩
    obtain ⟨sLen, restLe, sized⟩ := utf8Size_upToNul_le rest
    obtain ⟨insLen, rangeLe, inserted⟩ := utf8Size_upToNul_le middle
    rw [sized, inserted]
    exact ⟨sLen + insLen + 1, by omega, rfl⟩
  case isFalse other =>
    rw [if_neg other]
    have rest := length_upToNul_le (replaceRange text start count [])
    rw [List.length_nil] at length
    split at stored
    case isTrue usAscii =>
      rw [if_pos usAscii]
      cases stored
      exact ⟨_, by omega, rfl⟩
    case isFalse unknown =>
      rw [if_neg unknown]
      cases stored
      exact ⟨_, by omega, rfl⟩

/-- The cells that a text and what is put in it need, with their terminator -/
def neededSize (text : List UInt32) (nIns : Nat) : Nat := 4 * (text.length + nIns + 1)

theorem growBuffer_stored (fresh : Nat → UInt32) {ins new : List UInt32} {nIns convLen : Nat}
    (holds : buf.Holds s text) (inserted : HoldsText 0 ins new)
    (estimated : ed.estimate text new nIns = some convLen)
    (fits : buf.reallocable = true ∨ convLen ≤ buf.infoSize)
    (granted : buf.maxLen < neededSize text nIns → growth.grants (neededSize text nIns) = true) :
    ∃ cells maxLen, growBuffer growth fresh ed buf ins nIns =
          .ok (.ok { buf with s := some cells, maxLen := maxLen }) ∧
        maxLen ≤ 4 * cells.length ∧ text.length + nIns < cells.length ∧ HoldsText 0 cells text := by
  have fitting : ¬ (buf.reallocable = false ∧ buf.infoSize < convLen) := by
    rcases fits with reallocable | small
    · simp [reallocable]
    · omega
  have maxLen := holds.maxLen
  unfold growBuffer
  simp only [holds.memory, pointee, Option.elim, ok_bind,
    convertedLength_stored holds inserted, estimated, if_neg fitting,
    holds.len]
  by_cases more : buf.maxLen < neededSize text nIns
  · refine ⟨resize fresh (text.length + nIns + 1) s, neededSize text nIns, ?_, ?_, ?_, ?_⟩
    · have memory := granted more
      unfold neededSize at more memory
      rw [if_pos more, if_pos memory]
      rfl
    · rw [length_resize]
      exact le_rfl
    · rw [length_resize]
      omega
    · exact holds.stored.resize fresh (by omega)
  · unfold neededSize at more
    refine ⟨s, buf.maxLen, ?_, maxLen, by omega, holds.stored⟩
    rw [if_neg more, ← holds.memory, ← holds.len]
    rfl

theorem pasteCells_stored {start : Nat} (memory : buf.s = some s) (len : buf.len = text.length)
    (stored : HoldsText 0 s text) (cursor : ed.pos = start) (inside : start ≤ text.length)
    (new : List UInt32) (room : text.length + new.length < s.length) :
    ∃ cells, pasteCells ed buf new = .ok ({ ed with pos := (start + new.length : Nat) },
            { buf with s := some cells, len := text.length + new.length }) ∧
        cells.length = s.length ∧ HoldsText 0 cells (replaceRange text start 0 new) := by
  have target : (rangeOf s start (text.length - start)).length = text.length - start :=
    length_rangeOf (by omega)
  have moved : makeRoom ed buf s new.length = .ok (splice s (start + new.length)
          (rangeOf s start (text.length - start))) := by
    rw [makeRoom, cursor, len]
    split
    case isTrue before =>
      have count : (text.length - start : Int).toNat = text.length - start := by omega
      rw [count, ← Nat.cast_add, moveCells?_inside (by omega) (by omega)]
      rfl
    case isFalse atEnd =>
      have nothing : text.length - start = 0 := by omega
      rw [nothing, rangeOf, List.take_zero, splice_nil]
  have movedLength : (splice s (start + new.length)
        (rangeOf s start (text.length - start))).length = s.length :=
    length_splice (by omega)
  have filledLength : (splice (splice s (start + new.length)
        (rangeOf s start (text.length - start))) start new).length = s.length := by
    rw [length_splice (by omega), movedLength]
  refine ⟨_, ?_, ?_, stored.insert inside room⟩
  · unfold pasteCells
    rw [memory, pointee, Option.elim, ok_bind, moved, ok_bind, cursor,
      copyCells?_inside (by omega), inBounds, Option.elim, ok_bind, len,
      copyCells?_inside (by rw [filledLength, List.length_singleton]; omega)]
    rfl
  · rw [length_splice (by rw [filledLength, List.length_singleton]; omega), filledLength]

theorem cutLine_oneLine (stored : HoldsText 0 s text) (oneLine : 10 ∉ text) :
    cutLine s = .ok s := by
  obtain ⟨rest, rfl⟩ := stored.exists_rest
  clear stored
  induction text with
  | nil => rfl
  | cons c text ih =>
    rw [List.mem_cons, not_or] at oneLine
    rw [List.cons_append, cutLine, ih oneLine.2, if_neg (Ne.symm oneLine.1)]
    split <;> rfl

theorem editablePaste_whole (fresh : Nat → UInt32) (ed : Editable) {start convLen : Nat}
    {new : List UInt32} (holds : buf.Holds s text) (writable : ed.readOnly = false)
    (cursor : ed.pos = start) (inside : start ≤ text.length) (unselected : ed.sel = 0)
    (anyCharacter : ed.intOnly = false ∧ ed.fltOnly = false)
    (oneLine : ed.multiline = true ∨ 10 ∉ new)
    (estimated : ed.estimate text new new.length = some convLen)
    (fits : buf.reallocable = true ∨ convLen ≤ buf.infoSize)
    (granted : buf.maxLen < neededSize text new.length →
        growth.grants (neededSize text new.length) = true) :
    ∃ pasted cells, editablePaste growth fresh ed buf
          { s := some (new ++ [0]), len := new.length } = .ok pasted ∧
        pasted.verdict = .done ∧ pasted.ed = { ed with pos := (start + new.length : Nat) } ∧
        pasted.buf.Holds cells (replaceRange text start 0 new) := by
  have clipboard : HoldsText 0 (new ++ [0]) new := List.prefix_rfl
  have lines : pastedLines ed (new ++ [0]) = .ok (new ++ [0]) := by
    unfold pastedLines
    split
    case isTrue => rfl
    case isFalse single => exact cutLine_oneLine clipboard (oneLine.resolve_left single)
  have accepted : refusedByMode ed (new ++ [0]) = .ok none := by
    rw [refusedByMode, anyCharacter.1, anyCharacter.2]
    rfl
  obtain ⟨grown, maxLen, grew, bound, room, kept⟩ :=
    growBuffer_stored fresh holds clipboard estimated fits granted
  have read : readCells (new ++ [0]) 0 new.length = .ok new := by
    rw [readCells, if_pos ⟨le_rfl, by
      rw [List.length_append, List.length_singleton]; omega⟩,
      Int.toNat_zero, rangeOf, List.drop_zero, List.take_left]
  obtain ⟨cells, pasted, sameLength, stored⟩ :=
    @pasteCells_stored ed { buf with s := some grown, maxLen := maxLen } _ _ _
      rfl holds.len kept cursor inside new room
  have length := @length_replaceRange _ _ _ 0 inside new
  have ran : editablePaste growth fresh ed buf
          { s := some (new ++ [0]), len := new.length } =
        .ok ⟨.done, { ed with pos := (start + new.length : Nat) },
          { buf with s := some cells, len := text.length + new.length, maxLen := maxLen },
          { s := some (new ++ [0]), len := new.length }⟩ := by
    unfold editablePaste
    rw [if_neg (by simp [writable]), deleteSelected, if_neg (not_not_intro unselected)]
    simp only [pure, Except.pure, ok_bind, lines, accepted, grew, read, pasted]
  exact ⟨_, cells, ran, rfl, rfl, rfl, length.symm, stored, sameLength.symm ▸ bound⟩

end Editing

/-! ## Cut and paste -/

/--
There is room for a text: what it is estimated to take is in the size of the
variable, if that is fixed, and the allocator has memory for its characters.
-/
structure HasRoom (growth : Allocation) (ed : Editable) (buf : EditableBuffer)
    (text : List UInt32) : Prop where
  fits : ∃ size, ed.storedSize text = some size ∧ (buf.reallocable = true ∨ size ≤ buf.infoSize)
  memory : growth.grants (4 * (text.length + 1)) = true

/--
Cutting a selection and pasting what was cut puts the text back, with the
cursor behind it and nothing selected; and copying gives the clipboard the
selected characters and leaves the text as it is.
-/
theorem editableCut_editablePaste {chunk growth : Allocation} {fresh : Nat → UInt32} {ed : Editable}
    {buf : EditableBuffer} {cb : EditableClipboard} {s text : List UInt32}
    (holds : buf.Holds s text) (valid : ed.ValidSelection text.length) (nonempty : ed.sel ≠ 0)
    (memory : chunk.grants (4 * (ed.selectionLength + 1)) = true) :
    (ed.readOnly = false → ed.intOnly = false ∧ ed.fltOnly = false →
      ed.multiline = true ∨ 10 ∉ ed.selected text →
      HasRoom growth ed buf text →
      ∃ cut pasted cells, editableCut chunk ed buf cb = .ok cut ∧ cut.verdict = .done ∧
          editablePaste growth fresh cut.ed cut.buf cut.cb = .ok pasted ∧
          pasted.verdict = .done ∧
          pasted.buf.Holds cells text ∧
          pasted.ed = { ed with pos := max ed.pos (ed.pos + ed.sel), sel := 0 }) ∧
      ∃ copied, editableCopy chunk ed buf cb = .ok copied ∧ copied.verdict = .done ∧
          copied.buf = buf ∧
          copied.cb =
            { s := some (ed.selected text ++ [0])
              len := (ed.selected text).length } := by
  have inside := valid.inside
  have chosen : (ed.selected text).length = ed.selectionLength := length_rangeOf inside
  constructor
  · intro writable anyCharacter oneLine room
    obtain ⟨cells, cut, sameLength, stored⟩ :=
      editableCut_selected cb holds writable valid nonempty memory
    obtain ⟨size, whole, fits⟩ := room.fits
    obtain ⟨convLen, less, estimated⟩ := ed.estimate_restored whole inside
    have length := length_replaceRange inside []
    rw [List.length_nil] at length
    have cutHolds : EditableBuffer.Holds
          { buf with s := some cells, len := text.length - ed.selectionLength }
          cells (replaceRange text ed.selectionStart ed.selectionLength []) :=
      ⟨rfl, by simp only; omega, stored, sameLength.symm ▸ holds.maxLen⟩
    have needed : neededSize (replaceRange text ed.selectionStart ed.selectionLength [])
            (ed.selected text).length = 4 * (text.length + 1) := by
      unfold neededSize
      omega
    obtain ⟨pasted, after, ran, verdict, left, restored⟩ :=
      editablePaste_whole fresh (ed.selecting ed.selectionStart 0) cutHolds
        writable rfl (by omega) rfl anyCharacter oneLine
        (by rw [chosen]; exact estimated) (fits.imp id less.trans)
        (fun _ => by rw [needed]; exact room.memory)
    rw [chosen] at ran left
    refine ⟨_, pasted, after, cut, rfl, ran, verdict, ?_, ?_⟩
    · rwa [Editable.selected, replaceRange_restore (by omega)] at restored
    · have behind : ((ed.selectionStart + ed.selectionLength : Nat) : Int) =
            max ed.pos (ed.pos + ed.sel) := by
        obtain ⟨_, _, _, _⟩ := valid
        unfold Editable.selectionStart Editable.selectionLength
        omega
      rw [left, behind]
      rfl
  · refine ⟨_, editableCopy_selected cb holds valid nonempty memory, rfl, rfl, ?_⟩
    rw [chosen]

def wordField : Editable where
  multiline := false
  intOnly := false
  fltOnly := false
  excl := true
  noEmacs := false
  noLatin1 := false
  readonly := false
  disabled := false
  encoding := ascii "UTF-8"
  pos := 4
  sel := -3
  compose := 0

/-- The buffer of the text `aébc+`, bound to a variable of seven bytes -/
def wordBuffer : EditableBuffer where
  s := some [97, 0xe9, 98, 99, 43, 0]
  len := 5
  maxLen := 24
  reallocable := false
  infoSize := 7

theorem editableCut_editablePaste_word : ∃ cut pasted cells,
      editableCut .zeroed wordField wordBuffer { s := none, len := 0 } = .ok cut ∧
        editablePaste .zeroed (fun _ => 0) cut.ed cut.buf cut.cb = .ok pasted ∧
        pasted.buf.Holds cells [97, 0xe9, 98, 99, 43] ∧
        pasted.ed = { wordField with pos := 4, sel := 0 } := by
  have holds : wordBuffer.Holds [97, 0xe9, 98, 99, 43, 0] [97, 0xe9, 98, 99, 43] :=
    ⟨rfl, rfl, List.prefix_rfl, by decide⟩
  have valid : wordField.ValidSelection 5 := by constructor <;> decide
  have room : HasRoom .zeroed wordField wordBuffer [97, 0xe9, 98, 99, 43] :=
    ⟨⟨7, by decide, .inr (by decide)⟩, by decide⟩
  obtain ⟨cut, pasted, cells, cuts, -, pastes, -, restored, left⟩ :=
    (@editableCut_editablePaste .zeroed .zeroed (fun _ => 0) wordField
      wordBuffer { s := none, len := 0 } _ _ holds valid (by decide)
      (by decide)).1 rfl ⟨rfl, rfl⟩ (.inr (by decide)) room
  exact ⟨cut, pasted, cells, cuts, pastes, restored, left⟩

end Agar.Gui
