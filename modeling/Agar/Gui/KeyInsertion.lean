import Agar.Gui.EditableClipboard
import Agar.Gui.EditableKeys

namespace Agar.Gui

open Agar.Lib
open Agar.Core

/-!
# Characters that are typed

`Insert` replaces the selection of a text by the characters that it is to
insert, or deletes the selection only, where there is no room for them.
-/

section

variable {ed : Editable} {buf : EditableBuffer} {s text : List UInt32}

theorem growBuffer_total (growth : Allocation) (fresh : Nat → UInt32) (ed : Editable)
    {ins new : List UInt32} (nIns : Nat) (holds : buf.Holds s text)
    (inserted : HoldsText 0 ins new) :
    (∃ error, growBuffer growth fresh ed buf ins nIns = .ok (.error error)) ∨ ∃ cells maxLen,
        growBuffer growth fresh ed buf ins nIns =
            .ok (.ok { buf with s := some cells, maxLen := maxLen }) ∧
          maxLen ≤ 4 * cells.length ∧
          text.length + nIns < cells.length ∧
          HoldsText 0 cells text := by
  cases estimated : ed.estimate text new nIns with
  | none =>
    refine .inl ⟨.badCharacter, ?_⟩
    unfold growBuffer
    simp only [holds.memory, pointee, Option.elim, ok_bind,
      convertedLength_stored holds inserted, estimated]
    rfl
  | some convLen =>
    by_cases fits : buf.reallocable = true ∨ convLen ≤ buf.infoSize
    case neg =>
      refine .inl ⟨.tooLong convLen buf.infoSize, ?_⟩
      have tooLong : buf.reallocable = false ∧ buf.infoSize < convLen := by
        rw [not_or, Bool.not_eq_true, Nat.not_le] at fits
        exact fits
      unfold growBuffer
      simp only [holds.memory, pointee, Option.elim, ok_bind,
        convertedLength_stored holds inserted, estimated, if_pos tooLong]
      rfl
    by_cases granted : buf.maxLen < neededSize text nIns →
          growth.grants (neededSize text nIns) = true
    case pos => exact .inr (growBuffer_stored fresh holds inserted estimated fits granted)
    obtain ⟨more, refused⟩ := Classical.not_imp.mp granted
    unfold neededSize at more refused
    have fitting : ¬ (buf.reallocable = false ∧ buf.infoSize < convLen) := by
      rcases fits with reallocable | small
      · simp [reallocable]
      · omega
    refine .inl ⟨.outOfMemory, ?_⟩
    unfold growBuffer
    simp only [holds.memory, pointee, Option.elim, ok_bind,
      convertedLength_stored holds inserted, estimated, if_neg fitting,
      holds.len, if_pos more, if_neg refused]
    rfl

theorem insertCells_eq_pasteCells {new : List UInt32} (low : 0 ≤ ed.pos) (high : ed.pos ≤ buf.len) :
    insertCells ed buf new = pasteCells ed buf new := by
  have placed : ∀ cells, placeCells ed buf cells new =
        makeRoom ed buf cells new.length >>= fun moved =>
          inBounds (copyCells? moved ed.pos new) := by
    intro cells
    unfold placeCells makeRoom
    by_cases atEnd : ed.pos = buf.len
    · rw [if_pos atEnd, if_neg (by omega), atEnd]
      rfl
    · rw [if_neg atEnd, if_pos (by omega)]
  unfold insertCells pasteCells
  simp only [placed, bind_assoc]

theorem insertCells_total {start : Nat} (growth : Allocation) (fresh : Nat → UInt32)
    (holds : buf.Holds s text) (cursor : ed.pos = start) (inside : start ≤ text.length)
    (ins : List UInt32) :
    (∃ error, growBuffer growth fresh ed buf (ins ++ [0]) ins.length = .ok (.error error)) ∨
      ∃ grown buf' cells, growBuffer growth fresh ed buf (ins ++ [0]) ins.length = .ok (.ok grown) ∧
          insertCells ed grown ins = .ok ({ ed with pos := (start + ins.length : Nat) }, buf') ∧
          buf'.Holds cells (replaceRange text start 0 ins) := by
  rcases growBuffer_total growth fresh ed ins.length holds
      (List.prefix_rfl : ins ++ [0] <+: ins ++ [0]) with
    refused | ⟨room, maxLen, grew, bound, fits, stored⟩
  case inl => exact .inl refused
  obtain ⟨cells, put, sameLength, typed⟩ :=
    @pasteCells_stored ed { buf with s := some room, maxLen := maxLen } room
      text start rfl holds.len stored cursor inside ins fits
  have length : (replaceRange text start 0 ins).length + 0 = text.length + ins.length :=
    @length_replaceRange _ _ _ 0 inside ins
  have high : ed.pos ≤ buf.len := by
    rw [cursor, holds.len]
    exact Int.ofNat_le.mpr inside
  have low : 0 ≤ ed.pos := by
    rw [cursor]
    exact Int.natCast_nonneg start
  have inserted : insertCells ed { buf with s := some room, maxLen := maxLen } ins = _ :=
    insertCells_eq_pasteCells low high
  exact .inr ⟨_, _, cells, grew, inserted.trans put, rfl, length.symm, typed,
    sameLength.symm ▸ bound⟩

/-- The text without the selection -/
def Editable.unselected (ed : Editable) (text : List UInt32) : List UInt32 :=
  replaceRange text ed.selectionStart ed.selectionLength []

theorem deleteSelected_total (holds : buf.Holds s text) (writable : ed.readOnly = false)
    (valid : ed.ValidSelection text.length) :
    ∃ cells len, deleteSelected ed buf = .ok (ed.selecting ed.selectionStart 0,
            { buf with s := some cells, len := len }) ∧
        EditableBuffer.Holds { buf with s := some cells, len := len } cells
          (ed.unselected text) := by
  have length : (ed.unselected text).length = text.length - ed.selectionLength := by
    have whole := @length_replaceRange _ text _ _ valid.inside []
    rw [List.length_nil] at whole
    unfold Editable.unselected
    omega
  by_cases selected : ed.sel = 0
  · have nothing : ed.selectionLength = 0 := by
      rw [Editable.selectionLength, selected]
      rfl
    have same : ed.selecting ed.selectionStart 0 = ed := by
      obtain ⟨low, -, -, -⟩ := valid
      unfold Editable.selecting Editable.selectionStart
      rw [selected, Int.add_zero, min_self, Int.toNat_of_nonneg low, Int.natCast_zero, ← selected]
    refine ⟨s, buf.len, ?_, rfl, ?_, ?_, holds.maxLen⟩
    · unfold deleteSelected
      rw [if_neg (not_not_intro selected), same, ← holds.memory]
      rfl
    · rw [length, nothing]
      exact holds.len
    · rw [Editable.unselected, nothing, replaceRange, List.append_nil,
        Nat.add_zero, List.take_append_drop]
      exact holds.stored
  · obtain ⟨cells, deleted, sameLength, stored⟩ :=
      editableDelete_selected ed holds writable valid selected
    refine ⟨cells, text.length - ed.selectionLength, ?_, rfl, ?_, stored,
      sameLength.symm ▸ holds.maxLen⟩
    · unfold deleteSelected
      rw [if_pos selected, deleted]
      rfl
    · exact length.symm

/-! ## Typing -/

/-- A field can be typed into, and its buffer holds a text. -/
structure Typable (ed : Editable) (buf : EditableBuffer) (text : List UInt32) : Prop where
  holds : ∃ s, buf.Holds s text
  writable : ed.readOnly = false
  valid : ed.ValidSelection text.length

/-- The text after characters were typed, which replace the selection -/
def Editable.typed (ed : Editable) (text ins : List UInt32) : List UInt32 :=
  if ins = [] then text else replaceRange text ed.selectionStart ed.selectionLength ins

/-- The field with the cursor behind characters that were typed -/
def Editable.behind (ed : Editable) (ins : List UInt32) (compose : UInt32) : Editable :=
  if ins = [] then { ed with compose := compose }
  else
    { ed with pos := (ed.selectionStart + ins.length : Nat), sel := 0, compose := compose }

theorem replaceRange_unselected {ins : List UInt32} (valid : ed.ValidSelection text.length) :
    replaceRange (ed.unselected text) ed.selectionStart 0 ins =
      replaceRange text ed.selectionStart ed.selectionLength ins := by
  have start : ed.selectionStart ≤ text.length := by
    have inside := valid.inside
    omega
  exact replaceRange_append start ed.selectionLength [] ins

theorem typed_behind (valid : ed.ValidSelection text.length) (first second : List UInt32)
    (compose : UInt32) :
    (ed.behind first compose).typed (ed.typed text first) second =
      ed.typed text (first ++ second) := by
  have start : ed.selectionStart ≤ text.length := by
    have inside := valid.inside
    omega
  by_cases noFirst : first = []
  · rw [noFirst, List.nil_append]
    exact rfl
  by_cases noSecond : second = []
  · rw [Editable.typed, if_pos noSecond, noSecond, List.append_nil]
  have some : first ++ second ≠ [] := List.append_ne_nil_of_left_ne_nil noFirst second
  have cursor : Editable.selectionStart
          { ed with
            pos := (ed.selectionStart + first.length : Nat)
            sel := 0
            compose := compose } =
        ed.selectionStart + first.length := by
    rw [Editable.selectionStart, Int.add_zero, min_self, Int.toNat_natCast]
  rw [Editable.typed, if_neg noSecond, Editable.behind, if_neg noFirst, cursor,
    Editable.typed, if_neg noFirst, Editable.typed, if_neg some,
    ← replaceRange_append start]
  exact rfl

/-- What `Insert` does with the characters that it found, if any -/
def insertText (requests : Requests) (ed : Editable) (buf : EditableBuffer)
    (ins : List UInt32) : Except Stop (Verdict × Editable × EditableBuffer) := do
  let (ed, buf) ← deleteSelected ed buf
  match ← growBuffer requests.growth requests.fresh ed buf (ins ++ [0]) ins.length with
  | .error error => return (.failed error, ed, buf)
  | .ok buf =>
    let (ed, buf) ← insertCells ed buf ins
    return (.done, ed, buf)

theorem insertText_total {ins : List UInt32} (requests : Requests) (typable : Typable ed buf text)
    (some : ins ≠ []) :
    ∃ verdict ed' buf' text', insertText requests ed buf ins = .ok (verdict, ed', buf') ∧
        Typable ed' buf' text' ∧ ((∃ error, verdict = .failed error) ∨
          ed' = ed.behind ins ed.compose ∧ text' = ed.typed text ins) := by
  obtain ⟨⟨s, holds⟩, writable, valid⟩ := typable
  obtain ⟨rest, len, ran, restHolds⟩ := deleteSelected_total holds writable valid
  have inside : ed.selectionStart ≤ (ed.unselected text).length := by
    have whole := @length_replaceRange _ text _ _ valid.inside []
    have room := valid.inside
    rw [List.length_nil] at whole
    unfold Editable.unselected
    omega
  unfold insertText
  rw [ran, ok_bind]
  dsimp only
  have cursor : (ed.selecting ed.selectionStart 0).pos = ed.selectionStart := rfl
  rcases insertCells_total requests.growth requests.fresh restHolds cursor inside ins with
    ⟨error, refused⟩ | ⟨grown, buf', cells, grew, put, typed⟩
  · refine ⟨.failed error, ed.selecting ed.selectionStart 0, _,
      ed.unselected text, ?_, ⟨⟨rest, restHolds⟩, writable, ?_⟩,
      .inl ⟨error, rfl⟩⟩
    · rw [refused]
      exact rfl
    · unfold Editable.selecting
      constructor <;> dsimp only <;> omega
  · have typedText : ed.typed text ins =
          replaceRange (ed.unselected text) ed.selectionStart 0 ins := by
      rw [replaceRange_unselected valid, Editable.typed, if_neg some]
    have length : (replaceRange (ed.unselected text) ed.selectionStart 0 ins).length + 0 =
          (ed.unselected text).length + ins.length :=
      @length_replaceRange _ _ _ 0 inside ins
    rw [← typedText] at length typed
    refine ⟨.done, ed.behind ins ed.compose, buf', ed.typed text ins, ?_,
      ⟨⟨cells, typed⟩, ?_, ?_⟩, .inr ⟨rfl, rfl⟩⟩
    · rw [grew, ok_bind]
      dsimp only
      rw [put, ok_bind, Editable.behind, if_neg some]
      exact rfl
    · rw [Editable.behind, if_neg some]
      exact writable
    · rw [Editable.behind, if_neg some]
      constructor <;> dsimp only <;> omega

theorem insertKey_total (requests : Requests) (tables : KeyTables) (stroke : Stroke)
    (typable : Typable ed buf text) :
    ∃ verdict ed' buf' text', insertKey requests tables ed buf stroke = .ok (verdict, ed', buf') ∧
        Typable ed' buf' text' ∧
        ((∃ error, verdict = .failed error) ∨ ed' = ed.behind (insertedChars tables ed stroke).1
                (insertedChars tables ed stroke).2 ∧
            text' = ed.typed text (insertedChars tables ed stroke).1) := by
  have ran : insertKey requests tables ed buf stroke =
        if (insertedChars tables ed stroke).1 = [] then
          .ok (.ignored, { ed with compose := (insertedChars tables ed stroke).2 }, buf)
        else
          insertText requests
            { ed with compose := (insertedChars tables ed stroke).2 } buf
            (insertedChars tables ed stroke).1 :=
    rfl
  rw [ran]
  generalize (insertedChars tables ed stroke).1 = ins
  generalize (insertedChars tables ed stroke).2 = compose
  have composing : Typable { ed with compose := compose } buf text := by
    obtain ⟨holds, writable, valid⟩ := typable
    exact ⟨holds, writable, ⟨valid.pos_nonneg, valid.pos_le, valid.end_nonneg, valid.end_le⟩⟩
  by_cases nothing : ins = []
  · rw [if_pos nothing]
    refine ⟨_, _, buf, text, rfl, composing, .inr ⟨?_, ?_⟩⟩
    · exact (if_pos nothing).symm
    · exact (if_pos nothing).symm
  · rw [if_neg nothing]
    obtain ⟨verdict, ed', buf', text', ended, typable', failed | done⟩ :=
      insertText_total requests composing nothing
    · exact ⟨verdict, ed', buf', text', ended, typable', .inl failed⟩
    · refine ⟨verdict, ed', buf', text', ended, typable', .inr ⟨?_, done.2⟩⟩
      rw [done.1, Editable.behind, Editable.behind, if_neg nothing, if_neg nothing]
      exact rfl

end

end Agar.Gui
