import Agar.Gui.EditableClipboard
import Agar.Gui.EditableKeys

namespace Agar.Gui

open Agar.Lib
open Agar.Core

/-!
# What the functions of keys do to a field

Every function that edits clears the selection where it is tried.  Without a
selection, an edit that fails changes nothing, and of one that is done it is
said when the cursor and the characters are the ones from before.
-/

/-! ## Buffers in memory -/

/-- The characters of a working buffer -/
def EditableBuffer.contents (buf : EditableBuffer) : Option (List UInt32) :=
  buf.s.map fun s => s.take buf.len

/-- A buffer has memory for its characters and a terminator. -/
def EditableBuffer.Backed (buf : EditableBuffer) : Prop := ∃ s, buf.s = some s ∧ buf.len < s.length

/-- What a field's text is read by is the same in another state of the field. -/
structure Editable.Steered (ed ed' : Editable) : Prop where
  excl : ed'.excl = ed.excl
  encoding : ed'.encoding = ed.encoding
  readonly : ed'.readonly = ed.readonly
  disabled : ed'.disabled = ed.disabled

section

variable {ed ed' : Editable} {buf buf' : EditableBuffer} {cb : EditableClipboard}
  {verdict : Verdict}

theorem Editable.Steered.trans {ed'' : Editable} (first : ed.Steered ed')
    (second : ed'.Steered ed'') : ed.Steered ed'' :=
  ⟨second.excl.trans first.excl, second.encoding.trans first.encoding,
    second.readonly.trans first.readonly,
    second.disabled.trans first.disabled⟩

theorem Editable.Steered.readOnly (steered : ed.Steered ed') : ed'.readOnly = ed.readOnly := by
  rw [Editable.readOnly, Editable.readOnly, steered.readonly, steered.disabled]

theorem Editable.Steered.steer (steered : ed.Steered ed') (pos sel : Int) (compose : UInt32) :
    ed.Steered { ed' with pos := pos, sel := sel, compose := compose } :=
  ⟨steered.excl, steered.encoding, steered.readonly, steered.disabled⟩

theorem Editable.Steered.refl (ed : Editable) : ed.Steered ed := ⟨rfl, rfl, rfl, rfl⟩

theorem EditableBuffer.contents_ne (backed : buf.Backed) (backed' : buf'.Backed)
    (longer : buf'.len ≠ buf.len) : buf'.contents ≠ buf.contents := by
  obtain ⟨s, memory, inside⟩ := backed
  obtain ⟨s', memory', inside'⟩ := backed'
  intro same
  rw [contents, contents, memory, memory', Option.map_some, Option.map_some,
    Option.some.injEq] at same
  have lengths := congrArg List.length same
  rw [List.length_take, List.length_take] at lengths
  omega

theorem inBounds_eq_ok {cells : Option (List UInt32)} {s : List UInt32} :
    inBounds cells = .ok s ↔ cells = some s := by
  cases cells <;> simp [inBounds]

theorem pointee_eq_ok {cells : Option (List UInt32)} {s : List UInt32} :
    pointee cells = .ok s ↔ cells = some s := by
  cases cells <;> simp [pointee]

/-! ## Deleting the selection -/

theorem validateSelection_steered (ed : Editable) (buf : EditableBuffer) :
    ed.Steered (ed.validateSelection buf) := by
  unfold Editable.validateSelection
  constructor <;> dsimp only <;> split_ifs <;> rfl

theorem normSelection_steered (ed : Editable) : ed.Steered ed.normSelection := by
  unfold Editable.normSelection
  constructor <;> split_ifs <;> rfl

theorem editableDelete_ok (deleted : editableDelete ed buf = .ok (verdict, ed', buf'))
    (writable : ed.readOnly = false) (selected : ed.sel ≠ 0) : ed.Steered ed' ∧ ed'.sel = 0 := by
  unfold editableDelete at deleted
  rw [if_neg (by simp [writable, selected])] at deleted
  simp only [bind_eq_ok, pure_eq_ok] at deleted
  obtain ⟨s, -, moved, -, result⟩ := deleted
  cases result
  have steered :=
    (validateSelection_steered ed buf).trans (normSelection_steered (ed.validateSelection buf))
  exact ⟨steered.steer _ _ _, rfl⟩

theorem editableDelete_nothing (nothing : ed.readOnly = true ∨ ed.sel = 0) :
    editableDelete ed buf = .ok (.ignored, ed, buf) := by
  unfold editableDelete
  rw [if_pos nothing]
  rfl

theorem editableDelete_cleared (deleted : editableDelete ed buf = .ok (verdict, ed', buf'))
    (writable : ed.readOnly = false) : ed.Steered ed' ∧ ed'.sel = 0 := by
  by_cases selected : ed.sel = 0
  · rw [editableDelete_nothing (.inr selected)] at deleted
    cases deleted
    exact ⟨.refl _, selected⟩
  · exact editableDelete_ok deleted writable selected

theorem editableDelete_behind (deleted : editableDelete ed buf = .ok (verdict, ed', buf'))
    (writable : ed.readOnly = false) (valid : ed.ValidSelection buf.len) (behind : 0 < ed.sel)
    (backed : buf.Backed) : ed'.pos = ed.pos ∧ buf'.Backed ∧ buf'.len < buf.len := by
  obtain ⟨s, memory, inside⟩ := backed
  have start : (ed.selectionStart : Int) = ed.pos := by
    have := valid.pos_nonneg
    unfold Editable.selectionStart
    omega
  have bound := valid.inside
  have count : (ed.selectionLength : Int) = ed.sel := by
    unfold Editable.selectionLength
    omega
  unfold editableDelete at deleted
  rw [if_neg (by simp [writable]; omega)] at deleted
  simp only [valid.validate, valid.norm, memory, bind_eq_ok, pure_eq_ok,
    Editable.selecting, start, count] at deleted
  obtain ⟨_, pointed, moved, ran, result⟩ := deleted
  cases pointee_eq_ok.mp pointed
  cases result
  have length : moved.length = s.length := by
    rw [inBounds_eq_ok] at ran
    split at ran
    · exact length_of_copyCells? ran
    · exact length_of_moveCells? ran
  refine ⟨rfl, ⟨moved, rfl, ?_⟩, ?_⟩
  · simp only
    omega
  · simp only
    omega

theorem deleteSelected_ok (deleted : deleteSelected ed buf = .ok (ed', buf'))
    (writable : ed.readOnly = false) :
    ed.Steered ed' ∧ ed'.sel = 0 ∧ (ed.sel = 0 → ed' = ed ∧ buf' = buf) := by
  unfold deleteSelected at deleted
  split at deleted
  case isTrue selected =>
    simp only [bind_eq_ok, pure_eq_ok] at deleted
    obtain ⟨⟨verdict, _, _⟩, ran, result⟩ := deleted
    cases result
    obtain ⟨steered, cleared⟩ := editableDelete_ok ran writable selected
    exact ⟨steered, cleared, fun unselected => absurd unselected selected⟩
  case isFalse unselected =>
    rw [pure_eq_ok] at deleted
    cases deleted
    exact ⟨.refl _, not_not.mp unselected, fun _ => ⟨rfl, rfl⟩⟩

/-! ## Putting characters in -/

theorem growBuffer_ok {growth : Allocation} {fresh : Nat → UInt32} {ins : List UInt32} {nIns : Nat}
    (grown : growBuffer growth fresh ed buf ins nIns = .ok (.ok buf')) (backed : buf.Backed) :
    buf'.Backed ∧ buf'.len = buf.len ∧ buf'.contents = buf.contents := by
  have whole := backed
  obtain ⟨s, memory, inside⟩ := backed
  simp only [growBuffer, memory, pointee, Option.elim, ok_bind, bind_eq_ok] at grown
  obtain ⟨estimate, -, grown⟩ := grown
  cases estimate with
  | none => cases pure_eq_ok.mp grown
  | some convLen =>
    simp only at grown
    split_ifs at grown
    · cases pure_eq_ok.mp grown
    · cases pure_eq_ok.mp grown
      refine ⟨⟨_, rfl, ?_⟩, rfl, ?_⟩
      · rw [length_resize]
        simp only
        omega
      · simp only [EditableBuffer.contents, memory, Option.map_some, resize]
        rw [List.take_append_of_le_length (by rw [List.length_take]; omega),
          List.take_take, Nat.min_eq_left (by omega)]
    · cases pure_eq_ok.mp grown
    · cases pure_eq_ok.mp grown
      exact ⟨whole, rfl, rfl⟩

/-- What putting characters at the cursor does, in memory that is large enough -/
structure PutIn (ed : Editable) (buf : EditableBuffer) (count : Nat) (ed' : Editable)
    (buf' : EditableBuffer) : Prop where
  ed : ed' = { ed with pos := ed.pos + count }
  backed : buf'.Backed
  len : buf'.len = buf.len + count
  nothing : count = 0 → buf'.contents = buf.contents

theorem makeRoom_ok {s moved : List UInt32} {count : Nat}
    (ran : makeRoom ed buf s count = .ok moved) :
    moved.length = s.length ∧ (count = 0 → moved = s) := by
  unfold makeRoom at ran
  split at ran
  case isTrue =>
    rw [inBounds_eq_ok] at ran
    refine ⟨length_of_moveCells? ran, fun nothing => ?_⟩
    rw [nothing, Nat.cast_zero, add_zero] at ran
    exact moveCells?_self ran
  case isFalse =>
    cases ran
    exact ⟨rfl, fun _ => rfl⟩

theorem pasteCells_ok {new : List UInt32} (pasted : pasteCells ed buf new = .ok (ed', buf'))
    (backed : buf.Backed) : PutIn ed buf new.length ed' buf' := by
  obtain ⟨s, memory, inside⟩ := backed
  simp only [pasteCells, memory, pointee, Option.elim, ok_bind, bind_eq_ok,
    pure_eq_ok, inBounds_eq_ok] at pasted
  obtain ⟨moved, roomy, filled, copied, after, ended, result⟩ := pasted
  cases result
  obtain ⟨movedLength, unmoved⟩ := makeRoom_ok roomy
  have bound := (copyCells?_eq_some.mp ended).1.2
  rw [List.length_singleton] at bound
  refine ⟨rfl, ⟨after, rfl, ?_⟩, rfl, fun nothing => ?_⟩
  · rw [length_of_copyCells? ended]
    simp only
    omega
  · obtain rfl := List.eq_nil_of_length_eq_zero nothing
    have kept := take_of_copyCells? ended
    obtain ⟨-, same⟩ := copyCells?_eq_some.mp copied
    rw [splice_nil] at same
    rw [← same, unmoved rfl] at kept
    simp only [EditableBuffer.contents, memory, Option.map_some]
    exact congrArg some kept

theorem insertCells_ok {new : List UInt32} (inserted : insertCells ed buf new = .ok (ed', buf'))
    (backed : buf.Backed) (nonempty : new ≠ []) : PutIn ed buf new.length ed' buf' := by
  obtain ⟨s, memory, inside⟩ := backed
  simp only [insertCells, memory, pointee, Option.elim, ok_bind, bind_eq_ok,
    pure_eq_ok, inBounds_eq_ok] at inserted
  obtain ⟨placed, -, after, ended, result⟩ := inserted
  cases result
  have bound := (copyCells?_eq_some.mp ended).1.2
  rw [List.length_singleton] at bound
  refine ⟨rfl, ⟨after, rfl, ?_⟩, rfl, fun nothing => ?_⟩
  · rw [length_of_copyCells? ended]
    simp only
    omega
  · exact absurd (List.eq_nil_of_length_eq_zero nothing) nonempty

/-! ## What the functions of keys do -/

/-- A cursor as it is, or brought into a text of a length -/
def EnteredAt (pos start : Int) (len : Nat) : Prop :=
  start = pos ∨ pos < 0 ∧ start = 0 ∨ (len : Int) < pos ∧ start = len

/-- The cursor is where it was behind `count` characters, none if they are kept. -/
def Unmoved (ed : Editable) (count : Nat) (pos : Int) : Prop :=
  ed.pos + count = pos ∧ (ed.excl = true → count = 0)

/--
An edit that is tried clears the selection.  Where there is none, an edit that
fails changes nothing, and one that is done leaves the cursor at `pos`, and the
characters of a buffer that is kept, exactly where it `stays`.
-/
structure Edits (ed : Editable) (buf : EditableBuffer) (verdict : Verdict) (ed' : Editable)
    (buf' : EditableBuffer) (stays : Int → Prop) : Prop where
  steered : verdict ≠ .ignored → ed.Steered ed'
  cleared : verdict ≠ .ignored → ed'.sel = 0
  failed : ∀ error, verdict = .failed error → ed.sel = 0 → ed'.pos = ed.pos ∧ buf' = buf
  done : verdict = .done → ed.sel = 0 → ∀ pos, EnteredAt pos ed.pos buf.len → (ed'.pos = pos ∧
                (ed.excl = true → buf'.contents = buf.contents) ↔
              stays pos)

variable {stays : Int → Prop} {pos : Int} {count : Nat}

theorem edits_ignored : Edits ed buf .ignored ed' buf' stays where
  steered tried := absurd rfl tried
  cleared tried := absurd rfl tried
  failed error fails := by cases fails
  done finished := by cases finished

theorem PutIn.stays_iff (putIn : PutIn ed buf count ed' buf') (backed : buf.Backed) :
    (ed'.pos = pos ∧ (ed.excl = true → buf'.contents = buf.contents) ↔ Unmoved ed count pos) := by
  rw [putIn.ed]
  refine and_congr Iff.rfl (imp_congr_right fun _ => ⟨fun same => ?_, putIn.nothing⟩)
  by_contra some
  refine EditableBuffer.contents_ne backed putIn.backed ?_ same
  rw [putIn.len]
  omega

/-- How many characters are pasted from a clipboard -/
def EditableClipboard.pasted (cb : EditableClipboard) : Nat :=
  if cb.s = none then 0 else cb.len

theorem length_of_readCells {cells new : List UInt32} {start : Int}
    (read : readCells cells start count = .ok new) : new.length = count := by
  unfold readCells at read
  split at read
  case isTrue inside =>
    cases read
    exact length_rangeOf (by omega)
  case isFalse => cases read

section Putting

variable {ed₁ ed₂ : Editable} {buf₁ grown buf₂ : EditableBuffer} {growth : Allocation}
  {fresh : Nat → UInt32}

theorem edits_failed (deleted : deleteSelected ed buf = .ok (ed₁, buf₁))
    (writable : ed.readOnly = false) (error : EditError) :
    Edits ed buf (.failed error) ed₁ buf₁ stays := by
  obtain ⟨steered, cleared, kept⟩ := deleteSelected_ok deleted writable
  refine ⟨fun _ => steered, fun _ => cleared, ?_, nofun⟩
  rintro error - unselected
  obtain ⟨rfl, rfl⟩ := kept unselected
  exact ⟨rfl, rfl⟩

theorem edits_putIn {ins : List UInt32} {nIns : Nat} (backed : buf.Backed)
    (deleted : deleteSelected ed buf = .ok (ed₁, buf₁)) (writable : ed.readOnly = false)
    (grew : growBuffer growth fresh ed₁ buf₁ ins nIns = .ok (.ok grown))
    (moved : ed₂ = { ed₁ with pos := ed₁.pos + count })
    (put : grown.Backed → PutIn ed₁ grown count ed₂ buf₂) :
    Edits ed buf .done ed₂ buf₂ (Unmoved ed count) := by
  obtain ⟨steered, cleared, kept⟩ := deleteSelected_ok deleted writable
  refine ⟨fun _ => ?_, fun _ => ?_, nofun, fun _ unselected pos _ => ?_⟩
  · rw [moved]
    exact steered.steer _ _ _
  · rw [moved]
    exact cleared
  · obtain ⟨rfl, rfl⟩ := kept unselected
    obtain ⟨backedGrown, sameLen, sameContents⟩ := growBuffer_ok grew backed
    have putIn := put backedGrown
    refine PutIn.stays_iff ⟨putIn.ed, putIn.backed, ?_, fun nothing => ?_⟩ backed
    · rw [putIn.len, sameLen]
    · rw [putIn.nothing nothing, sameContents]

theorem pasteCells_ed {new : List UInt32} (pasted : pasteCells ed buf new = .ok (ed', buf')) :
    ed' = { ed with pos := ed.pos + new.length } := by
  simp only [pasteCells, bind_eq_ok, pure_eq_ok] at pasted
  obtain ⟨_, -, _, -, _, -, _, -, result⟩ := pasted
  cases result
  rfl

theorem insertCells_ed {new : List UInt32} (inserted : insertCells ed buf new = .ok (ed', buf')) :
    ed' = { ed with pos := ed.pos + new.length } := by
  simp only [insertCells, bind_eq_ok, pure_eq_ok] at inserted
  obtain ⟨_, -, _, -, _, -, result⟩ := inserted
  cases result
  rfl

theorem editablePaste_edits {edited : Edited}
    (pasted : editablePaste growth fresh ed buf cb = .ok edited) (backed : buf.Backed) :
    Edits ed buf edited.verdict edited.ed edited.buf (Unmoved ed cb.pasted) := by
  unfold editablePaste at pasted
  split at pasted
  case isTrue =>
    cases pure_eq_ok.mp pasted
    exact edits_ignored
  case isFalse writable =>
    rw [Bool.not_eq_true] at writable
    simp only [bind_eq_ok] at pasted
    obtain ⟨⟨ed₁, buf₁⟩, deleted, pasted⟩ := pasted
    simp only at pasted
    split at pasted
    case h_1 nothing =>
      cases pure_eq_ok.mp pasted
      obtain ⟨steered, cleared, kept⟩ := deleteSelected_ok deleted writable
      refine ⟨fun _ => steered, fun _ => cleared, nofun, fun _ unselected => ?_⟩
      obtain ⟨rfl, rfl⟩ := kept unselected
      simp [Unmoved, EditableClipboard.pasted, nothing]
    case h_2 s memory =>
      have whole : cb.pasted = cb.len := if_neg (by simp [memory])
      simp only [bind_eq_ok] at pasted
      obtain ⟨lines, -, refused, -, pasted⟩ := pasted
      cases refused with
      | some error =>
        cases pure_eq_ok.mp pasted
        exact edits_failed deleted writable error
      | none =>
        simp only [bind_eq_ok] at pasted
        obtain ⟨grown, grew, pasted⟩ := pasted
        cases grown with
        | error error =>
          cases pure_eq_ok.mp pasted
          exact edits_failed deleted writable error
        | ok grown =>
          simp only [bind_eq_ok, pure_eq_ok] at pasted
          obtain ⟨new, read, ⟨ed₂, buf₂⟩, put, result⟩ := pasted
          cases result
          rw [whole, ← length_of_readCells read]
          exact edits_putIn backed deleted writable grew (pasteCells_ed put) (pasteCells_ok put)

theorem insertKey_edits {requests : Requests} {tables : KeyTables} {stroke : Stroke}
    (inserted : insertKey requests tables ed buf stroke = .ok (verdict, ed', buf'))
    (writable : ed.readOnly = false) (backed : buf.Backed) :
    Edits ed buf verdict ed' buf' (Unmoved ed (insertedChars tables ed stroke).1.length) := by
  unfold insertKey at inserted
  generalize insertedChars tables ed stroke = chars at *
  obtain ⟨ins, compose⟩ := chars
  simp only at inserted
  split at inserted
  case isTrue =>
    cases pure_eq_ok.mp inserted
    exact edits_ignored
  case isFalse nonempty =>
    have edits : Edits { ed with compose := compose } buf verdict ed' buf'
          (Unmoved { ed with compose := compose } ins.length) := by
      simp only [bind_eq_ok] at inserted
      obtain ⟨⟨ed₁, buf₁⟩, deleted, grown, grew, inserted⟩ := inserted
      cases grown with
      | error error =>
        cases pure_eq_ok.mp inserted
        exact edits_failed deleted writable error
      | ok grown =>
        simp only [bind_eq_ok, pure_eq_ok] at inserted
        obtain ⟨⟨ed₂, buf₂⟩, put, result⟩ := inserted
        cases result
        exact edits_putIn backed deleted writable grew (insertCells_ed put) fun grownBacked =>
            insertCells_ok put grownBacked nonempty
    exact ⟨fun tried =>
      ((Editable.Steered.refl ed).steer _ _ _).trans (edits.steered tried),
      edits.cleared, edits.failed, edits.done⟩

end Putting

/-- A key deletes the character behind the cursor, of a buffer that is not kept. -/
def Erased (ed : Editable) (len ks : Nat) (pos : Int) : Prop :=
  ed.excl = false ∧ ed.pos = pos ∧ ks ≠ keyBackspace ∧ ed.pos ≠ len

theorem length_of_shiftDown {cells shifted : List UInt32}
    (ran : shiftDown count cells = .ok shifted) : shifted.length = cells.length := by
  induction count generalizing cells shifted with
  | zero =>
    cases ran
    rfl
  | succ count ih =>
    match cells with
    | [] | [_] => cases ran
    | _ :: next :: rest =>
      rw [shiftDown] at ran
      split at ran
      case isTrue =>
        cases ran
        rfl
      case isFalse =>
        simp only [bind_eq_ok, pure_eq_ok] at ran
        obtain ⟨later, ran, rfl⟩ := ran
        rw [List.length_cons, ih ran]
        rfl

theorem deleteChar_ok {s : List UInt32} (deleted : deleteChar ed buf s = .ok (verdict, ed', buf'))
    (inside : buf.len < s.length) :
    verdict = .done ∧ ed' = ed ∧ buf'.Backed ∧ buf'.len = buf.len - 1 := by
  unfold deleteChar at deleted
  split at deleted
  case isTrue bounds =>
    simp only [bind_eq_ok, pure_eq_ok] at deleted
    obtain ⟨shifted, ran, result⟩ := deleted
    cases result
    refine ⟨rfl, rfl, ⟨_, rfl, ?_⟩, rfl⟩
    rw [List.length_append, length_of_shiftDown ran, List.length_take, List.length_drop]
    simp only
    omega
  case isFalse => cases deleted

theorem deleteKey_edits {ks : Nat} (deleted : deleteKey ed buf ks = .ok (verdict, ed', buf'))
    (writable : ed.readOnly = false) (backed : buf.Backed) :
    Edits ed buf verdict ed' buf' (Erased ed buf.len ks) := by
  have whole := backed
  obtain ⟨s, memory, inside⟩ := backed
  unfold deleteKey at deleted
  split at deleted
  case isTrue =>
    cases pure_eq_ok.mp deleted
    exact edits_ignored
  split at deleted
  case isTrue selected =>
    simp only [bind_eq_ok, pure_eq_ok] at deleted
    obtain ⟨⟨_, _, _⟩, ran, result⟩ := deleted
    cases result
    obtain ⟨steered, cleared⟩ := editableDelete_ok ran writable selected
    exact ⟨fun _ => steered, fun _ => cleared, nofun,
      fun _ unselected => absurd unselected selected⟩
  case isFalse nonempty unselected =>
  rw [not_not] at unselected
  split at deleted
  case isTrue =>
    cases pure_eq_ok.mp deleted
    exact edits_ignored
  case isFalse start =>
  rw [memory, pointee, Option.elim, ok_bind] at deleted
  split at deleted
  case isTrue last =>
    simp only [bind_eq_ok, pure_eq_ok] at deleted
    obtain ⟨_, -, result⟩ := deleted
    cases result
    refine ⟨fun _ => (Editable.Steered.refl ed).steer _ _ _,
      fun _ => unselected, nofun, fun _ _ pos entered => iff_of_false ?_ ?_⟩
    · rintro ⟨before, -⟩
      simp only at before
      unfold EnteredAt at entered
      omega
    · rintro ⟨-, -, -, notLast⟩
      exact notLast last
  case isFalse notLast =>
    obtain ⟨rfl, rfl, backed', shorter⟩ := deleteChar_ok deleted inside
    have differs : buf'.contents ≠ buf.contents :=
      EditableBuffer.contents_ne whole backed' (by omega)
    by_cases backspace : ks = keyBackspace
    · rw [if_pos backspace]
      refine ⟨fun _ => (Editable.Steered.refl ed).steer _ _ _,
        fun _ => unselected, nofun, fun _ _ pos entered => ?_⟩
      refine iff_of_false ?_ fun erased => erased.2.2.1 backspace
      rintro ⟨before, -⟩
      have notStart : ed.pos ≠ 0 := fun zero => start ⟨backspace, zero⟩
      simp only at before
      unfold EnteredAt at entered
      omega
    · rw [if_neg backspace]
      refine ⟨fun _ => .refl ed, fun _ => unselected, nofun, fun _ _ pos _ => ?_⟩
      simp only [Erased, differs, imp_false, Bool.not_eq_true, backspace,
        notLast, ne_eq, not_false_eq_true, and_true]
      exact and_comm

theorem editableCut_edits {chunk : Allocation} {edited : Edited}
    (cut : editableCut chunk ed buf cb = .ok edited) :
    Edits ed buf edited.verdict edited.ed edited.buf fun _ => False := by
  unfold editableCut at cut
  split at cut
  case isTrue =>
    cases pure_eq_ok.mp cut
    exact edits_ignored
  case isFalse something =>
    rw [not_or, Bool.not_eq_true] at something
    simp only [bind_eq_ok, pure_eq_ok] at cut
    obtain ⟨_, -, _, -, ⟨_, ed₁, buf₁⟩, deleted, result⟩ := cut
    cases result
    have steered :=
      (validateSelection_steered ed buf).trans (normSelection_steered (ed.validateSelection buf))
    obtain ⟨later, cleared⟩ := editableDelete_cleared deleted (steered.readOnly.trans something.1)
    exact ⟨fun _ => steered.trans later, fun _ => cleared, nofun,
      fun _ unselected => absurd unselected something.2⟩

/-- The rest of the line is killed unseen in a buffer that is not kept. -/
def Killed (ed : Editable) (pos : Int) : Prop := ed.excl = false ∧ ed.pos = pos

theorem killKey_edits {chunk : Allocation} {edited : Edited}
    (ran : killKey chunk ed buf cb = .ok edited) (writable : ed.readOnly = false)
    (backed : buf.Backed) : Edits ed buf edited.verdict edited.ed edited.buf (Killed ed) := by
  have whole := backed
  obtain ⟨s, memory, inside⟩ := backed
  simp only [killKey, bind_eq_ok] at ran
  obtain ⟨killed, chosen, ran⟩ := ran
  split at ran
  case isTrue =>
    cases pure_eq_ok.mp ran
    exact edits_ignored
  case isFalse something =>
    simp only [bind_eq_ok, pure_eq_ok] at ran
    obtain ⟨_, -, _, -, ⟨_, ed₁, buf₁⟩, deleted, result⟩ := ran
    cases result
    unfold killedSelection at chosen
    split at chosen
    case isTrue selected =>
      cases pure_eq_ok.mp chosen
      have steered :=
        (validateSelection_steered ed buf).trans (normSelection_steered (ed.validateSelection buf))
      obtain ⟨later, cleared⟩ := editableDelete_cleared deleted (steered.readOnly.trans writable)
      exact ⟨fun _ => steered.trans later, fun _ => cleared, nofun,
        fun _ unselected => absurd unselected selected⟩
    case isFalse unselected =>
      rw [not_not] at unselected
      simp only [memory, pointee, Option.elim, ok_bind, bind_eq_ok, pure_eq_ok] at chosen
      obtain ⟨behind, read, rfl⟩ := chosen
      have some : behind.takeWhile (· ≠ 10) ≠ [] := fun none =>
        something ⟨unselected, by simp only [none]; rfl⟩
      have fewer := (List.takeWhile_prefix (l := behind) (· ≠ 10)).length_le
      have nonempty := List.length_pos_of_ne_nil some
      rw [length_of_readCells read] at fewer
      have start : 0 ≤ ed.pos := by
        unfold readCells at read
        split at read
        case isTrue bounds => exact bounds.1
        case isFalse => cases read
      generalize (behind.takeWhile (· ≠ 10)).length = count at *
      have valid : ({ ed with sel := (count : Int) } : Editable).ValidSelection
            buf.len := by
        constructor <;> simp only <;> omega
      obtain ⟨samePos, backed', shorter⟩ :=
        editableDelete_behind deleted writable valid (Int.natCast_pos.mpr nonempty) whole
      obtain ⟨steered, cleared⟩ := editableDelete_cleared deleted writable
      have differs : buf₁.contents ≠ buf.contents :=
        EditableBuffer.contents_ne whole backed' (by omega)
      refine ⟨fun _ => ((Editable.Steered.refl ed).steer _ _ _).trans steered,
        fun _ => cleared, nofun, fun _ _ pos _ => ?_⟩
      simp only [samePos, differs, imp_false, Bool.not_eq_true, Killed]
      exact and_comm

end

end Agar.Gui
