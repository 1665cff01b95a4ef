import Agar.Gui.EditableEdits

namespace Agar.Gui

open Agar.Lib
open Agar.Core

/-!
# Edits that are refused

What is put into a text replaces the selection, which is deleted before there
is known to be room, and before the mode of the field is asked.  So where a
function refuses an edit, the document is as it was exactly if nothing was
selected and the cursor was in the text.
-/

/-! ## Documents -/

/-- The characters of a string, where they can be imported -/
def importedText (encoding : Encoding) (bytes : List UInt8) : Option (List UInt32) :=
  match importUnicode encoding .zeroed bytes with
  | .ok (some imported) => some (imported.ucs.take imported.outLen)
  | _ => none

/-- The characters of the variable that a field is bound to -/
def boundText (ed : Editable) : Binding → Option (List UInt32)
  | .text te => te.buf.elim (some []) (importedText .utf8)
  | .string data => importedText (encodingOf ed.encoding) data

namespace Field

/-- The working text: what the field keeps, and what it would import otherwise -/
def text (field : Field) : Option (List UInt32) :=
  match field.ed.excl, field.sBuf.contents with
  | true, some text => some text
  | _, _ => boundText field.ed field.binding

/-- The length of the working text -/
def length (field : Field) : Nat := (field.text.getD []).length

/-- A field's buffer has memory for its characters, and its cursor is an `int`. -/
structure WellFormed (field : Field) : Prop where
  backed : field.sBuf.s ≠ none → field.sBuf.Backed
  pos : field.ed.pos < 2 ^ 31

end Field

/-- What an edit that is refused should leave alone -/
structure Document where
  text : Option (List UInt32)
  bound : Binding
  pos : Int
  sel : Int
  deriving DecidableEq

/-- The document of a field -/
def Field.document (field : Field) : Document where
  text := field.text
  bound := field.binding
  pos := field.ed.pos
  sel := field.ed.sel

/-! ## Requests and refusals -/

/-- What asks for an edit -/
inductive EditRequest where
  | key (stroke : Stroke)
  | pasteItem
  deriving DecidableEq

/-- Do what is asked for. -/
def perform (requests : Requests) (tables : KeyTables) (seek : Seek)
    (field : Field) : EditRequest → Except Stop (Outcome × Field)
  | .key stroke => processKey requests tables seek field stroke
  | .pasteItem => menuPaste requests field

/-- Where an edit is refused -/
inductive Cause where
  /-- by the mode of the field, before it has a buffer -/
  | notTaken
  /-- where no buffer can be had -/
  | noBuffer
  /-- by a function: by the mode, for the size or for memory -/
  | edit
  /-- where there is no memory to store what was edited -/
  | storing
  deriving Repr, DecidableEq

/-- Where the edit was refused that ended so, if it was -/
def Outcome.cause : Outcome → Option Cause
  | .notTaken => some .notTaken
  | .noBuffer => some .noBuffer
  | .ran (.failed _) _ => some .edit
  | .ran .done (some .outOfMemory) => some .storing
  | .ran _ _ => none

/-- Where the cursor is when a function is called -/
def EditRequest.start (field : Field) : EditRequest → Int
  | .key _ => clampCursor field.ed.pos field.length
  | .pasteItem => field.ed.pos

/-- Where the function of a key, without a selection, leaves the cursor at `pos` -/
def Stays (tables : KeyTables) (field : Field) (ed : Editable) (length : Nat) (stroke : Stroke)
    (pos : Int) : KeyFunction → Prop
  | .paste => Unmoved ed field.clipbrd.pasted pos
  | .yank => Unmoved ed field.killring.pasted pos
  | .insert => Unmoved ed (insertedChars tables ed stroke).1.length pos
  | .delete => Erased ed length stroke.ks pos
  | .kill => Killed ed pos
  | _ => False

/-- The field with the cursor where it is when a function is called -/
def Field.entered (field : Field) (request : EditRequest) : Editable :=
  { field.ed with pos := request.start field }

/-- Where an edit that is done, without a selection, changes no document -/
def ChangesNothing (tables : KeyTables) (field : Field) : EditRequest → Prop
  | .pasteItem => Unmoved field.ed field.clipbrd.pasted field.ed.pos
  | .key stroke =>
    ∃ kc, keyCode stroke = some kc ∧
        Stays tables field (field.entered (.key stroke)) field.length stroke field.ed.pos kc.func

/--
The condition under which a refusal leaves the document: nothing is selected,
and the cursor is in the text; and where it is only the result that finds no
memory, the function would not have changed anything.
-/
def LeavesDocument (tables : KeyTables) (field : Field) (request : EditRequest) : Cause → Prop
  | .notTaken | .noBuffer => True
  | .edit => field.ed.sel = 0 ∧ request.start field = field.ed.pos
  | .storing => field.ed.sel = 0 ∧ ChangesNothing tables field request

/-! ## Importing -/

section

variable {requests : Requests} {tables : KeyTables} {seek : Seek} {field after : Field}
  {buf buf' : EditableBuffer} {ran : Ran} {outcome : Outcome} {cause : Cause}

theorem terminateUcs_ok {ucs : List UInt32} {size : Nat} {imported : Imported}
    (terminated : terminateUcs ucs size = .ok (some imported)) :
    imported.outLen < imported.ucs.length ∧ 4 * imported.ucs.length ≤ imported.outSize := by
  unfold terminateUcs storeUcs at terminated
  split at terminated
  case isTrue room =>
    cases terminated
    simp only [List.length_append, List.length_singleton]
    omega
  case isFalse => cases terminated

theorem zeroed_grants {allocation : Allocation} {size : Nat}
    (granted : allocation.grants size = true) : Allocation.zeroed.grants size = true := by
  have small := grants_lt granted
  simpa [Allocation.grants, Allocation.zeroed] using small

variable {encoding : Encoding} {bytes : List UInt8}

theorem importUnicode_some {allocation : Allocation} {imported : Imported}
    (done : importUnicode encoding allocation bytes = .ok (some imported)) :
    importUnicode encoding .zeroed bytes = .ok (some imported) ∧
      imported.outLen < imported.ucs.length ∧ 4 * imported.ucs.length ≤ imported.outSize := by
  unfold importUnicode at done ⊢
  cases encoding with
  | unknown => cases done
  | usAscii =>
    simp only at done ⊢
    split at done
    case isTrue granted =>
      rw [if_pos (zeroed_grants granted)]
      exact ⟨done, terminateUcs_ok done⟩
    case isFalse => cases done
  | utf8 =>
    simp only [bind_eq_ok] at done ⊢
    obtain ⟨length, counted, done⟩ := done
    cases length with
    | none => cases done
    | some utf8len =>
      simp only at done
      split at done
      case isTrue granted =>
        simp only [bind_eq_ok] at done
        obtain ⟨ucs, decoded, done⟩ := done
        cases ucs with
        | none => cases done
        | some ucs =>
          refine ⟨⟨_, counted, ?_⟩, terminateUcs_ok done⟩
          simp only [if_pos (zeroed_grants granted), bind_eq_ok]
          exact ⟨_, decoded, done⟩
      case isFalse => cases done

theorem importBuffer_got (got : importBuffer requests buf encoding bytes = .ok (true, buf')) :
    buf'.Backed ∧ buf'.contents = importedText encoding bytes := by
  simp only [importBuffer, bind_eq_ok] at got
  obtain ⟨result, imports, got⟩ := got
  cases result with
  | none => cases got
  | some imported =>
    cases got
    obtain ⟨zeroed, inside, size⟩ := importUnicode_some imports
    constructor
    · refine ⟨_, rfl, ?_⟩
      rw [length_resize]
      simp only
      omega
    · simp only [importedText, zeroed, EditableBuffer.contents, Option.map_some, resize]
      rw [List.take_append_of_le_length (by rw [List.length_take]; omega),
        List.take_take, Nat.min_eq_left (by omega)]

theorem importBuffer_none (none : importBuffer requests buf encoding bytes = .ok (false, buf')) :
    buf' = buf := by
  simp only [importBuffer, bind_eq_ok] at none
  obtain ⟨result, -, got⟩ := none
  cases result with
  | none =>
    cases got
    rfl
  | some imported => cases got

/-! ## The working buffer -/

/-- The buffer that `GetBuffer` starts with -/
def Field.startingBuffer (field : Field) : EditableBuffer :=
  if field.ed.excl then field.sBuf else newBuffer

variable {s : List UInt32}

theorem text_of_kept (kept : field.startingBuffer.s = some s) :
    field.text = field.startingBuffer.contents := by
  unfold Field.startingBuffer at *
  unfold Field.text
  cases exclusive : field.ed.excl with
  | false => simp [exclusive, newBuffer] at kept
  | true =>
    simp only [exclusive, if_true] at kept ⊢
    simp only [EditableBuffer.contents, kept, Option.map_some]

theorem text_of_missing (missing : field.startingBuffer.s = none) :
    field.text = boundText field.ed field.binding := by
  unfold Field.startingBuffer at missing
  unfold Field.text
  cases exclusive : field.ed.excl with
  | false => rfl
  | true =>
    rw [exclusive, if_pos rfl] at missing
    rw [EditableBuffer.contents, missing, Option.map_none]

theorem startingBuffer_backed (wellFormed : field.WellFormed)
    (kept : field.startingBuffer.s = some s) : field.startingBuffer.Backed := by
  unfold Field.startingBuffer at *
  split at kept
  case isTrue exclusive =>
    rw [if_pos exclusive]
    exact wellFormed.backed (by rw [kept]; exact Option.some_ne_none s)
  case isFalse => cases kept

theorem getBuffer_got (wellFormed : field.WellFormed)
    (got : getBuffer requests field = .ok (true, buf)) :
    buf.Backed ∧ buf.contents = field.text := by
  unfold getBuffer at got
  split at got
  case isTrue => cases got
  case isFalse =>
    rw [show (if field.ed.excl then field.sBuf else newBuffer) =
      field.startingBuffer from rfl] at got
    cases kept : field.startingBuffer.s with
    | some s =>
      have backed := startingBuffer_backed wellFormed kept
      rw [text_of_kept kept]
      cases bound : field.binding with
      | text te =>
        simp only [bound, kept] at got
        cases got
        obtain ⟨s, memory, inside⟩ := backed
        exact ⟨⟨s, kept ▸ memory, inside⟩, by simp only [EditableBuffer.contents, kept]⟩
      | string data =>
        simp only [bound, kept] at got
        cases got
        obtain ⟨s, memory, inside⟩ := backed
        exact ⟨⟨s, kept ▸ memory, inside⟩, by simp only [EditableBuffer.contents, kept]⟩
    | none =>
      rw [text_of_missing kept]
      cases bound : field.binding with
      | string data =>
        simp only [bound, kept] at got
        exact importBuffer_got got
      | text te =>
        cases entry : te.buf with
        | some bytes =>
          simp only [bound, kept, entry] at got
          have imported := importBuffer_got got
          rwa [boundText, entry]
        | none =>
          simp only [bound, kept, entry] at got
          split at got
          · cases got
            rw [boundText, entry]
            exact ⟨⟨[0], rfl, Nat.one_pos⟩, rfl⟩
          · cases got

theorem getBuffer_none (none : getBuffer requests field = .ok (false, buf))
    (exclusive : field.ed.excl = true) : field.sBuf.s = .none ∧ buf.s = .none := by
  unfold getBuffer at none
  simp only [exclusive, Bool.true_eq_false, false_and, if_false, if_true] at none
  cases kept : field.sBuf.s with
  | some s =>
    cases bound : field.binding with
    | text te =>
      simp only [bound, kept] at none
      cases none
    | string data =>
      simp only [bound, kept] at none
      cases none
  | none =>
    refine ⟨rfl, ?_⟩
    cases bound : field.binding with
    | string data =>
      simp only [bound, kept] at none
      rw [importBuffer_none none]
    | text te =>
      cases entry : te.buf with
      | some bytes =>
        simp only [bound, kept, entry] at none
        rw [importBuffer_none none]
      | none =>
        simp only [bound, kept, entry] at none
        split at none
        · cases none
        · cases none
          rfl

/-! ## Storing -/

theorem exportBuffer_error {ed : Editable} {dst dst' : List UInt8} {dstSize : Nat}
    {error : Option CommitError} (exported : exportBuffer ed s dst dstSize = .ok (error, dst')) :
    error ≠ some .outOfMemory := by
  simp only [exportBuffer, bind_eq_ok, pure_eq_ok] at exported
  obtain ⟨⟨result, _⟩, -, same⟩ := exported
  cases same
  split <;> nofun

theorem commitBuffer_outOfMemory {ed : Editable} {binding binding' : Binding}
    (committed : commitBuffer requests ed buf binding = .ok (some .outOfMemory, binding')) :
    binding' = binding ∧ buf.s ≠ none := by
  cases binding with
  | string data =>
    simp only [commitBuffer, bind_eq_ok, pure_eq_ok] at committed
    obtain ⟨_, -, ⟨error, _⟩, exported, same⟩ := committed
    cases same
    exact absurd rfl (exportBuffer_error exported)
  | text te =>
    simp only [commitBuffer, bind_eq_ok] at committed
    obtain ⟨s, pointed, length, -, committed⟩ := committed
    rw [pointee_eq_ok] at pointed
    cases length with
    | none => cases committed
    | some len =>
      simp only at committed
      split at committed
      case isTrue =>
        cases committed
        exact ⟨rfl, by rw [pointed]; exact Option.some_ne_none s⟩
      case isFalse =>
        split at committed
        · cases committed
        · simp only [bind_eq_ok, pure_eq_ok] at committed
          obtain ⟨⟨error, _⟩, exported, same⟩ := committed
          cases same
          exact absurd rfl (exportBuffer_error exported)

/-- How a request is refused behind a function, and what it leaves then -/
structure RefusedBehind (field : Field) (ran : Ran) (after : Field) (cause : Cause) : Prop where
  tried : ran.verdict ≠ .ignored
  binding : after.binding = field.binding
  ed : after.ed = ran.ed
  sBuf : after.sBuf = if field.ed.excl then ran.buf else field.sBuf
  reason : (∃ error, ran.verdict = .failed error) ∧ cause = .edit ∨
      ran.verdict = .done ∧ cause = .storing ∧ ran.buf.s ≠ none

theorem finish_refused (finished : finish requests field ran = .ok (outcome, after))
    (refused : outcome.cause = some cause) : RefusedBehind field ran after cause := by
  simp only [finish, bind_eq_ok, pure_eq_ok] at finished
  obtain ⟨⟨notStored, binding⟩, committed, same⟩ := finished
  cases same
  unfold commitDone at committed
  cases verdict : ran.verdict with
  | ignored =>
    rw [verdict] at refused
    cases refused
  | failed error =>
    rw [verdict, if_neg nofun, pure_eq_ok] at committed
    cases committed
    rw [verdict] at refused
    cases refused
    exact ⟨by rw [verdict]; nofun, rfl, rfl, rfl, .inl ⟨⟨error, verdict⟩, rfl⟩⟩
  | done =>
    rw [if_pos verdict] at committed
    rw [verdict] at refused
    match notStored, refused with
    | some .outOfMemory, refused =>
      cases refused
      obtain ⟨kept, some⟩ := commitBuffer_outOfMemory committed
      exact ⟨by rw [verdict]; nofun, kept, rfl, rfl, .inr ⟨verdict, rfl, some⟩⟩

/-! ## The document behind a refusal -/

theorem boundText_steered {ed ed' : Editable} (steered : ed.Steered ed') (binding : Binding) :
    boundText ed' binding = boundText ed binding := by
  cases binding with
  | text te => rfl
  | string data => rw [boundText, boundText, steered.encoding]

theorem RefusedBehind.text_iff (behind : RefusedBehind field ran after cause)
    (steered : field.ed.Steered ran.ed) (characters : ran.buf.s ≠ none) :
    after.text = field.text ↔ (field.ed.excl = true → ran.buf.contents = field.text) := by
  have bound := boundText_steered steered field.binding
  cases exclusive : field.ed.excl with
  | false =>
    refine iff_of_true ?_ nofun
    unfold Field.text
    rw [behind.ed, steered.excl, exclusive, behind.binding]
    exact bound
  | true =>
    obtain ⟨s, memory⟩ := Option.ne_none_iff_exists'.mp characters
    have kept : after.text = ran.buf.contents := by
      unfold Field.text
      rw [behind.ed, steered.excl, exclusive, behind.sBuf, exclusive, if_pos rfl]
      simp only [EditableBuffer.contents, memory, Option.map_some]
    rw [kept]
    exact ⟨fun same _ => same, fun same => same rfl⟩

theorem RefusedBehind.document_iff (start : Int) {stays : Int → Prop}
    (behind : RefusedBehind field ran after cause)
    (edits : Edits { field.ed with pos := start } buf ran.verdict ran.ed ran.buf stays)
    (backed : buf.Backed) (working : buf.contents = field.text)
    (entered : EnteredAt field.ed.pos start buf.len) :
    after.document = field.document ↔ field.ed.sel = 0 ∧ (cause = .edit ∧ start = field.ed.pos ∨
          cause = .storing ∧ stays field.ed.pos) := by
  have cleared := edits.cleared behind.tried
  have steered : field.ed.Steered ran.ed :=
    ((Editable.Steered.refl field.ed).steer _ _ _).trans (edits.steered behind.tried)
  have document : after.document = field.document ↔
        (ran.ed.pos = field.ed.pos ∧ after.text = field.text) ∧ field.ed.sel = 0 := by
    rw [Field.document, Field.document, Document.mk.injEq, behind.binding, behind.ed, cleared]
    constructor
    · rintro ⟨text, -, pos, sel⟩
      exact ⟨⟨pos, text⟩, sel.symm⟩
    · rintro ⟨⟨pos, text⟩, sel⟩
      exact ⟨text, rfl, pos, sel.symm⟩
  rw [document, and_comm]
  refine and_congr_right fun unselected => ?_
  rcases behind.reason with ⟨⟨error, failed⟩, rfl⟩ | ⟨done, rfl, characters⟩
  · obtain ⟨samePos, sameBuf⟩ := edits.failed error failed unselected
    have characters : ran.buf.s ≠ none := by
      obtain ⟨s, memory, -⟩ := backed
      rw [sameBuf, memory]
      exact Option.some_ne_none s
    have text : after.text = field.text :=
      (behind.text_iff steered characters).mpr fun _ => by rw [sameBuf, working]
    simp [samePos, text]
  · have stays := edits.done done unselected field.ed.pos entered
    rw [behind.text_iff steered characters, ← working]
    simpa using stays

/-! ## The functions of the key map -/

theorem runKey_edits {ed : Editable} {stroke : Stroke} {func : KeyFunction}
    (called : runKey requests tables seek field ed buf stroke func = .ok ran)
    (writable : func ∈ [KeyFunction.insert, .delete, .kill] → ed.readOnly = false)
    (backed : buf.Backed) :
    Edits ed buf ran.verdict ran.ed ran.buf fun pos =>
      Stays tables field ed buf.len stroke pos func := by
  cases func with
  | paste | yank =>
    simp only [runKey, bind_eq_ok, pure_eq_ok] at called
    obtain ⟨_, pasted, rfl⟩ := called
    exact editablePaste_edits pasted backed
  | insert =>
    simp only [runKey, bind_eq_ok, pure_eq_ok] at called
    obtain ⟨⟨_, _, _⟩, inserted, rfl⟩ := called
    exact insertKey_edits inserted (writable (by decide)) backed
  | delete =>
    simp only [runKey, bind_eq_ok, pure_eq_ok] at called
    obtain ⟨⟨_, _, _⟩, deleted, rfl⟩ := called
    exact deleteKey_edits deleted (writable (by decide)) backed
  | kill =>
    simp only [runKey, bind_eq_ok, pure_eq_ok] at called
    obtain ⟨_, killed, rfl⟩ := called
    exact killKey_edits killed (writable (by decide)) backed
  | cut =>
    simp only [runKey, bind_eq_ok, pure_eq_ok] at called
    obtain ⟨_, cut, rfl⟩ := called
    exact editableCut_edits cut
  | copy =>
    simp only [runKey, bind_eq_ok, pure_eq_ok] at called
    obtain ⟨_, -, rfl⟩ := called
    exact edits_ignored
  | _ =>
    cases pure_eq_ok.mp called
    exact edits_ignored

theorem writes_of_mem {kc : KeyCode} (listed : kc ∈ agKeymap)
    (func : kc.func ∈ [KeyFunction.insert, .delete, .kill]) : 'w' ∈ kc.flags.toList := by
  revert kc
  decide

theorem entered_clampCursor {pos : Int} (small : pos < 2 ^ 31) (len : Nat) :
    EnteredAt pos (clampCursor pos len) len := by
  unfold EnteredAt clampCursor
  split
  case isTrue before => exact .inr (.inl ⟨before, rfl⟩)
  case isFalse =>
    split
    case isTrue behind =>
      refine .inr (.inr ⟨behind, ?_⟩)
      exact Int.bmod_eq_of_le (by omega) (by omega)
    case isFalse => exact .inl rfl

theorem len_of_contents (backed : buf.Backed) (working : buf.contents = field.text) :
    buf.len = field.length := by
  obtain ⟨s, memory, inside⟩ := backed
  rw [Field.length, ← working, EditableBuffer.contents, memory,
    Option.map_some, Option.getD_some, List.length_take]
  omega

theorem document_withoutBuffer (none : getBuffer requests field = .ok (false, buf)) :
    (withoutBuffer field buf).2.document = field.document := by
  cases exclusive : field.ed.excl with
  | false => simp [withoutBuffer, Field.document, Field.text, exclusive]
  | true =>
    obtain ⟨before, after⟩ := getBuffer_none none exclusive
    simp [withoutBuffer, Field.document, Field.text, exclusive,
      EditableBuffer.contents, before, after]

theorem menuPaste_refused (wellFormed : field.WellFormed)
    (pasted : menuPaste requests field = .ok (outcome, after))
    (refused : outcome.cause = some cause) :
    after.document = field.document ↔ LeavesDocument tables field .pasteItem cause := by
  simp only [menuPaste, bind_eq_ok] at pasted
  obtain ⟨⟨got, buf⟩, handle, pasted⟩ := pasted
  cases got with
  | false =>
    cases pure_eq_ok.mp pasted
    cases refused
    exact iff_of_true (document_withoutBuffer handle) trivial
  | true =>
    obtain ⟨backed, working⟩ := getBuffer_got wellFormed handle
    simp only [Bool.true_eq_false, if_false, bind_eq_ok] at pasted
    obtain ⟨edited, ran, finished⟩ := pasted
    have behind := finish_refused finished refused
    have document :=
      behind.document_iff field.ed.pos (editablePaste_edits ran backed) backed working (.inl rfl)
    rw [document]
    rcases behind.reason with ⟨-, rfl⟩ | ⟨-, rfl, -⟩
    · simp [LeavesDocument, EditRequest.start]
    · simp [LeavesDocument, ChangesNothing]

theorem processKey_refused {stroke : Stroke} (wellFormed : field.WellFormed)
    (processed : processKey requests tables seek field stroke = .ok (outcome, after))
    (refused : outcome.cause = some cause) :
    after.document = field.document ↔ LeavesDocument tables field (.key stroke) cause := by
  unfold processKey at processed
  split at processed
  case isTrue =>
    cases pure_eq_ok.mp processed
    cases refused
    exact iff_of_true rfl trivial
  case isFalse =>
    simp only [bind_eq_ok] at processed
    obtain ⟨⟨got, buf⟩, handle, processed⟩ := processed
    cases got with
    | false =>
      cases pure_eq_ok.mp processed
      cases refused
      exact iff_of_true (document_withoutBuffer handle) trivial
    | true =>
      obtain ⟨backed, working⟩ := getBuffer_got wellFormed handle
      have length := len_of_contents backed working
      simp only [Bool.true_eq_false, if_false] at processed
      cases found : keyCode stroke with
      | none =>
        simp only [found] at processed
        cases processed
      | some kc =>
        simp only [found] at processed
        split at processed
        case isTrue =>
          have behind := finish_refused processed refused
          exact absurd rfl behind.tried
        case isFalse allowed =>
          rw [not_or, not_and] at allowed
          simp only [bind_eq_ok] at processed
          obtain ⟨ran, called, finished⟩ := processed
          have behind := finish_refused finished refused
          have edits := runKey_edits called (fun func => Bool.not_eq_true _ ▸ allowed.1
              (writes_of_mem (List.mem_of_find?_eq_some found) func))
            backed
          rw [behind.document_iff _ edits backed working (entered_clampCursor wellFormed.pos _)]
          rcases behind.reason with ⟨-, rfl⟩ | ⟨-, rfl, -⟩
          · simp [LeavesDocument, EditRequest.start, length]
          · simp [LeavesDocument, ChangesNothing, EditRequest.start, Field.entered, length, found]

end

/-! ## Refused edits -/

/--
An edit that is refused leaves the document exactly where there was no buffer
to edit, or nothing was selected and the cursor was in the text; or, where the
result could not be stored, nothing was edited.
-/
theorem refusedEdit_iff {requests : Requests} {tables : KeyTables} {seek : Seek}
    {field after : Field} {request : EditRequest} {outcome : Outcome} {cause : Cause}
    (wellFormed : field.WellFormed)
    (performed : perform requests tables seek field request = .ok (outcome, after))
    (refused : outcome.cause = some cause) :
    after.document = field.document ↔ LeavesDocument tables field request cause := by
  cases request with
  | key stroke => exact processKey_refused wellFormed performed refused
  | pasteItem => exact menuPaste_refused wellFormed performed refused

def fullField : Field where
  ed :=
    { multiline := false
      intOnly := false
      fltOnly := false
      excl := true
      noEmacs := false
      noLatin1 := false
      readonly := false
      disabled := false
      encoding := ascii "UTF-8"
      pos := 1
      sel := 1
      compose := 0 }
  sBuf :=
    { s := some [97, 98, 0]
      len := 2
      maxLen := 12
      reallocable := false
      infoSize := 3 }
  binding := .string [97, 98, 0]
  clipbrd := { s := none, len := 0 }
  killring := { s := none, len := 0 }

def emptiedField : Field :=
  { fullField with
    ed := { fullField.ed with sel := 0 }
    sBuf := { fullField.sBuf with s := some [97, 0, 0], len := 1 } }

def grantedRequests : Requests where
  handle := .zeroed
  working := .zeroed
  chunk := .zeroed
  growth := .zeroed
  entry := .zeroed
  fresh _ := 0

def plainTables : KeyTables where
  latin1 := []
  compositions := []
  textComposition := true

/-- `AG_KEY_EURO`, whose character is of three bytes in UTF-8 -/
def euroStroke : Stroke where
  ks := 0x0141
  kmod := 0
  unicode := 0x20ac

theorem refusedEdit_iff_full : emptiedField.document = fullField.document ↔
      LeavesDocument plainTables fullField (.key euroStroke) .edit :=
  @refusedEdit_iff grantedRequests plainTables (fun _ _ ed _ => ed) fullField
    emptiedField (.key euroStroke) (.ran (.failed (.tooLong 5 3)) none) .edit
    ⟨fun _ => ⟨[97, 98, 0], rfl, by decide⟩, by decide⟩ rfl rfl

theorem refused_key_deletes : ¬ ∀ (requests : Requests) (tables : KeyTables) (seek : Seek)
        (field after : Field) (request : EditRequest) (outcome : Outcome)
        (cause : Cause),
        field.WellFormed → perform requests tables seek field request = .ok (outcome, after) →
            outcome.cause = some cause → after.document = field.document := by
  intro always
  have same :=
    always grantedRequests plainTables (fun _ _ ed _ => ed) fullField
      emptiedField (.key euroStroke) (.ran (.failed (.tooLong 5 3)) none) .edit
      ⟨fun _ => ⟨[97, 98, 0], rfl, by decide⟩, by decide⟩ rfl rfl
  have selection := congrArg Document.sel same
  exact absurd selection (by decide)

end Agar.Gui
