import Agar.Gui.KeyInsertion
import Agar.Lib.DeadKeys

namespace Agar.Gui

open Agar.Lib
open Agar.Core

/-!
# Dead keys of editable fields

A character that others are composed with waits in `compose` for the next one.
Where the two are no entry of the table, `AG_KeyInputCompose` resets `compose`
before it stores it, so that a NUL is inserted in its place.
-/

/-! ## The table -/

/-- `agCompositionMap` -/
def agCompositionMap : List KeyComposition := [
  ⟨0x0060, 0x0020, 0x0060⟩, ⟨0x0060, 0x0061, 0x00e0⟩, ⟨0x0060, 0x0041, 0x00c0⟩,
  ⟨0x0060, 0x0065, 0x00e8⟩, ⟨0x0060, 0x0045, 0x00c8⟩, ⟨0x0060, 0x0069, 0x00ec⟩,
  ⟨0x0060, 0x0049, 0x00cc⟩, ⟨0x0060, 0x006f, 0x00f2⟩, ⟨0x0060, 0x004f, 0x00d2⟩,
  ⟨0x0060, 0x0075, 0x00f9⟩, ⟨0x0060, 0x0055, 0x00d9⟩,
  ⟨0x00b4, 0x0020, 0x0060⟩, ⟨0x00b4, 0x0065, 0x00e9⟩, ⟨0x00b4, 0x0045, 0x00c9⟩,
  ⟨0x02db, 0x0020, 0x02db⟩, ⟨0x02db, 0x0061, 0x0105⟩, ⟨0x02db, 0x0041, 0x0104⟩,
  ⟨0x02db, 0x0075, 0x0173⟩, ⟨0x02db, 0x0055, 0x0172⟩,
  ⟨0x00b8, 0x0020, 0x00b8⟩, ⟨0x00b8, 0x0063, 0x00e7⟩, ⟨0x00b8, 0x0043, 0x00c7⟩,
  ⟨0x00b8, 0x0067, 0x0123⟩, ⟨0x00b8, 0x0047, 0x0122⟩, ⟨0x00b8, 0x006e, 0x0146⟩,
  ⟨0x00b8, 0x004e, 0x0145⟩, ⟨0x00b8, 0x006b, 0x0137⟩, ⟨0x00b8, 0x004b, 0x0136⟩,
  ⟨0x00b8, 0x0072, 0x0157⟩, ⟨0x00b8, 0x0052, 0x0156⟩, ⟨0x00b8, 0x0074, 0x0163⟩,
  ⟨0x00b8, 0x0054, 0x0162⟩, ⟨0x00b8, 0x0073, 0x015f⟩, ⟨0x00b8, 0x0053, 0x015e⟩,
  ⟨0x00a8, 0x0020, 0x00a8⟩, ⟨0x00a8, 0x0061, 0x00e4⟩, ⟨0x00a8, 0x0041, 0x00c4⟩,
  ⟨0x00a8, 0x0065, 0x00eb⟩, ⟨0x00a8, 0x0045, 0x00cb⟩, ⟨0x00a8, 0x0069, 0x00ef⟩,
  ⟨0x00a8, 0x0049, 0x00cf⟩, ⟨0x00a8, 0x006f, 0x00f6⟩, ⟨0x00a8, 0x004f, 0x00d6⟩,
  ⟨0x00a8, 0x0079, 0x00ff⟩, ⟨0x00a8, 0x0059, 0x0178⟩, ⟨0x00a8, 0x0075, 0x00fc⟩,
  ⟨0x00a8, 0x0055, 0x00dc⟩,
  ⟨0x005e, 0x0020, 0x005e⟩, ⟨0x005e, 0x0061, 0x00e2⟩, ⟨0x005e, 0x0041, 0x00c2⟩,
  ⟨0x005e, 0x0063, 0x0109⟩, ⟨0x005e, 0x0043, 0x0108⟩, ⟨0x005e, 0x0065, 0x00ea⟩,
  ⟨0x005e, 0x0045, 0x00ca⟩, ⟨0x005e, 0x0067, 0x011d⟩, ⟨0x005e, 0x0047, 0x011c⟩,
  ⟨0x005e, 0x0069, 0x00ee⟩, ⟨0x005e, 0x0049, 0x00ce⟩, ⟨0x005e, 0x006f, 0x00f4⟩,
  ⟨0x005e, 0x004f, 0x00d4⟩, ⟨0x005e, 0x0073, 0x015d⟩, ⟨0x005e, 0x0053, 0x015c⟩,
  ⟨0x005e, 0x0079, 0x0177⟩, ⟨0x005e, 0x0059, 0x0176⟩, ⟨0x005e, 0x0075, 0x00fb⟩,
  ⟨0x005e, 0x0055, 0x00db⟩, ⟨0x005e, 0x0077, 0x0175⟩, ⟨0x005e, 0x0057, 0x0174⟩]

/-- The characters of a table that wait, and what its pairs combine to -/
def deadKeys (compositions : List KeyComposition) : DeadKeys UInt32 where
  combine waiting key :=
    (compositions.find? fun entry => entry.comp = waiting ∧ entry.key = key).map (·.res)
  waits key := compositions.any fun entry => entry.comp = key

/-- The character that waits in `compose`, if there is one -/
def waitingKey (compose : UInt32) : Option UInt32 :=
  if compose = 0 then none else some compose

theorem agCompositionMap_res : ∀ entry ∈ agCompositionMap, entry.res ≠ 0 := by decide

/-! ## One character -/

/-- The character of a keystroke that `Insert` is to insert or compose, if any -/
def inputChar (tables : KeyTables) (ed : Editable) (stroke : Stroke) : Option UInt32 :=
  if stroke.ks = 0 then none
  else
    let uch :=
      if ed.noLatin1 then stroke.unicode else latin1Char stroke tables.latin1
    if uch = 0 then none
    else
      let uch := if uch = 13 then 10 else uch
      if equalsNoCase ed.encoding (ascii "US-ASCII") ∧ 0x80 ≤ uch then none else some uch

section

variable {ed : Editable} {buf : EditableBuffer} {text : List UInt32}

theorem insertedChars_eq (tables : KeyTables) (enabled : tables.textComposition = true)
    (ed : Editable) (stroke : Stroke) :
    insertedChars tables ed stroke = (inputChar tables ed stroke).elim ([], ed.compose)
        (keyInputCompose tables.compositions ed.compose) := by
  unfold insertedChars inputChar
  simp only [enabled, if_true]
  split_ifs <;> rfl

theorem inputChar_ne_zero {tables : KeyTables} {stroke : Stroke} {c : UInt32}
    (input : inputChar tables ed stroke = some c) : c ≠ 0 := by
  unfold inputChar at input
  dsimp only at input
  split_ifs at input
  all_goals
    rw [← Option.some_inj.mp input]
    first
    | decide
    | assumption

/-- The characters of keystrokes that `Insert` is to insert or compose -/
def inputChars (tables : KeyTables) (ed : Editable)
    (strokes : List (Requests × Stroke)) : List UInt32 :=
  strokes.filterMap (inputChar tables ed ·.2)

theorem composed_keyInputCompose {key : UInt32} (compositions : List KeyComposition)
    (compose : UInt32) (character : key ≠ 0) (rest : List UInt32) :
    (deadKeys compositions).composed (fun _ => 0) (waitingKey compose) (key :: rest) =
      (keyInputCompose compositions compose key).1 ++ (deadKeys compositions).composed (fun _ => 0)
          (waitingKey (keyInputCompose compositions compose key).2) rest := by
  have keyWaits : (deadKeys compositions).waits key =
        compositions.any fun entry => entry.comp = key :=
    rfl
  by_cases waiting : compose = 0
  · rw [waitingKey, if_pos waiting, keyInputCompose,
      if_neg (not_not_intro waiting), DeadKeys.composed, keyWaits]
    by_cases waits : compositions.any fun entry => entry.comp = key
    · rw [if_pos waits, if_pos waits, waitingKey, if_neg character]
      exact rfl
    · rw [if_neg waits, if_neg waits, waitingKey, if_pos waiting]
      exact rfl
  · rw [waitingKey, if_neg waiting, keyInputCompose, if_pos waiting, DeadKeys.composed]
    unfold deadKeys
    dsimp only
    cases compositions.find? fun entry =>
        entry.comp = compose ∧ entry.key = key with
    | none => exact rfl
    | some entry => exact rfl

theorem inputChars_behind (tables : KeyTables) (ed : Editable) (ins : List UInt32)
    (compose : UInt32) (strokes : List (Requests × Stroke)) :
    inputChars tables (ed.behind ins compose) strokes = inputChars tables ed strokes := by
  unfold Editable.behind
  split <;> rfl

theorem behind_compose (ed : Editable) (ins : List UInt32) (compose : UInt32) :
    (ed.behind ins compose).compose = compose := by
  unfold Editable.behind
  split <;> rfl

theorem composed_insertedChars (tables : KeyTables) (enabled : tables.textComposition = true)
    (ed : Editable) (stroke : Requests × Stroke) (rest : List (Requests × Stroke)) :
    (deadKeys tables.compositions).composed (fun _ => 0)
        (waitingKey ed.compose) (inputChars tables ed (stroke :: rest)) =
      (insertedChars tables ed stroke.2).1 ++ (deadKeys tables.compositions).composed (fun _ => 0)
          (waitingKey (insertedChars tables ed stroke.2).2)
          (inputChars tables ed rest) := by
  rw [insertedChars_eq tables enabled, inputChars, List.filterMap_cons]
  cases input : inputChar tables ed stroke.2 with
  | none => exact rfl
  | some key =>
    exact composed_keyInputCompose tables.compositions ed.compose (inputChar_ne_zero input) _

/-! ## Many keystrokes -/

/-- The tables of a field in which composition is enabled -/
def composing (latin1 : List KeyMapping) : KeyTables where
  latin1 := latin1
  compositions := agCompositionMap
  textComposition := true

/-- `Insert`, for one keystroke behind the other -/
def insertKeys (tables : KeyTables) : List (Requests × Stroke) → Editable → EditableBuffer →
      Except Stop (List Verdict × Editable × EditableBuffer)
  | [], ed, buf => .ok ([], ed, buf)
  | (requests, stroke) :: rest, ed, buf => do
      let (verdict, ed, buf) ← insertKey requests tables ed buf stroke
      let (verdicts, ed, buf) ← insertKeys tables rest ed buf
      return (verdict :: verdicts, ed, buf)

theorem insertKeys_total (latin1 : List KeyMapping) (strokes : List (Requests × Stroke))
    (typable : Typable ed buf text) :
    ∃ verdicts ed' buf' text', insertKeys (composing latin1) strokes ed buf =
          .ok (verdicts, ed', buf') ∧
        Typable ed' buf' text' ∧ ((∀ error, .failed error ∉ verdicts) → text' = ed.typed text
              ((deadKeys agCompositionMap).composed (fun _ => 0) (waitingKey ed.compose)
                (inputChars (composing latin1) ed strokes))) := by
  induction strokes generalizing ed buf text with
  | nil =>
    refine ⟨[], ed, buf, text, rfl, typable, fun _ => ?_⟩
    cases waitingKey ed.compose <;> exact rfl
  | cons first rest ih =>
    obtain ⟨requests, stroke⟩ := first
    obtain ⟨verdict, ed₁, buf₁, text₁, ran, typable₁, outcome⟩ :=
      insertKey_total requests (composing latin1) stroke typable
    obtain ⟨verdicts, ed₂, buf₂, text₂, ranRest, typable₂, composed⟩ := ih typable₁
    refine ⟨verdict :: verdicts, ed₂, buf₂, text₂, ?_, typable₂, fun succeeded => ?_⟩
    · rw [insertKeys, ran, ok_bind]
      dsimp only
      rw [ranRest]
      exact rfl
    · have done :=
        outcome.resolve_left fun ⟨error, failed⟩ => succeeded error (failed ▸ List.mem_cons_self)
      have others := composed fun error failed =>
        succeeded error (List.mem_cons_of_mem verdict failed)
      rw [others, done.1, done.2, typed_behind typable.valid, inputChars_behind, behind_compose]
      exact congrArg (ed.typed text)
        (composed_insertedChars (composing latin1) rfl ed (requests, stroke) rest).symm

theorem typed_inj {first second : List UInt32} (length : first.length = second.length)
    (same : ed.typed text first = ed.typed text second) : first = second := by
  unfold Editable.typed at same
  by_cases nothing : first = []
  · rw [nothing] at length
    rw [nothing, List.eq_nil_of_length_eq_zero length.symm]
  · have some : second ≠ [] := by
      intro none
      rw [none] at length
      exact nothing (List.eq_nil_of_length_eq_zero length)
    rw [if_neg nothing, if_neg some, replaceRange, replaceRange,
      List.append_left_inj, List.append_right_inj] at same
    exact same

/--
Composed characters and all others are inserted, and waiting ones that do not
combine before the next one; none of them is a NUL.
-/
structure LosesNothing (ed : Editable) (text text' typed : List UInt32) : Prop where
  inserted : text' = ed.typed text
        ((deadKeys agCompositionMap).composed id (waitingKey ed.compose) typed)
  noNul : 0 ∉ (deadKeys agCompositionMap).composed id (waitingKey ed.compose) typed

theorem waitingKey_ne_zero {compose : UInt32} : ∀ c ∈ waitingKey compose, c ≠ 0 := by
  intro c waits
  unfold waitingKey at waits
  split at waits
  case isTrue => exact absurd waits (Option.not_mem_none c)
  case isFalse waiting => exact Option.some_inj.mp waits ▸ waiting

theorem inputChars_ne_zero {tables : KeyTables} {strokes : List (Requests × Stroke)} :
    ∀ c ∈ inputChars tables ed strokes, c ≠ 0 := by
  intro c typed
  obtain ⟨stroke, -, input⟩ := List.mem_filterMap.mp typed
  exact inputChar_ne_zero input

theorem zero_notMem_composed (latin1 : List KeyMapping) (ed : Editable)
    (strokes : List (Requests × Stroke)) :
    0 ∉ (deadKeys agCompositionMap).composed id (waitingKey ed.compose)
      (inputChars (composing latin1) ed strokes) := by
  have results : ∀ waiting key c,
      (deadKeys agCompositionMap).combine waiting key = some c → c ≠ 0 := by
    intro waiting key c combined
    obtain ⟨entry, found, rfl⟩ := Option.map_eq_some_iff.mp combined
    exact agCompositionMap_res entry (List.mem_of_find?_eq_some found)
  exact fun nul =>
    DeadKeys.forall_mem_composed (P := (· ≠ 0)) results (fun _ => id)
      waitingKey_ne_zero inputChars_ne_zero 0 nul rfl

/--
Dead keys lose nothing exactly where each character that waits combines with
the next one; of any keystrokes, unless there is no room for a character.
-/
theorem losesNothing_iff (latin1 : List KeyMapping) (strokes : List (Requests × Stroke))
    (typable : Typable ed buf text) :
    ∃ verdicts ed' buf' text', insertKeys (composing latin1) strokes ed buf =
          .ok (verdicts, ed', buf') ∧
        Typable ed' buf' text' ∧
        ((∀ error, .failed error ∉ verdicts) → (LosesNothing ed text text'
              (inputChars (composing latin1) ed strokes) ↔
            (deadKeys agCompositionMap).EachCombines (waitingKey ed.compose)
              (inputChars (composing latin1) ed strokes))) := by
  obtain ⟨verdicts, ed', buf', text', ran, typable', inserted⟩ :=
    insertKeys_total latin1 strokes typable
  refine ⟨verdicts, ed', buf', text', ran, typable', fun succeeded => ?_⟩
  have combines : (deadKeys agCompositionMap).composed id (waitingKey ed.compose)
            (inputChars (composing latin1) ed strokes) =
          (deadKeys agCompositionMap).composed (fun _ => 0) (waitingKey ed.compose)
            (inputChars (composing latin1) ed strokes) ↔
        (deadKeys agCompositionMap).EachCombines (waitingKey ed.compose)
          (inputChars (composing latin1) ed strokes) :=
    DeadKeys.composed_eq_iff waitingKey_ne_zero inputChars_ne_zero
  rw [← combines]
  constructor
  case mp =>
    intro keeps
    exact typed_inj (DeadKeys.length_composed id (fun _ => 0) _ _)
      (keeps.inserted.symm.trans (inserted succeeded))
  case mpr =>
    intro same
    refine ⟨?_, zero_notMem_composed latin1 ed strokes⟩
    rw [same]
    exact inserted succeeded

end

def granted (ks : Nat) (unicode : UInt32) : Requests × Stroke where
  fst :=
    { handle := .zeroed
      working := .zeroed
      chunk := .zeroed
      growth := .zeroed
      entry := .zeroed
      fresh _ := 0 }
  snd :=
    { ks := ks
      kmod := 0
      unicode := unicode }

def emptyField : Editable := { wordField with pos := 0, sel := 0 }

def emptyBuffer : EditableBuffer where
  s := some [0]
  len := 0
  maxLen := 4
  reallocable := true
  infoSize := 0

theorem typable_empty : Typable emptyField emptyBuffer [] where
  holds := ⟨[0], rfl, rfl, List.prefix_rfl, by decide⟩
  writable := rfl
  valid := by constructor <;> decide

theorem losesNothing_iff_grave : ∃ verdicts ed' buf' text',
      insertKeys (composing []) [granted 0x60 0x60, granted 0x61 0x61] emptyField emptyBuffer =
          .ok (verdicts, ed', buf') ∧
        Typable ed' buf' text' ∧
        ((∀ error, .failed error ∉ verdicts) → (LosesNothing emptyField [] text' [0x60, 0x61] ↔
            (deadKeys agCompositionMap).EachCombines none [0x60, 0x61])) :=
  losesNothing_iff [] [granted 0x60 0x60, granted 0x61 0x61] typable_empty

theorem uncombined_accent_is_nul : insertKeys (composing []) [granted 0x60 0x60, granted 0x78 0x78]
          emptyField emptyBuffer =
        .ok ([.ignored, .done], { emptyField with pos := 2 },
          { emptyBuffer with s := some [0, 0x78, 0], len := 2, maxLen := 12 }) ∧
      ¬ LosesNothing emptyField [] [0, 0x78] (inputChars (composing []) emptyField
            [granted 0x60 0x60, granted 0x78 0x78]) := by
  refine ⟨rfl, fun keeps => ?_⟩
  have inserted := keeps.inserted
  exact absurd inserted (by decide)

end Agar.Gui
