import Agar.Gui.EditableClipboard
import Agar.Gui.EditableKeys
import Agar.Lib.Scan

namespace Agar.Gui

open Agar.Lib
open Agar.Core

/-!
# Motions of the cursor

Keys that move the cursor within a line scan the buffer from the cursor on.
The cursor takes the end of the selection with it while Shift is held, and
drops the selection otherwise.
-/

/-! ## Loops over the buffer -/

/-- A character of a buffer, which is read -/
def readChar (s : List UInt32) (pos : Nat) : Except Stop UInt32 :=
  s[pos]?.elim (.error .undefined) .ok

/-- The loop of `WordBack`, from `&s[newPos]` down -/
def wordBackLoop (s : List UInt32) : Nat → Except Stop Nat
  | 0 => .ok 0
  | newPos + 1 => do
      let c ← readChar s (newPos + 1)
      if c = 32 then return newPos + 1 else wordBackLoop s newPos

/-- The loop of `WordForw`, from `&s[newPos]` on, in so many cells of memory -/
def wordForwLoop (s : List UInt32) : Nat → Nat → Except Stop Nat
  | 0, _ => .error .undefined
  | cells + 1, newPos => do
      let c ← readChar s newPos
      if c = 0 ∨ c = 32 then return newPos else wordForwLoop s cells (newPos + 1)

/-- The loop of `CursorHome`, from `&s[newPos - 1]` down to `&s[0]` -/
def cursorHomeLoop (s : List UInt32) : Nat → Except Stop Nat
  | 0 => .ok 0
  | newPos + 1 => do
      let c ← readChar s newPos
      if c = 10 then return newPos + 1 else cursorHomeLoop s newPos

/-- The loop of `CursorEnd`, from `&s[newPos + 1]` for so many characters on -/
def cursorEndLoop (s : List UInt32) : Nat → Nat → Except Stop Nat
  | 0, newPos => .ok newPos
  | count + 1, newPos => do
      let c ← readChar s (newPos + 1)
      if c = 10 then return newPos + 1 else cursorEndLoop s count (newPos + 1)

/-! ## The functions of keys -/

/-- Whether a key is pressed with Shift -/
def shifted (keymod : UInt32) : Bool := keymod &&& keymodShift ≠ 0

/-- Put the cursor to a new position, as the motions that scan do. -/
def Editable.seekTo (ed : Editable) (keymod : UInt32) (newPos : Int) : Editable :=
  { ed with sel := if shifted keymod then ed.sel + (ed.pos - newPos) else 0, pos := newPos }

/-- Where `WordBack` begins to scan: before a space that is behind the word -/
def wordBackFrom (s : List UInt32) (pos : Nat) : Except Stop Nat :=
  if 1 < pos then do
    let c ← readChar s (pos - 1)
    return if c = 32 then pos - 2 else pos
  else return pos

/-- `WordBack` -/
def wordBack (ed : Editable) (buf : EditableBuffer) (keymod : UInt32) : Except Stop Editable :=
  if ed.pos < 0 then .error .undefined
  else do
    let s ← pointee buf.s
    let newPos ← wordBackFrom s ed.pos.toNat
    let newPos ← wordBackLoop s newPos
    let c ← readChar s newPos
    return ed.seekTo keymod (if c = 32 then newPos + 1 else newPos : Nat)

/-- Where `WordForw` begins to scan: behind a space that is before the word -/
def wordForwFrom (s : List UInt32) (len pos : Nat) : Except Stop Nat :=
  if 1 < len then do
    let c ← readChar s pos
    return if c = 32 then pos + 1 else pos
  else return pos

/-- `WordForw` -/
def wordForw (ed : Editable) (buf : EditableBuffer) (keymod : UInt32) : Except Stop Editable :=
  if ed.pos = buf.len then return ed
  else if ed.pos < 0 then .error .undefined
  else do
    let s ← pointee buf.s
    let newPos ← wordForwFrom s buf.len ed.pos.toNat
    let newPos ← wordForwLoop s (s.length - newPos) newPos
    return ed.seekTo keymod newPos

/-- `CursorHome` -/
def cursorHome (ed : Editable) (buf : EditableBuffer) (keymod : UInt32) : Except Stop Editable :=
  if ed.multiline then
    if ed.pos = 0 then return ed
    else if ed.pos < 0 then .error .undefined
    else do
      let s ← pointee buf.s
      let newPos ← cursorHomeLoop s ed.pos.toNat
      return ed.seekTo keymod newPos
  else return ed.seekTo keymod 0

/-- `CursorEnd` -/
def cursorEnd (ed : Editable) (buf : EditableBuffer) (keymod : UInt32) : Except Stop Editable :=
  if ed.multiline then
    if ed.pos = buf.len then return ed
    else if ed.pos < 0 then .error .undefined
    else do
      let s ← pointee buf.s
      let c ← readChar s ed.pos.toNat
      if c = 10 then return ed
      else
        let newPos ← cursorEndLoop s (buf.len - ed.pos.toNat) ed.pos.toNat
        return ed.seekTo keymod (if buf.len < newPos then buf.len else newPos)
  else return ed.seekTo keymod buf.len

/-- `CursorLeft` -/
def cursorLeft (ed : Editable) (keymod : UInt32) : Editable :=
  if 0 ≤ ed.pos - 1 then
    { ed with pos := ed.pos - 1, sel := if shifted keymod then ed.sel + 1 else 0 }
  else { ed with pos := 0 }

/-- `CursorRight`, where a negative position is converted to a large `size_t` -/
def cursorRight (ed : Editable) (buf : EditableBuffer) (keymod : UInt32) : Editable :=
  if 0 ≤ ed.pos ∧ ed.pos < buf.len then
    { ed with pos := ed.pos + 1, sel := if shifted keymod then ed.sel - 1 else 0 }
  else ed

/-- The motions within a line -/
inductive Motion where
  | wordBack
  | wordForw
  | cursorHome
  | cursorEnd
  | cursorLeft
  | cursorRight
  deriving Repr, DecidableEq

/-- Call the function of a motion. -/
def moveCursor (ed : Editable) (buf : EditableBuffer)
    (keymod : UInt32) : Motion → Except Stop Editable
  | .wordBack => wordBack ed buf keymod
  | .wordForw => wordForw ed buf keymod
  | .cursorHome => cursorHome ed buf keymod
  | .cursorEnd => cursorEnd ed buf keymod
  | .cursorLeft => .ok (cursorLeft ed keymod)
  | .cursorRight => .ok (cursorRight ed buf keymod)

/-! ## What the loops find -/

/-- The character at a position of a text, or the NUL behind it -/
def charAt (text : List UInt32) (pos : Nat) : UInt32 := text[pos]?.getD 0

section

variable {ed ed' : Editable} {buf : EditableBuffer} {s text : List UInt32} {keymod : UInt32}
  {pos newPos : Nat}

theorem charAt_length (text : List UInt32) : charAt text text.length = 0 := by
  rw [charAt, List.getElem?_eq_none (Nat.le_refl _)]
  rfl

theorem readChar_stored (stored : HoldsText 0 s text) (inside : pos ≤ text.length) :
    readChar s pos = .ok (charAt text pos) := by
  obtain ⟨rest, rfl⟩ := stored
  have found : ((text ++ [0]) ++ rest)[pos]? = (text ++ [0])[pos]? :=
    List.getElem?_append_left (by simp; omega)
  rw [readChar, found, charAt]
  rcases Nat.lt_or_eq_of_le inside with before | rfl
  · rw [List.getElem?_append_left before, List.getElem?_eq_getElem before]
    rfl
  · simp

theorem wordBackLoop_run (stored : HoldsText 0 s text) (inside : newPos ≤ text.length) : ∃ last,
      wordBackLoop s newPos = .ok last ∧ last ≤ newPos ∧ RunStart (charAt text · = 32) (newPos + 1)
          (if charAt text last = 32 then last + 1 else last) := by
  induction newPos with
  | zero =>
    refine ⟨0, rfl, Nat.le_refl 0, ?_⟩
    split
    case isTrue space => exact .behind space
    case isFalse letter => exact .further letter .zero
  | succ newPos ih =>
    rw [wordBackLoop, readChar_stored stored inside, ok_bind]
    by_cases space : charAt text (newPos + 1) = 32
    · refine ⟨newPos + 1, if_pos space, Nat.le_refl _, ?_⟩
      rw [if_pos space]
      exact .behind space
    · obtain ⟨last, found, le, run⟩ :=
        ih (Nat.le_of_succ_le inside)
      rw [if_neg space]
      exact ⟨last, found, Nat.le_succ_of_le le, run.further space⟩

theorem wordForwLoop_run (stored : HoldsText 0 s text) (inside : newPos ≤ text.length) : ∃ stop,
      wordForwLoop s (s.length - newPos) newPos = .ok stop ∧
        RunEnd (fun i => charAt text i = 0 ∨ charAt text i = 32) text.length newPos stop := by
  have memory := stored.length_lt
  generalize counted : s.length - newPos = cells
  induction cells generalizing newPos with
  | zero => omega
  | succ cells ih =>
    rw [wordForwLoop, readChar_stored stored inside, ok_bind]
    by_cases stops : charAt text newPos = 0 ∨ charAt text newPos = 32
    · rw [if_pos stops]
      exact ⟨newPos, rfl, .here inside stops⟩
    · have within : newPos ≠ text.length := by
        rintro rfl
        exact stops (.inl (charAt_length text))
      obtain ⟨stop, found, run⟩ := @ih (newPos + 1) (by omega) (by omega)
      rw [if_neg stops]
      exact ⟨stop, found, run.further stops⟩

theorem cursorHomeLoop_run (stored : HoldsText 0 s text) (inside : newPos ≤ text.length) : ∃ start,
      cursorHomeLoop s newPos = .ok start ∧ RunStart (charAt text · = 10) newPos start := by
  induction newPos with
  | zero => exact ⟨0, rfl, .zero⟩
  | succ newPos ih =>
    have within := Nat.le_of_succ_le inside
    rw [cursorHomeLoop, readChar_stored stored within, ok_bind]
    by_cases newline : charAt text newPos = 10
    · rw [if_pos newline]
      exact ⟨newPos + 1, rfl, .behind newline⟩
    · obtain ⟨start, found, run⟩ := ih within
      rw [if_neg newline]
      exact ⟨start, found, run.further newline⟩

theorem cursorEndLoop_run (stored : HoldsText 0 s text) (inside : newPos ≤ text.length)
    (here : charAt text newPos ≠ 10) :
    ∃ stop, cursorEndLoop s (text.length - newPos) newPos = .ok stop ∧
        RunEnd (charAt text · = 10) text.length newPos stop := by
  generalize counted : text.length - newPos = count
  induction count generalizing newPos with
  | zero =>
    obtain rfl : newPos = text.length := by omega
    exact ⟨text.length, rfl, .atEnd⟩
  | succ count ih =>
    have within : newPos + 1 ≤ text.length := by omega
    rw [cursorEndLoop, readChar_stored stored within, ok_bind]
    by_cases newline : charAt text (newPos + 1) = 10
    · rw [if_pos newline]
      exact ⟨newPos + 1, rfl, .further here (.here within newline)⟩
    · obtain ⟨stop, found, run⟩ :=
        ih within newline (by omega)
      rw [if_neg newline]
      exact ⟨stop, found, run.further here⟩

end

/-! ## What motions are to do -/

/-- The motions towards the start of the text -/
def Motion.isBack : Motion → Bool
  | .wordBack | .cursorHome | .cursorLeft => true
  | .wordForw | .cursorEnd | .cursorRight => false

/-- Where a motion is to put the cursor of a text -/
structure Reaches (motion : Motion) (multiline : Bool) (text : List UInt32)
    (pos newPos : Nat) : Prop where
  inside : newPos ≤ text.length
  back : motion.isBack = true → newPos ≤ pos
  forward : motion.isBack = false → pos ≤ newPos
  home : motion = .cursorHome → multiline = true → RunStart (charAt text · = 10) pos newPos
  lineEnd : motion = .cursorEnd → multiline = true →
      RunEnd (charAt text · = 10) text.length pos newPos
  wordBack : motion = .wordBack → pos ≠ 0 → newPos ≠ pos
  wordForw : motion = .wordForw → pos ≠ text.length → newPos ≠ pos

/--
A motion puts the cursor where it is to be, with the other end of the selection
kept while Shift is held, and with no selection otherwise, unless the cursor
does not move.
-/
structure Moves (motion : Motion) (keymod : UInt32) (text : List UInt32)
    (ed ed' : Editable) : Prop where
  nonneg : 0 ≤ ed'.pos
  reaches : Reaches motion ed.multiline text ed.pos.toNat ed'.pos.toNat
  anchor : shifted keymod = true → ed'.pos + ed'.sel = ed.pos + ed.sel
  unselected : shifted keymod = false → ed'.pos ≠ ed.pos → ed'.sel = 0

/-- The cursor is not where a motion goes the wrong way, or nowhere. -/
def Motion.Works (text : List UInt32) (pos : Nat) : Motion → Prop
  -- before a space that no space comes before, but for one at the very start;
  -- or behind a space at the very start
  | .wordBack =>
    ¬ (charAt text pos = 32 ∧ (pos ≤ 1 ∨ charAt text (pos - 1) ≠ 32)) ∧
      ¬ (pos = 1 ∧ charAt text 0 = 32)
  -- before a NUL, or before a space that is the whole text
  | .wordForw =>
    pos ≠ text.length → charAt text pos ≠ 0 ∧ ¬ (charAt text pos = 32 ∧ text.length = 1)
  | _ => True

section

variable {ed ed' : Editable} {buf : EditableBuffer} {s text : List UInt32} {keymod : UInt32}
  {motion : Motion} {pos newPos : Nat}

/-- The cursor is at a new position with the selection as motions leave it. -/
def Carried (ed : Editable) (keymod : UInt32) (newPos : Nat) (ed' : Editable) : Prop :=
  ed' = ed.seekTo keymod newPos ∨ ed' = ed ∧ ed.pos = newPos

theorem moves_iff (cursor : ed.pos = pos) (carried : Carried ed keymod newPos ed') :
    Moves motion keymod text ed ed' ↔ Reaches motion ed.multiline text pos newPos := by
  have position : ed'.pos = newPos := by
    rcases carried with rfl | ⟨rfl, same⟩
    · rfl
    · exact same
  constructor
  · intro moves
    have reaches := moves.reaches
    rwa [cursor, position, Int.toNat_natCast, Int.toNat_natCast] at reaches
  · intro reaches
    refine ⟨?_, ?_, fun held => ?_, fun free => ?_⟩
    · rw [position]
      exact Int.natCast_nonneg newPos
    · rwa [cursor, position, Int.toNat_natCast, Int.toNat_natCast]
    · rcases carried with rfl | ⟨rfl, -⟩
      · simp only [Editable.seekTo, held, if_true]
        omega
      · rfl
    · rcases carried with rfl | ⟨rfl, -⟩
      · intro _
        simp [Editable.seekTo, free]
      · intro moved
        exact absurd rfl moved

theorem reaches_back_iff {multiline : Bool} (towards : motion.isBack = true)
    (inside : pos ≤ text.length) :
    Reaches motion multiline text pos newPos ↔ newPos ≤ pos ∧
        (motion = .cursorHome → multiline = true → RunStart (charAt text · = 10) pos newPos) ∧
        (motion = .wordBack → pos ≠ 0 → newPos ≠ pos) := by
  constructor
  · intro reaches
    exact ⟨reaches.back towards, reaches.home, reaches.wordBack⟩
  · rintro ⟨le, home, wordBack⟩
    exact
      { inside := Nat.le_trans le inside
        back := fun _ => le
        forward := fun onwards => absurd (towards.symm.trans onwards) (by decide)
        home := home
        lineEnd := fun other => absurd (other ▸ towards) (by decide)
        wordBack := wordBack
        wordForw := fun other => absurd (other ▸ towards) (by decide) }

theorem reaches_forward_iff {multiline : Bool} (onwards : motion.isBack = false) :
    Reaches motion multiline text pos newPos ↔ newPos ≤ text.length ∧ pos ≤ newPos ∧
        (motion = .cursorEnd → multiline = true →
          RunEnd (charAt text · = 10) text.length pos newPos) ∧
        (motion = .wordForw → pos ≠ text.length → newPos ≠ pos) := by
  constructor
  · intro reaches
    exact ⟨reaches.inside, reaches.forward onwards, reaches.lineEnd, reaches.wordForw⟩
  · rintro ⟨inside, ge, lineEnd, wordForw⟩
    exact
      { inside := inside
        back := fun towards => absurd (towards.symm.trans onwards) (by decide)
        forward := fun _ => ge
        home := fun other => absurd (other ▸ onwards) (by decide)
        lineEnd := lineEnd
        wordBack := fun other => absurd (other ▸ onwards) (by decide)
        wordForw := wordForw }

/-! ## One motion after the other -/

/-- What is shown of each motion, for the cursor at `pos` -/
def Decided (ed : Editable) (buf : EditableBuffer) (keymod : UInt32) (text : List UInt32)
    (pos : Nat) (motion : Motion) : Prop :=
  ∃ ed' newPos, moveCursor ed buf keymod motion = .ok ed' ∧ Carried ed keymod newPos ed' ∧
      (Reaches motion ed.multiline text pos newPos ↔ motion.Works text pos)

theorem wordBackFrom_stored (stored : HoldsText 0 s text) (inside : pos ≤ text.length) :
    wordBackFrom s pos = .ok (if 1 < pos ∧ charAt text (pos - 1) = 32 then pos - 2 else pos) := by
  have before : pos - 1 ≤ text.length := by omega
  unfold wordBackFrom
  by_cases further : 1 < pos
  · rw [if_pos further, readChar_stored stored before, ok_bind]
    by_cases space : charAt text (pos - 1) = 32
    · rw [if_pos space, if_pos ⟨further, space⟩]
      rfl
    · rw [if_neg space, if_neg fun both => space both.2]
      rfl
  · rw [if_neg further, if_neg fun both => further both.1]
    rfl

theorem wordBack_works_iff {first : Nat}
    (began : first = if 1 < pos ∧ charAt text (pos - 1) = 32 then pos - 2 else pos)
    (run : RunStart (charAt text · = 32) (first + 1) newPos) :
    newPos ≤ pos ∧ (pos ≠ 0 → newPos ≠ pos) ↔ Motion.wordBack.Works text pos := by
  have le := run.le
  unfold Motion.Works
  dsimp only
  by_cases behind : 1 < pos ∧ charAt text (pos - 1) = 32
  · -- the space behind the cursor is passed over
    rw [if_pos behind] at began
    refine iff_of_true ⟨by omega, fun _ => by omega⟩ ⟨?_, by omega⟩
    rintro ⟨-, start | letter⟩
    · omega
    · exact letter behind.2
  rw [if_neg behind] at began
  rw [began] at run le
  by_cases here : charAt text pos = 32
  · -- the scan ends before it starts, behind this very space
    have ahead := run.eq_iff.mpr here
    refine iff_of_false (fun moved => by omega) ?_
    rintro ⟨notBefore, -⟩
    refine notBefore ⟨here, ?_⟩
    by_cases start : pos ≤ 1
    · exact .inl start
    · exact .inr fun space => behind ⟨by omega, space⟩
  · have further : newPos ≠ pos + 1 :=
      fun same => here (run.eq_iff.mp same)
    have back : newPos ≤ pos := by omega
    have beforeRun : RunStart (charAt text · = 32) pos newPos :=
      { le := back
        clear := fun i start below => run.clear i start (by omega)
        edge := run.edge }
    cases pos with
    | zero =>
      refine iff_of_true ⟨back, fun moved => absurd rfl moved⟩ ⟨?_, by omega⟩
      exact fun both => here both.1
    | succ before =>
      have moves : newPos ≠ before + 1 ↔ ¬ charAt text before = 32 := not_congr beforeRun.eq_iff
      constructor
      · rintro ⟨-, moved⟩
        refine ⟨fun both => here both.1, ?_⟩
        rintro ⟨one, space⟩
        obtain rfl : before = 0 := by omega
        exact moves.mp (moved (Nat.succ_ne_zero 0)) space
      · rintro ⟨-, notFirst⟩
        refine ⟨back, fun _ => moves.mpr fun space => ?_⟩
        by_cases one : before = 0
        · exact notFirst ⟨by omega, one ▸ space⟩
        · exact behind ⟨by omega, space⟩

theorem decided_wordBack (holds : buf.Holds s text) (cursor : ed.pos = pos)
    (inside : pos ≤ text.length) : Decided ed buf keymod text pos .wordBack := by
  generalize fromEq : (if 1 < pos ∧ charAt text (pos - 1) = 32 then pos - 2 else pos) = first
  have le : first ≤ pos := by
    rw [← fromEq]
    split <;> omega
  obtain ⟨last, found, lastLe, run⟩ := wordBackLoop_run holds.stored (Nat.le_trans le inside)
  generalize newEq : (if charAt text last = 32 then last + 1 else last) = newPos at run
  refine ⟨ed.seekTo keymod newPos, newPos, ?_, .inl rfl, ?_⟩
  · have nonneg : ¬ ed.pos < 0 := by omega
    rw [moveCursor, wordBack, if_neg nonneg, holds.memory, cursor, Int.toNat_natCast]
    simp only [pointee, Option.elim, ok_bind,
      wordBackFrom_stored holds.stored inside, fromEq, found,
      readChar_stored holds.stored (Nat.le_trans lastLe (Nat.le_trans le inside)), newEq]
    rfl
  · rw [reaches_back_iff rfl inside]
    simp only [reduceCtorEq, false_implies, true_implies, true_and]
    exact wordBack_works_iff fromEq.symm run

theorem wordForwFrom_stored (stored : HoldsText 0 s text) (inside : pos ≤ text.length) :
    wordForwFrom s text.length pos =
      .ok (if 1 < text.length ∧ charAt text pos = 32 then pos + 1 else pos) := by
  unfold wordForwFrom
  by_cases further : 1 < text.length
  · rw [if_pos further, readChar_stored stored inside, ok_bind]
    by_cases space : charAt text pos = 32
    · rw [if_pos space, if_pos ⟨further, space⟩]
      rfl
    · rw [if_neg space, if_neg fun both => space both.2]
      rfl
  · rw [if_neg further, if_neg fun both => further both.1]
    rfl

theorem wordForw_works_iff {first : Nat} (inside : pos < text.length)
    (began : first = if 1 < text.length ∧ charAt text pos = 32 then pos + 1 else pos)
    (run : RunEnd (fun i => charAt text i = 0 ∨ charAt text i = 32) text.length first newPos) :
    newPos ≤ text.length ∧ pos ≤ newPos ∧ (pos ≠ text.length → newPos ≠ pos) ↔
      Motion.wordForw.Works text pos := by
  have ge := run.ge
  have within := run.inside
  unfold Motion.Works
  dsimp only
  by_cases ahead : 1 < text.length ∧ charAt text pos = 32
  · rw [if_pos ahead] at began
    refine iff_of_true ⟨within, by omega, fun _ => by omega⟩ fun _ => ⟨?_, ?_⟩
    · rw [ahead.2]
      decide
    · omega
  · rw [if_neg ahead] at began
    rw [began] at run ge
    have moves : newPos ≠ pos ↔
        ¬ (pos = text.length ∨ charAt text pos = 0 ∨ charAt text pos = 32) :=
      not_congr run.eq_iff
    constructor
    · rintro ⟨-, -, moved⟩ notEnd
      have letter := moves.mp (moved notEnd)
      exact ⟨fun nul => letter (.inr (.inl nul)), fun both => letter (.inr (.inr both.1))⟩
    · intro works
      refine ⟨within, ge, fun notEnd => moves.mpr ?_⟩
      obtain ⟨notNul, notAlone⟩ := works notEnd
      rintro (last | nul | space)
      · exact notEnd last
      · exact notNul nul
      · by_cases alone : text.length = 1
        · exact notAlone ⟨space, alone⟩
        · exact ahead ⟨by omega, space⟩

theorem decided_wordForw (holds : buf.Holds s text) (cursor : ed.pos = pos)
    (inside : pos ≤ text.length) : Decided ed buf keymod text pos .wordForw := by
  by_cases atEnd : pos = text.length
  · refine ⟨ed, pos, ?_, .inr ⟨rfl, cursor⟩, ?_⟩
    · have last : ed.pos = buf.len := by
        rw [cursor, holds.len, atEnd]
      rw [moveCursor, wordForw, if_pos last]
      rfl
    · rw [reaches_forward_iff rfl]
      simp only [reduceCtorEq, false_implies, true_implies, true_and]
      exact iff_of_true ⟨inside, Nat.le_refl pos, fun notEnd => absurd atEnd notEnd⟩
        fun notEnd => absurd atEnd notEnd
  have before : pos < text.length := by omega
  generalize fromEq : (if 1 < text.length ∧ charAt text pos = 32 then pos + 1 else pos) = first
  have firstInside : first ≤ text.length := by
    rw [← fromEq]
    split <;> omega
  obtain ⟨newPos, found, run⟩ := wordForwLoop_run holds.stored firstInside
  refine ⟨ed.seekTo keymod newPos, newPos, ?_, .inl rfl, ?_⟩
  · have notLast : ¬ ed.pos = buf.len := by
      rw [cursor, holds.len]
      omega
    have nonneg : ¬ ed.pos < 0 := by omega
    rw [moveCursor, wordForw, if_neg notLast, if_neg nonneg, holds.memory,
      cursor, Int.toNat_natCast, holds.len]
    simp only [pointee, Option.elim, ok_bind,
      wordForwFrom_stored holds.stored inside, fromEq, found]
    rfl
  · rw [reaches_forward_iff rfl]
    simp only [reduceCtorEq, false_implies, true_implies, true_and]
    exact wordForw_works_iff before fromEq.symm run

theorem decided_cursorHome (holds : buf.Holds s text) (cursor : ed.pos = pos)
    (inside : pos ≤ text.length) : Decided ed buf keymod text pos .cursorHome := by
  have reaches : ∀ newPos, newPos ≤ pos →
      (ed.multiline = true → RunStart (charAt text · = 10) pos newPos) →
        Reaches .cursorHome ed.multiline text pos newPos := fun newPos le run =>
    (reaches_back_iff rfl inside).mpr ⟨le, fun _ => run, fun other => absurd other (by decide)⟩
  unfold Decided
  rw [moveCursor, cursorHome]
  by_cases multiline : ed.multiline = true
  case neg =>
    rw [if_neg multiline]
    exact ⟨_, 0, rfl, .inl rfl, iff_of_true
      (reaches 0 (Nat.zero_le pos) fun held => absurd held multiline) trivial⟩
  rw [if_pos multiline]
  by_cases first : pos = 0
  · have start : ed.pos = 0 := by
      rw [cursor, first]
      rfl
    rw [if_pos start]
    refine ⟨ed, pos, rfl, .inr ⟨rfl, cursor⟩, iff_of_true ?_ trivial⟩
    exact reaches pos (Nat.le_refl pos) fun _ => first ▸ .zero
  · have notStart : ¬ ed.pos = 0 := by omega
    have nonneg : ¬ ed.pos < 0 := by omega
    obtain ⟨start, found, run⟩ := cursorHomeLoop_run holds.stored inside
    rw [if_neg notStart, if_neg nonneg, holds.memory, cursor, Int.toNat_natCast]
    simp only [pointee, Option.elim, ok_bind, found]
    exact ⟨_, start, rfl, .inl rfl, iff_of_true (reaches start run.le fun _ => run) trivial⟩

theorem decided_cursorEnd (holds : buf.Holds s text) (cursor : ed.pos = pos)
    (inside : pos ≤ text.length) : Decided ed buf keymod text pos .cursorEnd := by
  have reaches : ∀ newPos, newPos ≤ text.length → pos ≤ newPos → (ed.multiline = true →
          RunEnd (charAt text · = 10) text.length pos newPos) →
        Reaches .cursorEnd ed.multiline text pos newPos :=
    fun newPos le ge run =>
      (reaches_forward_iff rfl).mpr ⟨le, ge, fun _ => run, fun other => absurd other (by decide)⟩
  unfold Decided
  rw [moveCursor, cursorEnd, holds.len]
  by_cases multiline : ed.multiline = true
  case neg =>
    rw [if_neg multiline]
    exact ⟨_, text.length, rfl, .inl rfl, iff_of_true
      (reaches _ (Nat.le_refl _) inside fun held => absurd held multiline)
      trivial⟩
  rw [if_pos multiline]
  by_cases atEnd : pos = text.length
  · have last : ed.pos = text.length := by
      rw [cursor, atEnd]
    rw [if_pos last]
    refine ⟨ed, pos, rfl, .inr ⟨rfl, cursor⟩, iff_of_true ?_ trivial⟩
    exact reaches pos inside (Nat.le_refl pos) fun _ => atEnd ▸ .atEnd
  have notLast : ¬ ed.pos = text.length := by omega
  have nonneg : ¬ ed.pos < 0 := by omega
  rw [if_neg notLast, if_neg nonneg, holds.memory, cursor, Int.toNat_natCast]
  simp only [pointee, Option.elim, ok_bind, readChar_stored holds.stored inside]
  by_cases newline : charAt text pos = 10
  · rw [if_pos newline]
    exact ⟨ed, pos, rfl, .inr ⟨rfl, cursor⟩, iff_of_true
      (reaches pos inside (Nat.le_refl pos) fun _ => .here inside newline)
      trivial⟩
  · obtain ⟨stop, found, run⟩ :=
      cursorEndLoop_run holds.stored inside newline
    have within : ¬ text.length < stop := Nat.not_lt_of_le run.inside
    rw [if_neg newline, found, ok_bind, if_neg within]
    exact ⟨_, stop, rfl, .inl rfl, iff_of_true
      (reaches stop run.inside run.ge fun _ => run) trivial⟩

theorem decided_cursorLeft (buf : EditableBuffer) (cursor : ed.pos = pos)
    (inside : pos ≤ text.length) : Decided ed buf keymod text pos .cursorLeft := by
  have reaches : Reaches .cursorLeft ed.multiline text pos (pos - 1) :=
    (reaches_back_iff rfl inside).mpr ⟨Nat.sub_le pos 1, fun other => absurd other (by decide),
        fun other => absurd other (by decide)⟩
  refine ⟨cursorLeft ed keymod, pos - 1, rfl, ?_, iff_of_true reaches trivial⟩
  unfold cursorLeft
  split
  case isTrue =>
    have back : ed.pos - 1 = (pos - 1 : Nat) := by omega
    have step : ed.pos - (pos - 1 : Nat) = 1 := by omega
    refine .inl ?_
    rw [Editable.seekTo, back, step]
  case isFalse =>
    have start : ed.pos = 0 := by omega
    refine .inr ⟨?_, by omega⟩
    rw [← start]

theorem decided_cursorRight (holds : buf.Holds s text) (cursor : ed.pos = pos)
    (inside : pos ≤ text.length) : Decided ed buf keymod text pos .cursorRight := by
  have reaches : ∀ newPos, newPos ≤ text.length → pos ≤ newPos →
      Reaches .cursorRight ed.multiline text pos newPos := fun newPos le ge =>
    (reaches_forward_iff rfl).mpr
      ⟨le, ge, fun other => absurd other (by decide), fun other => absurd other (by decide)⟩
  unfold Decided
  rw [moveCursor, cursorRight, holds.len]
  split
  case isTrue =>
    refine ⟨_, pos + 1, rfl, .inl ?_, iff_of_true (reaches _ (by omega) (Nat.le_succ pos)) trivial⟩
    have ahead : ed.pos + 1 = (pos + 1 : Nat) := by omega
    have step : ed.sel + (ed.pos - (pos + 1 : Nat)) = ed.sel - 1 := by omega
    rw [Editable.seekTo, ahead, step]
  case isFalse =>
    exact ⟨ed, pos, rfl, .inr ⟨rfl, cursor⟩, iff_of_true
      (reaches pos inside (Nat.le_refl pos)) trivial⟩

theorem decided (holds : buf.Holds s text) (cursor : ed.pos = pos) (inside : pos ≤ text.length)
    (keymod : UInt32) (motion : Motion) : Decided ed buf keymod text pos motion := by
  cases motion with
  | wordBack => exact decided_wordBack holds cursor inside
  | wordForw => exact decided_wordForw holds cursor inside
  | cursorHome => exact decided_cursorHome holds cursor inside
  | cursorEnd => exact decided_cursorEnd holds cursor inside
  | cursorLeft => exact decided_cursorLeft buf cursor inside
  | cursorRight => exact decided_cursorRight holds cursor inside

/--
A motion does what it is to, of any text and selection, exactly where the
cursor is not at a space, or a NUL, that it does not get over.
-/
theorem moveCursor_moves_iff (holds : buf.Holds s text) (cursor : ed.pos = pos)
    (inside : pos ≤ text.length) (keymod : UInt32) (motion : Motion) :
    ∃ ed', moveCursor ed buf keymod motion = .ok ed' ∧
        (Moves motion keymod text ed ed' ↔ motion.Works text pos) := by
  obtain ⟨ed', newPos, moved, carried, reaches⟩ := decided holds cursor inside keymod motion
  exact ⟨ed', moved, (moves_iff cursor carried).trans reaches⟩

end

/-- The buffer of the text `a b` -/
def twoWords : EditableBuffer where
  s := some [97, 32, 98, 0]
  len := 3
  maxLen := 16
  reallocable := true
  infoSize := 0

theorem holds_twoWords : twoWords.Holds [97, 32, 98, 0] [97, 32, 98] :=
  ⟨rfl, rfl, List.prefix_rfl, by decide⟩

def cursorField (pos : Nat) : Editable := { wordField with pos := pos, sel := -1 }

theorem moveCursor_moves_iff_last : ∃ ed',
      moveCursor (cursorField 3) twoWords keymodShift .wordBack = .ok ed' ∧
        (Moves .wordBack keymodShift [97, 32, 98] (cursorField 3) ed' ↔
          Motion.wordBack.Works [97, 32, 98] 3) :=
  moveCursor_moves_iff holds_twoWords rfl (by decide) keymodShift .wordBack

theorem wordBack_goes_on : moveCursor (cursorField 1) twoWords 0 .wordBack =
        .ok { cursorField 1 with pos := 2, sel := 0 } ∧
      ¬ Moves .wordBack 0 [97, 32, 98] (cursorField 1)
          { cursorField 1 with pos := 2, sel := 0 } := by
  refine ⟨rfl, fun moves => ?_⟩
  have back := moves.reaches.back rfl
  exact absurd back (by decide)

end Agar.Gui
