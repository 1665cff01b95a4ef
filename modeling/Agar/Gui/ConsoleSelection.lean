import Agar.Gui.Console

namespace Agar.Gui

open Agar.Lib

/-!
# The selection of a console

A drag from one line to another is to select the lines between them, and the
exported text to be these lines, in that order.  The selection is kept where
lines are appended, and not looked at where a failed message frees them.
-/

/-- The text of lines, each followed by a newline -/
def joinedLines (lines : List ConsoleLine) : List UInt8 := lines.flatMap fun ln => ln.text ++ [10]

/-- The lines from one index to another, which may be the smaller one -/
def linesFrom (lines : List ConsoleLine) (a b : Int) : List ConsoleLine :=
  if a ≤ b then (lines.drop a.toNat).take (b - a + 1).toNat
  else ((lines.drop b.toNat).take (a - b + 1).toNat).reverse

/-- A console, with the last drag and whether it has just been drawn -/
structure ConsoleSession where
  cons : Console
  drag : Option (Int × Int)
  drawn : Bool

namespace Console

variable {cons : Console}

/-! ## The exported text -/

/-- There is a line at an index. -/
def HasLine (cons : Console) (i : Int) : Prop := 0 ≤ i ∧ i < cons.nLines

/-- The selected lines are in the console. -/
def Valid (cons : Console) : Prop :=
  cons.pos = -1 ∨ cons.HasLine cons.pos ∧ cons.HasLine (cons.pos + cons.sel)

theorem exists_line {i : Nat} (short : i < cons.nLines) : ∃ ln,
      cons.line? i = some ln ∧ cons.lines[i]? = some ln ∧
        cons.lines.drop i = ln :: cons.lines.drop (i + 1) := by
  have there : cons.line? i = cons.lines[i]? := by
    rw [line?, if_pos (Int.natCast_nonneg i), Int.toNat_natCast]
  rw [there]
  exact ⟨_, List.getElem?_eq_getElem short, List.getElem?_eq_getElem short,
    List.drop_eq_getElem_cons short⟩

theorem exportLoop_down {turns distance i : Nat} (last : cons.pos + cons.sel = i + distance)
    (short : i + distance < cons.nLines) (enough : distance < turns) :
    cons.exportLoop 1 turns i = (cons.lines.drop i).take (distance + 1) := by
  induction turns generalizing i distance with
  | zero => exact absurd enough (Nat.not_lt_zero distance)
  | succ turns ih =>
    obtain ⟨ln, found, _, split⟩ :=
      exists_line (Nat.lt_of_le_of_lt (Nat.le_add_right i distance) short)
    rw [exportLoop, found, split, List.take_succ_cons]
    dsimp only
    cases distance with
    | zero => rw [if_pos (by omega), List.take_zero]
    | succ distance =>
      have later := @ih distance (i + 1) (by omega) (by omega) (by omega)
      rw [if_neg (by omega), ← later]
      rfl

theorem exportLoop_up {turns distance i : Nat} (last : cons.pos + cons.sel = i)
    (short : i + distance < cons.nLines) (enough : distance < turns) :
    cons.exportLoop (-1) turns ((i + distance : Nat) : Int) =
      ((cons.lines.drop i).take (distance + 1)).reverse := by
  induction turns generalizing distance with
  | zero => exact absurd enough (Nat.not_lt_zero distance)
  | succ turns ih =>
    obtain ⟨ln, found, there, _⟩ := exists_line short
    have lastLine : (cons.lines.drop i)[distance]? = some ln := by rw [List.getElem?_drop, there]
    rw [exportLoop, found, List.take_add_one, lastLine, Option.toList_some,
      List.reverse_append, List.reverse_singleton, List.singleton_append]
    dsimp only
    cases distance with
    | zero => rw [if_pos (by omega), List.take_zero, List.reverse_nil]
    | succ distance =>
      have later := @ih distance (by omega) (by omega)
      rw [if_neg (by omega), ← later]
      congr 2
      omega

theorem exportedLines_eq (first : cons.HasLine cons.pos)
    (last : cons.HasLine (cons.pos + cons.sel)) :
    cons.exportedLines = linesFrom cons.lines cons.pos (cons.pos + cons.sel) := by
  obtain ⟨i, position⟩ := Int.eq_ofNat_of_zero_le first.1
  obtain ⟨j, target⟩ := Int.eq_ofNat_of_zero_le last.1
  have shortFirst := first.2
  have shortLast := last.2
  unfold exportedLines linesFrom
  rw [position] at shortFirst ⊢
  rw [target] at shortLast
  by_cases upward : cons.sel < 0
  · have before : j ≤ i := by
      omega
    obtain ⟨distance, rfl⟩ := Nat.exists_eq_add_of_le before
    have count : (((j + distance : Nat) : Int) - ((j + distance : Nat) + cons.sel)
          + 1).toNat = distance + 1 := by
      omega
    have start : (((j + distance : Nat) : Int) + cons.sel).toNat = j := by omega
    rw [if_pos upward, if_neg (by omega), count, start]
    exact exportLoop_up target (by omega) (by omega)
  · have before : i ≤ j := by
      omega
    obtain ⟨distance, rfl⟩ := Nat.exists_eq_add_of_le before
    have count : ((i : Int) + cons.sel - i + 1).toNat = distance + 1 := by omega
    rw [if_neg upward, if_pos (by omega), count, Int.toNat_natCast]
    exact exportLoop_down (by omega) (by omega) (by omega)

theorem writeAt_append {size : Nat} {memory : Buffer size} {written : List UInt8}
    (bytes : List UInt8) (segment : SegmentAt memory.bytes 0 written)
    (inside : written.length + bytes.length ≤ size) :
    ∃ next, writeAt memory written.length bytes = .ok next ∧
        SegmentAt next.bytes 0 (written ++ bytes) := by
  obtain ⟨next, copied⟩ := Buffer.copy?_inside memory inside
  refine ⟨next, ?_, Buffer.segment_append_copy? segment copied⟩
  rw [writeAt, copied]

theorem writeLines_append {size : Nat} (lines : List ConsoleLine) {memory : Buffer size}
    {written : List UInt8} (segment : SegmentAt memory.bytes 0 (written ++ [0]))
    (room : written.length + (joinedLines lines).length + 1 ≤ size) :
    ∃ next, writeLines lines memory written.length = .ok next ∧
        SegmentAt next.bytes 0 (written ++ joinedLines lines ++ [0]) := by
  induction lines generalizing memory written with
  | nil =>
    refine ⟨memory, rfl, ?_⟩
    rwa [joinedLines, List.flatMap_nil, List.append_nil]
  | cons ln rest ih =>
    have joined : joinedLines (ln :: rest) = ln.text ++ [10] ++ joinedLines rest := rfl
    rw [joined, List.length_append, List.length_append, List.length_singleton] at room
    obtain ⟨first, wroteText, hasText⟩ :=
      writeAt_append ln.text (segmentAt_append.mp segment).1 (by omega)
    obtain ⟨second, wroteNewline, hasNewline⟩ :=
      writeAt_append [10] hasText (by
        rw [List.length_append, List.length_singleton]
        omega)
    obtain ⟨third, wroteNul, hasNul⟩ :=
      writeAt_append [0] hasNewline (by
        rw [List.length_append, List.length_append, List.length_singleton, List.length_singleton]
        omega)
    obtain ⟨last, wroteRest, hasRest⟩ :=
      ih hasNul (by
        rw [List.length_append, List.length_append, List.length_singleton]
        omega)
    rw [List.length_append] at wroteNewline
    rw [List.length_append, List.length_append, List.length_singleton] at wroteNul wroteRest
    refine ⟨last, ?_, ?_⟩
    · exact bind_eq_ok.mpr ⟨first, wroteText, bind_eq_ok.mpr ⟨second, wroteNewline, bind_eq_ok.mpr
          ⟨third, wroteNul, wroteRest⟩⟩⟩
    · rw [joined]
      simpa only [List.append_assoc] using hasRest

theorem zero_notMem_joinedLines (lines : List ConsoleLine) : 0 ∉ joinedLines lines := by
  intro member
  obtain ⟨ln, _, inLine⟩ := List.mem_flatMap.mp member
  rcases List.mem_append.mp inLine with inText | newline
  · exact ln.noNul inText
  · exact absurd (List.mem_singleton.mp newline) (by decide)

theorem length_joinedLines_le (lines : List ConsoleLine) : (joinedLines lines).length ≤
      (lines.map fun ln => ln.text.length + 2).sum := by
  induction lines with
  | nil => exact le_rfl
  | cons ln rest ih =>
    have joined : joinedLines (ln :: rest) = ln.text ++ [10] ++ joinedLines rest := rfl
    rw [joined, List.length_append, List.length_append,
      List.length_singleton, List.map_cons, List.sum_cons]
    omega

theorem exportText_eq (selected : cons.pos ≠ -1) (memory : (size : Nat) → Buffer size) :
    cons.exportText true memory = .ok (some (joinedLines cons.exportedLines)) := by
  unfold exportText
  rw [if_neg selected, if_neg (by decide)]
  generalize sizes : 1 + (cons.exportedLines.map fun ln => ln.text.length + 2).sum = sizeReq
  have room := length_joinedLines_le cons.exportedLines
  have nothing : SegmentAt (memory sizeReq).bytes 0 [] :=
    ⟨Nat.zero_le _, fun _ impossible => absurd impossible (Nat.not_lt_zero _)⟩
  obtain ⟨first, wroteNul, hasNul⟩ :=
    writeAt_append [0] nothing (by
      rw [List.length_nil, List.length_singleton]
      omega)
  obtain ⟨last, wroteLines, hasLines⟩ :=
    writeLines_append cons.exportedLines hasNul (by
      rw [List.length_nil]
      omega)
  have read := cString_of_segment hasLines (zero_notMem_joinedLines _)
  rw [List.drop_zero, List.nil_append] at read
  refine bind_eq_ok.mpr ⟨first, wroteNul, bind_eq_ok.mpr ⟨last, wroteLines, ?_⟩⟩
  rw [read]
  rfl

/-- The view does not go beyond the last line. -/
def Bounded (cons : Console) : Prop := (cons.rOffs : Int) ≤ max 0 (cons.nLines - cons.rVisible)

/-- A line is selected. -/
def Selected (cons : Console) (i : Int) : Prop :=
  cons.pos ≠ -1 ∧ min cons.pos (cons.pos + cons.sel) ≤ i ∧ i ≤ max cons.pos (cons.pos + cons.sel)

end Console

namespace ConsoleSession

/-- The calls on a console, and what its user does -/
inductive Call where
  | appendLine
      (granted : Bool)
      (s : ConsoleLine)
  | msg
      (granted : Bool)
      (text : Option ConsoleLine)
  | msgS
      (granted : Bool)
      (s : ConsoleLine)
  | clear
  | selectAll
  | press (x y : Int)
  | motion (x y : Int)
  | release
  | scrollUp
  | scrollDown
  | pageUp
  | pageDown
  | fontChange (lineskip : Int)
  | sizeAllocate (w h wBar : Int)
  | draw

/-- A console that was just made -/
def new (noAutoScroll : Bool) : ConsoleSession where
  cons := Console.new noAutoScroll
  drag := none
  drawn := false

/-- The console looks at the position of a press. -/
def Presses (session : ConsoleSession) (x : Int) : Prop :=
  session.cons.InRange x ∧ session.cons.nLines > 0

/-- The console looks at the position of the mouse. -/
def Moves (session : ConsoleSession) (x : Int) : Prop :=
  session.cons.selecting = true ∧ session.cons.InRange x ∧ session.cons.nLines > 0

instance (session : ConsoleSession) (x : Int) : Decidable (session.Presses x) :=
  inferInstanceAs (Decidable (_ ∧ _))

instance (session : ConsoleSession) (x : Int) : Decidable (session.Moves x) :=
  inferInstanceAs (Decidable (_ ∧ _))

/--
Make a call.  A drag goes from the line that is pressed to the last line that
is pointed at, until the console is cleared or all of it is selected.
-/
def after (session : ConsoleSession) : Call → ConsoleSession
  | .appendLine granted s => ⟨session.cons.appendLine granted s, session.drag, false⟩
  | .msg granted text => ⟨session.cons.msg granted text, session.drag, false⟩
  | .msgS granted s => ⟨session.cons.msgS granted s, session.drag, false⟩
  | .clear => ⟨session.cons.clear, none, false⟩
  | .selectAll => ⟨session.cons.menuSelectAll, none, false⟩
  | .press x y =>
    let pressed := session.cons.mapLine y
    ⟨session.cons.beginSelect x y,
      if session.Presses x then some (pressed, pressed) else session.drag,
      false⟩
  | .motion x y =>
    ⟨session.cons.mouseMotion x y, if session.Moves x then
        session.drag.map fun drag => (drag.1, session.cons.mapLine y)
      else session.drag,
      false⟩
  | .release => ⟨session.cons.closeSelect, session.drag, false⟩
  | .scrollUp => ⟨session.cons.scrollUp, session.drag, false⟩
  | .scrollDown => ⟨session.cons.scrollDown, session.drag, false⟩
  | .pageUp => ⟨session.cons.pageUp, session.drag, false⟩
  | .pageDown => ⟨session.cons.pageDown, session.drag, false⟩
  | .fontChange lineskip => ⟨session.cons.onFontChange lineskip, session.drag, false⟩
  | .sizeAllocate w h wBar => ⟨session.cons.sizeAllocate w h wBar, session.drag, false⟩
  | .draw => ⟨session.cons.draw, session.drag, true⟩

/-- Every call has a result. -/
def step (session : ConsoleSession) (call : Call) : Option ConsoleSession :=
  some (session.after call)

/-- The font of the console is known, and it has been given a size. -/
def LaidOut (session : ConsoleSession) : Prop := 0 < session.cons.lineskip ∧ 8 ≤ session.cons.rH

/--
Fonts have a height, which is known before the console is given a size; only
then it is drawn and its user sees it.
-/
def Admitted (session : ConsoleSession) : Call → Prop
  | .fontChange lineskip => 0 < lineskip
  | .sizeAllocate .. => 0 < session.cons.lineskip
  | .press .. | .motion .. | .scrollUp | .scrollDown | .pageUp | .pageDown
  | .draw => session.LaidOut
  | _ => True

/-- The ends of the drag, or of the selection when there is none -/
def ends (session : ConsoleSession) : Int × Int :=
  session.drag.getD (session.cons.pos, session.cons.pos + session.cons.sel)

/--
The selection is in the console and covers the last drag, its text is
exported inside the memory that is allocated for it, and the view does not go
beyond the last line when it is drawn.
-/
structure Right (session : ConsoleSession) : Prop where
  valid : session.cons.Valid
  covers : ∀ a b, session.drag = some (a, b) →
      ∀ i, session.cons.Selected i ↔ min a b ≤ i ∧ i ≤ max a b
  exported : ∀ granted memory, session.cons.exportText granted memory =
        .ok (if session.cons.pos = -1 ∨ granted = false then none
        else some (joinedLines (linesFrom session.cons.lines session.ends.1 session.ends.2)))
  scrolled : session.drawn = true → session.cons.Bounded

/-- When the mouse is moved to where the drag and the selection stay the same -/
def MotionKeeps (session : ConsoleSession) (y : Int) : Prop :=
  let newPos := session.cons.mapLine y
  match session.drag with
  | none => session.cons.pos = -1 ∨ newPos < session.cons.nLines
  | some (a, _) =>
    if newPos = 0 then
      a = (session.cons.nLines : Int) - 1 ∧ joinedLines session.cons.lines =
          joinedLines session.cons.lines.reverse
    else session.cons.pos = a ∧ newPos < session.cons.nLines

/-- When a call keeps the selection and the view right -/
def Keeps (session : ConsoleSession) : Call → Prop
  | .msg granted text => granted = true → text = none → session.cons.pos = -1
  | .selectAll => 0 < session.cons.nLines
  | .press x y => session.Presses x → session.cons.mapLine y < session.cons.nLines
  | .motion x y => session.Moves x → session.MotionKeeps y
  | .draw => session.cons.nLines = 0 ∨ session.cons.scrollTo = false → session.cons.Bounded
  | _ => True

variable {session : ConsoleSession}

/-! ## Selections and drags -/

theorem exportText_eq (valid : session.cons.Valid) (granted : Bool)
    (memory : (size : Nat) → Buffer size) :
    session.cons.exportText granted memory = .ok (if session.cons.pos = -1 ∨ granted = false then
        none
      else
        some (joinedLines (linesFrom session.cons.lines session.cons.pos
            (session.cons.pos + session.cons.sel)))) := by
  by_cases unselected : session.cons.pos = -1
  · rw [Console.exportText, if_pos unselected, if_pos (.inl unselected)]
  · cases granted with
    | false =>
      rw [Console.exportText, if_neg unselected, if_pos (Or.inr rfl)]
      rfl
    | true =>
      have selected := valid.resolve_left unselected
      have chosen : ¬ (session.cons.pos = -1 ∨ true = false) := by simpa using unselected
      rw [Console.exportText_eq unselected, if_neg chosen,
        Console.exportedLines_eq selected.1 selected.2]

/-- The drag covers the selection, and its lines read like the selected ones. -/
def DragFits (cons : Console) (a b : Int) : Prop :=
  (∀ i, cons.Selected i ↔ min a b ≤ i ∧ i ≤ max a b) ∧
    joinedLines (linesFrom cons.lines cons.pos (cons.pos + cons.sel)) =
      joinedLines (linesFrom cons.lines a b)

variable {cons : Console}

theorem right_iff : session.Right ↔ session.cons.Valid ∧
        (∀ a b, session.drag = some (a, b) → DragFits session.cons a b) ∧
        (session.drawn = true → session.cons.Bounded) := by
  constructor
  · intro right
    refine ⟨right.valid, fun a b drag => ⟨right.covers a b drag, ?_⟩, right.scrolled⟩
    have selected : session.cons.pos ≠ -1 :=
      ((right.covers a b drag a).mpr ⟨min_le_left a b, le_max_left a b⟩).1
    have chosen : ¬ (session.cons.pos = -1 ∨ true = false) := by simpa using selected
    have same :=
      (exportText_eq right.valid true fun _ => .zeroed).symm.trans
        (right.exported true fun _ => .zeroed)
    rw [if_neg chosen, if_neg chosen, ends, drag] at same
    exact Option.some.inj (Except.ok.inj same)
  · rintro ⟨valid, fits, scrolled⟩
    refine ⟨valid, fun a b drag => (fits a b drag).1, fun granted memory => ?_, scrolled⟩
    rw [exportText_eq valid, ends]
    cases drag : session.drag with
    | none => rfl
    | some ends =>
      rw [(fits ends.1 ends.2 drag).2]
      rfl

/-- The same lines, with the same selection -/
structure SameSelection (cons next : Console) : Prop where
  lines : next.lines = cons.lines
  pos : next.pos = cons.pos
  sel : next.sel = cons.sel

/-- More lines, with the same selection -/
structure Appended (cons next : Console) : Prop where
  lines : ∃ more, next.lines = cons.lines ++ more
  pos : next.pos = cons.pos
  sel : next.sel = cons.sel

variable {next : Console}

theorem SameSelection.appended (same : SameSelection cons next) : Appended cons next :=
  ⟨⟨[], by rw [same.lines, List.append_nil]⟩, same.pos, same.sel⟩

theorem Appended.valid (appended : Appended cons next) (valid : cons.Valid) : next.Valid := by
  obtain ⟨⟨more, lines⟩, pos, sel⟩ := appended
  have longer : cons.nLines ≤ next.nLines := by
    unfold Console.nLines
    rw [lines, List.length_append]
    exact Nat.le_add_right _ _
  have kept : ∀ {i : Int}, cons.HasLine i → next.HasLine i :=
    fun there => ⟨there.1, lt_of_lt_of_le there.2 (Int.ofNat_le.mpr longer)⟩
  unfold Console.Valid at *
  rw [pos, sel]
  exact valid.imp_right fun both => ⟨kept both.1, kept both.2⟩

end ConsoleSession

end Agar.Gui
