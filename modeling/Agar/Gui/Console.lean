import Agar.Lib.Buffer
import Agar.Lib.Outcome
import Agar.Lib.Runs

namespace Agar.Gui

open Agar.Lib

/-!
# Consoles

An `AG_Console` shows lines of text from `rOffs` on.  Its selection is the
line `pos`, or none where `pos` is `-1`, and the signed distance `sel` to the
other end.  The exported text is written to memory that is allocated for it.
-/

/-- The text of an `AG_ConsoleLine`, `len` bytes without a NUL -/
@[ext]
structure ConsoleLine where
  text : List UInt8
  noNul : 0 ∉ text

instance : DecidableEq ConsoleLine := fun _ _ => decidable_of_iff _ ConsoleLine.ext_iff.symm

/-- `AG_Console`, for which `r.x` and `r.y` are always 0 -/
structure Console where
  noAutoScroll : Bool
  selecting : Bool
  padding : Int
  lineskip : Int
  lines : List ConsoleLine
  rOffs : Nat
  rVisible : Int
  scrollTo : Bool
  pos : Int
  sel : Int
  rW : Int
  rH : Int
  h : Int
  deriving DecidableEq

/-- Text is written beyond the memory that was allocated for it. -/
structure WrittenOutside where
  offset : Nat
  deriving Repr, DecidableEq

namespace ConsoleLine

/-- The line of a `NULL` text -/
def empty : ConsoleLine where
  text := []
  noNul := List.not_mem_nil

/-- The line without the newline at its end, which a lone one keeps -/
def trimmed (ln : ConsoleLine) : ConsoleLine :=
  if ln.text.length > 1 ∧ ln.text.getLast? = some 10 then
    { text := ln.text.dropLast
      noNul := fun member => ln.noNul (List.mem_of_mem_dropLast member) }
  else ln

end ConsoleLine

namespace Console

/-- `Init` -/
def new (noAutoScroll : Bool) : Console where
  noAutoScroll := noAutoScroll
  selecting := false
  padding := 4
  lineskip := 0
  lines := []
  rOffs := 0
  rVisible := 0
  scrollTo := false
  pos := -1
  sel := 0
  rW := 0
  rH := 0
  h := 0

def nLines (cons : Console) : Nat := cons.lines.length

/-- `ClampVisible` -/
def clampVisible (cons : Console) : Console :=
  { cons with rOffs := (max 0 (cons.nLines - cons.rVisible)).toNat }

/-- `ScrollUp` -/
def scrollUp (cons : Console) : Console :=
  if (cons.rOffs : Int) - 1 ≥ 0 then { cons with rOffs := cons.rOffs - 1 } else cons

/-- `ScrollDown` -/
def scrollDown (cons : Console) : Console :=
  if cons.nLines > cons.rVisible ∧ (cons.rOffs : Int) + 1 ≤ cons.nLines - cons.rVisible then
    { cons with rOffs := cons.rOffs + 1 }
  else cons

/-- `PageUp` -/
def pageUp (cons : Console) : Console :=
  let newOffs := (cons.rOffs : Int) - cons.rVisible
  let newOffs := if newOffs < 0 then 0 else newOffs
  { cons with rOffs := newOffs.toNat }

/-- `PageDown` -/
def pageDown (cons : Console) : Console :=
  if cons.nLines < cons.rVisible then cons
  else
    let newOffs := (cons.rOffs : Int) + cons.rVisible
    let newOffs :=
      if newOffs > cons.nLines - cons.rVisible then max 0 (cons.nLines - cons.rVisible) else newOffs
    { cons with rOffs := newOffs.toNat }

/-- `MapLine` -/
def mapLine (cons : Console) (yMouse : Int) : Int :=
  if yMouse < cons.padding then cons.rOffs
  else if yMouse > cons.h then cons.nLines - 1
  else
    let sel := (yMouse - cons.padding) / cons.lineskip
    if cons.rOffs + sel ≥ cons.nLines then cons.nLines - 1 else cons.rOffs + sel

/-- The line at an index, where there is one -/
def line? (cons : Console) (i : Int) : Option ConsoleLine :=
  if 0 ≤ i then cons.lines[i.toNat]? else none

/--
The lines that a loop of `AG_ConsoleExportText` passes, from one index on in a
direction: it makes no more turns than there are lines.
-/
def exportLoop (cons : Console) (dir : Int) : Nat → Int → List ConsoleLine
  | 0, _ => []
  | turns + 1, i =>
    match cons.line? i with
    | none => []
    | some ln =>
      ln :: if i = cons.pos + cons.sel then
          []
        else cons.exportLoop dir turns (i + dir)

/-- The lines that are exported -/
def exportedLines (cons : Console) : List ConsoleLine :=
  cons.exportLoop (if cons.sel < 0 then -1 else 1) cons.nLines cons.pos

/-- Copy bytes to memory, at an offset. -/
def writeAt {size : Nat} (memory : Buffer size) (offset : Nat)
    (bytes : List UInt8) : Except WrittenOutside (Buffer size) :=
  match memory.copy? offset bytes with
  | some memory => .ok memory
  | none => .error ⟨offset⟩

/-- The second loop of `AG_ConsoleExportText`: lines are written from `ps`. -/
def writeLines {size : Nat} : List ConsoleLine → Buffer size → Nat →
      Except WrittenOutside (Buffer size)
  | [], memory, _ => .ok memory
  | ln :: rest, memory, ps => do
      let memory ← writeAt memory ps ln.text
      let memory ← writeAt memory (ps + ln.text.length) [10]
      let memory ← writeAt memory (ps + ln.text.length + 1) [0]
      writeLines rest memory (ps + ln.text.length + 1)

/--
`AG_ConsoleExportText`: the string that it returns, or `NULL`, where `memory`
is what `TryMalloc` grants
-/
def exportText (cons : Console) (granted : Bool) (memory : (size : Nat) → Buffer size) :
    Except WrittenOutside (Option (List UInt8)) :=
  if cons.pos = -1 then .ok none
  else
    let sizeReq := 1 + (cons.exportedLines.map fun ln => ln.text.length + 2).sum
    if granted = false then .ok none
    else do
      let s ← writeAt (memory sizeReq) 0 [0]
      let s ← writeLines cons.exportedLines s 0
      return some (cString s.bytes)

/-- `MenuSelectAll` -/
def menuSelectAll (cons : Console) : Console :=
  { cons with pos := 0, sel := (cons.nLines : Int) - 1 }

/-- A position is in the range of columns that the console looks at. -/
def InRange (cons : Console) (x : Int) : Prop := ¬ (x < 0 ∨ x > 0 + cons.rW)

instance (cons : Console) (x : Int) : Decidable (cons.InRange x) :=
  inferInstanceAs (Decidable (¬ _))

/-- `BeginSelect` -/
def beginSelect (cons : Console) (x y : Int) : Console :=
  if cons.InRange x then
    if cons.nLines > 0 then { cons with pos := cons.mapLine y, sel := 0, selecting := true }
    else cons
  else cons

/-- `CloseSelect` -/
def closeSelect (cons : Console) : Console := { cons with selecting := false }

/-- `MouseMotion` -/
def mouseMotion (cons : Console) (x y : Int) : Console :=
  if cons.selecting = false ∨ ¬ cons.InRange x then cons
  else if cons.nLines > 0 then
    let newPos := cons.mapLine y
    let newSel := newPos - cons.pos
    if cons.pos + newSel = 0 then { cons with pos := 0, sel := (cons.nLines : Int) - 1 }
    else { cons with sel := newSel }
  else cons

/-- `ComputeVisible` -/
def computeVisible (cons : Console) : Console :=
  { cons with rVisible := (cons.rH - cons.padding * 2) / cons.lineskip }

/-- `OnFontChange`, with the height of lines in the new font -/
def onFontChange (cons : Console) (lineskip : Int) : Console :=
  { cons with lineskip := lineskip, rOffs := 0 }.computeVisible

/-- `AG_WidgetSizeAlloc` and `SizeAllocate`, with the width of the scrollbar -/
def sizeAllocate (cons : Console) (w h wBar : Int) : Console :=
  let cons := { cons with h := h }
  if w < 8 ∨ h < 8 then cons else { cons with rW := w - wBar, rH := h }.computeVisible.clampVisible

/-- `Draw`, as far as it changes the console -/
def draw (cons : Console) : Console :=
  if cons.nLines = 0 then cons
  else if cons.scrollTo then { cons with rOffs := cons.nLines, scrollTo := false }.clampVisible
  else cons

/-- `FreeLines` -/
def freeLines (cons : Console) : Console := { cons with lines := [] }

/-- `AG_ConsoleAppendLine`, where memory is granted or not -/
def appendLine (cons : Console) (granted : Bool) (s : ConsoleLine) : Console :=
  if granted then
    { cons with
      lines := cons.lines ++ [s]
      scrollTo := if cons.noAutoScroll then cons.scrollTo else true }
  else cons

/-- Set the text of the line that was appended last. -/
def setLastText (cons : Console) (ln : ConsoleLine) : Console :=
  { cons with lines := cons.lines.dropLast ++ [ln] }

/--
`AG_ConsoleMsg`, with the text that `TryVasprintf` makes, or none where it
fails
-/
def msg (cons : Console) (granted : Bool) (text : Option ConsoleLine) : Console :=
  if granted then
    let cons := cons.appendLine true .empty
    match text with
    | none => cons.freeLines
    | some text => cons.setLastText text.trimmed
  else cons

/-- `AG_ConsoleMsgS` -/
def msgS (cons : Console) (granted : Bool) (s : ConsoleLine) : Console :=
  if granted then (cons.appendLine true s).setLastText s.trimmed else cons

/-- `AG_ConsoleClear` -/
def clear (cons : Console) : Console := { cons.freeLines with rOffs := 0, pos := -1, sel := 0 }

end Console

end Agar.Gui
