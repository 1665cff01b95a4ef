import Agar.Lib.CString
import Agar.Lib.OrderedForest

namespace Agar.Gui.StyleFonts

open Agar.Lib

/-!
# Fonts of styled widgets

The font of a widget comes from its style attributes, or from those of its
parent.  A `font-family` is a list of names, separated by commas, which is
taken apart in the buffer that is passed on to the children.
-/

/-! ## The data model -/

/-- The comma between two names -/
def comma : UInt8 := 44

/-- What is computed with a `double`: reading one, a percentage, its whole part -/
structure Doubles (δ : Type) where
  strtod : List UInt8 → δ × List UInt8
  percentOf : δ → δ → δ
  toInt : δ → Int

/-- A font, of a face or of the default face -/
structure Font where
  face : Option (List UInt8)
  size : Int
  flags : UInt32
  deriving Repr, DecidableEq

/--
A widget with its style attributes, and with what `AG_LookupStyleSheet` finds
for it in its effective style sheet
-/
structure Widget where
  fontFamily : Option (List UInt8)
  fontSize : Option (List UInt8)
  fontWeight : Option (List UInt8)
  fontStyle : Option (List UInt8)
  cssFamily : Option (List UInt8)
  cssSize : Option (List UInt8)
  cssWeight : Option (List UInt8)
  useText : Bool
  font : Option Font
  deriving Repr, DecidableEq

/-- What a widget passes on to its children -/
structure Inherited (δ : Type) where
  face : List UInt8
  ptSize : δ
  flags : UInt32

/-- `AG_FONT_BOLD` -/
def fontBold : UInt32 := 0x01

/-- `AG_FONT_ITALIC` -/
def fontItalic : UInt32 := 0x02

/-! ## Attributes -/

namespace Widget

/-- An attribute of a widget, or what its style sheet has for it -/
def selected (own css : Option (List UInt8)) : Option (List UInt8) :=
  match own with
  | some text => some text
  | none => css

/-- The `font-family` that `CompileStyleRecursive` selects -/
def family (wid : Widget) (parentFace : List UInt8) : List UInt8 :=
  (selected wid.fontFamily wid.cssFamily).getD parentFace

/-- The `font-size` that `CompileStyleRecursive` selects -/
def ptSize {δ : Type} (doubles : Doubles δ) (wid : Widget) (parentPtSize : δ) : δ :=
  match selected wid.fontSize wid.cssSize with
  | some text =>
    let (v, ep) := doubles.strtod text
    if ep.head? = some 37 then doubles.percentOf parentPtSize v else v
  | none => parentPtSize

/-- Set or clear a flag, as an attribute says. -/
def setFlag (flag : UInt32) (on : List UInt8) (value : Option (List UInt8))
    (flags : UInt32) : UInt32 :=
  match value with
  | some text =>
    if equalsNoCase text on then flags ||| flag
    else if equalsNoCase text (ascii "normal") then flags &&& ~~~flag
    else flags
  | none => flags

/-- The flags that `CompileStyleRecursive` selects -/
def flags (wid : Widget) (parentFlags : UInt32) : UInt32 :=
  setFlag fontItalic (ascii "italic") wid.fontStyle
    (setFlag fontBold (ascii "bold") (selected wid.fontWeight wid.cssWeight) parentFlags)

end Widget

/-! ## Compiling the style -/

/--
The loop over the names in `face`, with what `AG_Strsep` has passed of it: each
comma is replaced by a NUL, and the font in the buffer is fetched then.
-/
def faceLoop (available : List UInt8 → Bool) :
    List UInt8 → List UInt8 → List UInt8 × Option (List UInt8)
  | before, [] =>
    if available (cString before) then (before, some (cString before)) else (before, none)
  | before, c :: rest =>
    if c = comma then
      let face := before ++ 0 :: rest
      if available (cString face) then (face, some (cString face))
      else faceLoop available (before ++ [0]) rest
    else faceLoop available (before ++ [c]) rest

section

variable {δ : Type} (doubles : Doubles δ) (available : List UInt8 → Bool)

/-- `CompileStyleRecursive`, of widgets that have one parent -/
def compileStyleRecursive : OrderedForest Widget → Inherited δ → OrderedForest (Option Font)
  | .empty, _ => .empty
  | .node wid children next, parent =>
    let face := (CString.strlcpy (wid.family parent.face) : CString 256).bytes
    let ptSize := wid.ptSize doubles parent.ptSize
    let flags := wid.flags parent.flags
    if wid.useText then
      let (buffer, fontNew) := faceLoop available [] face
      .node (some ⟨fontNew, doubles.toInt ptSize, flags⟩)
        (compileStyleRecursive children ⟨cString buffer, ptSize, flags⟩)
        (compileStyleRecursive next parent)
    else
      .node wid.font (compileStyleRecursive children ⟨face, ptSize, flags⟩)
        (compileStyleRecursive next parent)

/-- `AG_WidgetCompileStyle`, with what the font of the parent passes on -/
def widgetCompileStyle (wid : Widget) (children : OrderedForest Widget)
    (parent : Inherited δ) : OrderedForest (Option Font) :=
  compileStyleRecursive doubles available (.node wid children .empty) parent

/-! ## What is to hold -/

/-- The names in a `font-family` -/
def names (family : List UInt8) : List (List UInt8) := family.splitOn comma

/--
The fonts that widgets are to use: the first face in the list that is
available, or the default one, where the whole list is inherited
-/
def documentedStyle : OrderedForest Widget → Inherited δ → OrderedForest (Option Font)
  | .empty, _ => .empty
  | .node wid children next, parent =>
    let family := cString (wid.family parent.face)
    let ptSize := wid.ptSize doubles parent.ptSize
    let flags := wid.flags parent.flags
    .node (if wid.useText then
        some ⟨(names family).find? available, doubles.toInt ptSize, flags⟩
      else wid.font)
      (documentedStyle children ⟨family, ptSize, flags⟩)
      (documentedStyle next parent)

/-- The first name in a `font-family`, as far as it fits the buffer -/
def firstName (family : List UInt8) : List UInt8 := (family.takeWhile (· ≠ comma)).take 255

/--
The first name is the first one that is available, or no name in the list is
available.
-/
def Meets (family : List UInt8) : Prop :=
  if available (firstName family) then (names family).find? available = some (firstName family)
  else ∀ name ∈ names family, available name = false

/-- Each widget with a text has a `font-family` that meets this. -/
def AllMeet : OrderedForest Widget → List UInt8 → Prop
  | .empty, _ => True
  | .node wid children next, parentFace =>
    (wid.useText = true → Meets available (cString (wid.family parentFace))) ∧
      AllMeet children (cString (wid.family parentFace)) ∧
      AllMeet next parentFace

end

/-! ## Names -/

section

variable {available : List UInt8 → Bool}

theorem faceLoop_cut {first : List UInt8} (noNul : 0 ∉ first) (passed rest : List UInt8) :
    cString (faceLoop available (first ++ 0 :: passed) rest).1 = first ∧
      (faceLoop available (first ++ 0 :: passed) rest).2 =
        if available first then some first else none := by
  induction rest generalizing passed with
  | nil =>
    rw [faceLoop, cString_terminated noNul]
    split <;> exact ⟨cString_terminated noNul passed, rfl⟩
  | cons c rest ih =>
    have further := fun more => ih (passed ++ [more])
    rw [faceLoop]
    by_cases separates : c = comma
    · rw [if_pos separates]
      dsimp only
      rw [List.append_assoc, List.cons_append, cString_terminated noNul,
        List.append_assoc, List.cons_append]
      split
      case isTrue => exact ⟨cString_terminated noNul _, rfl⟩
      case isFalse refused =>
        have later := further 0
        rw [if_neg refused] at later
        exact later
    · rw [if_neg separates, List.append_assoc, List.cons_append]
      exact further c

theorem faceLoop_first {before : List UInt8} (noNul : 0 ∉ before) (rest : List UInt8)
    (restNoNul : 0 ∉ rest) :
    cString (faceLoop available before rest).1 = before ++ rest.takeWhile (· ≠ comma) ∧
      (faceLoop available before rest).2 = if available (before ++ rest.takeWhile (· ≠ comma)) then
          some (before ++ rest.takeWhile (· ≠ comma))
        else
          none := by
  induction rest generalizing before with
  | nil =>
    rw [faceLoop, cString_of_noNul noNul, List.takeWhile_nil, List.append_nil]
    split <;> exact ⟨cString_of_noNul noNul, rfl⟩
  | cons c rest ih =>
    rw [List.mem_cons, not_or] at restNoNul
    rw [faceLoop]
    by_cases separates : c = comma
    · rw [if_pos separates]
      dsimp only
      rw [cString_terminated noNul,
        List.takeWhile_cons_of_neg (by simpa using separates), List.append_nil]
      split
      case isTrue => exact ⟨cString_terminated noNul _, rfl⟩
      case isFalse refused =>
        have later := @faceLoop_cut available before noNul [] rest
        rw [if_neg refused] at later
        exact later
    · have longer : 0 ∉ before ++ [c] := by
        simpa [noNul] using restNoNul.1
      have following := ih longer restNoNul.2
      rw [if_neg separates, List.takeWhile_cons_of_pos (by simpa using separates)]
      rw [List.append_assoc, List.singleton_append] at following
      exact following

theorem find?_names_iff (family : List UInt8) :
    (if available (firstName family) then some (firstName family) else none) =
        (names family).find? available ↔
      Meets available family := by
  unfold Meets
  split
  · exact eq_comm
  · rw [eq_comm, List.find?_eq_none]
    simp only [Bool.not_eq_true]

/-! ## The whole tree -/

theorem takeWhile_strlcpy (text : List UInt8) :
    (CString.strlcpy text : CString 256).bytes.takeWhile (· ≠ comma) =
      firstName (cString text) := by
  unfold firstName
  rw [List.take_takeWhile]
  exact rfl

theorem firstName_of_short {face : List UInt8} (short : face.length ≤ 255) :
    firstName face = face.takeWhile (· ≠ comma) :=
  List.take_of_length_le ((List.takeWhile_sublist _).length_le.trans short)

theorem length_firstName_le (family : List UInt8) : (firstName family).length ≤ 255 := by
  unfold firstName
  rw [List.length_take]
  exact Nat.min_le_left _ _

theorem firstName_firstName (family : List UInt8) :
    firstName (firstName family) = firstName family := by
  rw [firstName_of_short (length_firstName_le family)]
  unfold firstName
  rw [← List.take_takeWhile, List.takeWhile_takeWhile]
  simp

/-- The face that is passed on starts with the first name that is inherited. -/
def Inherits (face family : List UInt8) : Prop :=
  firstName (cString face) = firstName (cString family)

theorem Inherits.family {face family : List UInt8} (inherits : Inherits face family)
    (wid : Widget) : Inherits (wid.family face) (wid.family family) := by
  unfold Widget.family
  cases Widget.selected wid.fontFamily wid.cssFamily with
  | none => exact inherits
  | some text => exact rfl

end

section

variable {δ : Type} {doubles : Doubles δ} {available : List UInt8 → Bool}

theorem compileStyleRecursive_iff (forest : OrderedForest Widget) (face family : List UInt8)
    (ptSize : δ) (flags : UInt32) (inherits : Inherits face family) :
    compileStyleRecursive doubles available forest ⟨face, ptSize, flags⟩ =
        documentedStyle doubles available forest ⟨family, ptSize, flags⟩ ↔
      AllMeet available forest family := by
  induction forest generalizing face family ptSize flags with
  | empty => exact iff_of_true rfl trivial
  | node wid children next childrenIh nextIh =>
    have selected := inherits.family wid
    have following := nextIh face family ptSize flags inherits
    have inBuffer := takeWhile_strlcpy (wid.family face)
    rw [selected] at inBuffer
    unfold compileStyleRecursive documentedStyle AllMeet
    dsimp only
    have inherited : firstName (cString (cString (wid.family family))) =
          firstName (cString (wid.family family)) := by
      rw [cString_of_noNul (cString_noNul _)]
    cases useText : wid.useText with
    | true =>
      have noNul := (CString.strlcpy (wid.family face) : CString 256).noNul
      have first := @faceLoop_first available [] List.not_mem_nil _ noNul
      rw [List.nil_append, inBuffer] at first
      rcases loop : faceLoop available [] (CString.strlcpy (wid.family face) : CString 256).bytes
        with ⟨buffer, fontNew⟩
      rw [loop] at first
      obtain ⟨isFace, isFont⟩ := first
      have below :=
        childrenIh (cString buffer) (cString (wid.family family))
          (wid.ptSize doubles ptSize) (wid.flags flags) (by
            unfold Inherits
            rw [inherited, cString_of_noNul (cString_noNul _), isFace, firstName_firstName])
      dsimp only at isFont ⊢
      rw [if_pos rfl, if_pos rfl, OrderedForest.node.injEq, below, following,
        Option.some_inj, Font.mk.injEq, isFont, find?_names_iff]
      simp
    | false =>
      have short := (CString.strlcpy (wid.family face) : CString 256).fits
      have noNul := (CString.strlcpy (wid.family face) : CString 256).noNul
      have below :=
        childrenIh (CString.strlcpy (wid.family face) : CString 256).bytes
          (cString (wid.family family)) (wid.ptSize doubles ptSize)
          (wid.flags flags) (by
            unfold Inherits
            rw [inherited, cString_of_noNul noNul, firstName_of_short (by omega), inBuffer])
      rw [if_neg Bool.false_ne_true, if_neg Bool.false_ne_true,
        OrderedForest.node.injEq, below, following]
      simp

end

/--
The widgets of a tree use the first face in their list that is available, and
the default one only where none is, if and only if each list of a widget with a
text has its first name available, or no name.
-/
theorem widgetCompileStyle_iff {δ : Type} (doubles : Doubles δ) (available : List UInt8 → Bool)
    (wid : Widget) (children : OrderedForest Widget) (parent : Inherited δ) :
    widgetCompileStyle doubles available wid children parent =
        documentedStyle doubles available (.node wid children .empty) parent ↔
      AllMeet available (.node wid children .empty) parent.face :=
  compileStyleRecursive_iff _ parent.face parent.face parent.ptSize parent.flags
    rfl

def noDoubles : Doubles Int where
  strtod := fun _ => (0, [])
  percentOf := fun size _ => size
  toInt := id

def twoFaces : Widget where
  fontFamily := some (ascii "a,b")
  fontSize := none
  fontWeight := none
  fontStyle := none
  cssFamily := none
  cssSize := none
  cssWeight := none
  useText := true
  font := none

theorem second_face_is_not_tried :
    widgetCompileStyle noDoubles (fun name => name = ascii "b") twoFaces .empty ⟨ascii "c", 12, 0⟩ ≠
      documentedStyle noDoubles (fun name => name = ascii "b")
        (.node twoFaces .empty .empty) ⟨ascii "c", 12, 0⟩ := by
  decide

end Agar.Gui.StyleFonts
