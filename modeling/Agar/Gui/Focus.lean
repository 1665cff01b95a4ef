import Agar.Lib.OrderedForest

namespace Agar.Gui

open Agar.Lib

/-!
# The focus in a window

`AG_WidgetFocus` marks a widget and its parents, up to the window, and what
those forward their focus to.  `AG_WindowCycleFocus` looks for a marked widget
in the list of all widgets that may have the focus, and calls `AG_WidgetFocus`
on the one next to it.
-/

/-- A widget, as far as the focus depends on it -/
structure FocusWidget where
  id : Nat
  /-- `AG_WIDGET_FOCUSABLE` -/
  focusable : Bool
  focusFwd : Option Nat
  deriving Repr, DecidableEq

/-- A window and the widgets in it, which forward their focus to each other -/
structure FocusWindow where
  window : FocusWidget
  children : OrderedForest FocusWidget
  distinct : (OrderedForest.keys FocusWidget.id (.node window children .empty)).Nodup
  forwards : ∀ wid ∈ OrderedForest.labels (.node window children .empty), ∀ fwd,
        wid.focusFwd = some fwd →
          fwd ∈ OrderedForest.keys FocusWidget.id (.node window children .empty)

/-- The `AG_WIDGET_FOCUSED` flags of the widgets in a window, and its focus -/
structure FocusState where
  /-- The widgets with the flag -/
  focused : Finset Nat
  nFocused : Int
  /-- Whether the window is `agWindowFocused` -/
  windowFocused : Bool
  deriving DecidableEq

namespace FocusState

/-- `FocusWidget` -/
def focusWidget (w : Nat) (s : FocusState) : FocusState :=
  { s with focused := insert w s.focused, nFocused := s.nFocused + 1 }

/-- `UnfocusWidget` -/
def unfocusWidget (w : Nat) (s : FocusState) : FocusState :=
  { s with focused := s.focused.erase w, nFocused := s.nFocused - 1 }

/-- `UnfocusWidget` of a widget that has the focus -/
def unfocusIfFocused (w : Nat) (s : FocusState) : FocusState :=
  if w ∈ s.focused then s.unfocusWidget w else s

/-- `AG_WidgetUnfocus`, without the children -/
def unfocusNode (wid : FocusWidget) (s : FocusState) : FocusState :=
  let s :=
    match wid.focusFwd with
    | some focusFwd => s.unfocusIfFocused focusFwd
    | none => s
  s.unfocusIfFocused wid.id

/-- `AG_WidgetUnfocus`, over widgets and their children -/
def widgetUnfocus : OrderedForest FocusWidget → FocusState → FocusState
  | .empty, s => s
  | .node wid children next, s => widgetUnfocus next (widgetUnfocus children (s.unfocusNode wid))

/-- The body of the loop of `AG_WidgetFocus` -/
def focusNode (wParent : FocusWidget) (s : FocusState) : FocusState :=
  if wParent.id ∈ s.focused then s
  else
    let s :=
      match wParent.focusFwd with
      | some focusFwd => if focusFwd ∈ s.focused then s else s.focusWidget focusFwd
      | none => s
    s.focusWidget wParent.id

/-- The loop of `AG_WidgetFocus`, which ends at the window -/
def focusLoop (window : Nat) : List FocusWidget → FocusState → FocusState
  | [], s => s
  | wParent :: above, s =>
    if wParent.id = window then s else focusLoop window above (s.focusNode wParent)

end FocusState

namespace FocusWindow

variable (win : FocusWindow)

/-- The window and its widgets, in tree order -/
def tree : OrderedForest FocusWidget := .node win.window win.children .empty

/-- A widget of the window, with its parents, the nearest one first -/
def locate (w : Nat) : Option (OrderedForest.Place FocusWidget) :=
  OrderedForest.locate FocusWidget.id w [] win.tree

/-- `AG_WidgetUnfocus` of a widget -/
def unfocus (w : Nat) (s : FocusState) : FocusState :=
  match win.locate w with
  | some place => FocusState.widgetUnfocus place.children (s.unfocusNode place.label)
  | none => s

/-- `AG_WidgetFocus`, and whether it succeeds -/
def widgetFocus (w : Nat) (s : FocusState) : FocusState × Bool :=
  match win.locate w with
  | none => (s, false)
  | some place =>
    if w ∈ s.focused ∧ s.windowFocused then (s, true)
    else if ¬ place.label.focusable then
      match place.label.focusFwd with
      | some focusFwd => if focusFwd ∈ s.focused then (s, false) else (s.focusWidget focusFwd, true)
      | none => (s, false)
    else
      let s := if s.nFocused > 0 then s.widgetUnfocus win.tree else s
      (s.focusLoop win.window.id (place.label :: place.above), true)

/-! ## Cycling -/

/-- `ListFocusableWidgets` -/
def listFocusableWidgets : OrderedForest FocusWidget → List Nat
  | .empty => []
  | .node wid children next =>
    (if wid.focusable then [wid.focusFwd.getD wid.id] else []) ++
      (listFocusableWidgets children ++ listFocusableWidgets next)

/-- The loop of `AG_WindowCycleFocus` that eliminates duplicates -/
def uniqueLoop : List Nat → List Nat → List Nat
  | unique, [] => unique
  | unique, w :: rest => uniqueLoop (if w ∈ unique then unique else unique ++ [w]) rest

/-- The list `Luniq` -/
def ring : List Nat := uniqueLoop [] (listFocusableWidgets win.tree)

/-- The loop from the start: the first widget that has the focus -/
def firstFocused (focused : Finset Nat) : List Nat → Nat
  | [] => 0
  | w :: rest => if w ∈ focused then 0 else firstFocused focused rest + 1

/-- The loop from the end: the last widget that has the focus, or `-1` -/
def lastFocused (focused : Finset Nat) (ring : List Nat) : Nat → Int
  | 0 => -1
  | i + 1 => if ring.getD i 0 ∈ focused then i else lastFocused focused ring i

/-- The place in `Luniq` that the focus is moved to -/
def cyclePlace (ring : List Nat) (reverse : Bool) (focused : Finset Nat) : Nat :=
  if reverse then
    let i : Int := firstFocused focused ring
    if i = -1 then 0
    else if i - 1 < 0 then ring.length - 1
    else (i - 1).toNat
  else
    let i := lastFocused focused ring ring.length
    if i = ring.length then 0
    else if i + 1 < ring.length then (i + 1).toNat
    else 0

/-- The widget that `AG_WindowCycleFocus` calls `AG_WidgetFocus` on -/
def cycleTarget (reverse : Bool) (s : FocusState) : Option Nat :=
  win.ring[cyclePlace win.ring reverse s.focused]?

/-- `AG_WindowCycleFocus` -/
def cycleFocus (reverse : Bool) (s : FocusState) : FocusState :=
  match win.cycleTarget reverse s with
  | some w => (win.widgetFocus w s).1
  | none => s

/-! ## Runs -/

/-- The states of the focus, from a window that never had it -/
inductive Reached : FocusState → Prop where
  | init : Reached ⟨∅, 0, false⟩
  | focus {s} (w) : Reached s → Reached (win.widgetFocus w s).1
  | unfocus {s} (w) : Reached s → Reached (win.unfocus w s)
  | window {s} (focused) : Reached s → Reached { s with windowFocused := focused }

/-! ## Counting the focus -/

variable {win : FocusWindow}

/-- The identities of the widgets -/
def ids (win : FocusWindow) : List Nat := OrderedForest.keys FocusWidget.id win.tree

/-- Widgets that have the focus are in the window, and are counted. -/
structure Sound (win : FocusWindow) (s : FocusState) : Prop where
  inside : ∀ w ∈ s.focused, w ∈ win.ids
  counted : (s.focused.card : Int) ≤ s.nFocused

theorem mem_ids_of_focusFwd {wid : FocusWidget} {focusFwd : Nat} (member : wid ∈ win.tree.labels)
    (forwards : wid.focusFwd = some focusFwd) : focusFwd ∈ win.ids :=
  win.forwards wid member focusFwd forwards

theorem mem_ids_of_mem_labels {wid : FocusWidget} (member : wid ∈ win.tree.labels) :
    wid.id ∈ win.ids :=
  List.mem_map_of_mem member

variable {s : FocusState}

theorem Sound.focusWidget {w : Nat} (sound : win.Sound s) (member : w ∈ win.ids) :
    win.Sound (s.focusWidget w) where
  inside other focused :=
    (Finset.mem_insert.mp focused).elim (fun same => same ▸ member) (sound.inside other)
  counted := by
    have counted := sound.counted
    have bound := Finset.card_insert_le w s.focused
    simp only [FocusState.focusWidget]
    omega

theorem Sound.unfocusIfFocused (sound : win.Sound s) (w : Nat) :
    win.Sound (s.unfocusIfFocused w) := by
  rw [FocusState.unfocusIfFocused]
  split_ifs with focused
  · refine ⟨fun other inside =>
      sound.inside other (Finset.mem_of_mem_erase inside), ?_⟩
    have counted := sound.counted
    have fewer := Finset.card_erase_add_one focused
    simp only [FocusState.unfocusWidget]
    omega
  · exact sound

theorem Sound.unfocusNode (sound : win.Sound s) (wid : FocusWidget) :
    win.Sound (s.unfocusNode wid) := by
  rw [FocusState.unfocusNode]
  cases wid.focusFwd with
  | none => exact sound.unfocusIfFocused wid.id
  | some focusFwd => exact (sound.unfocusIfFocused focusFwd).unfocusIfFocused wid.id

theorem Sound.widgetUnfocus (sound : win.Sound s) (forest : OrderedForest FocusWidget) :
    win.Sound (s.widgetUnfocus forest) := by
  induction forest generalizing s with
  | empty => exact sound
  | node wid children next childrenIh nextIh =>
    exact nextIh (childrenIh (sound.unfocusNode wid))

theorem Sound.focusNode {wid : FocusWidget} (sound : win.Sound s) (member : wid ∈ win.tree.labels) :
    win.Sound (s.focusNode wid) := by
  rw [FocusState.focusNode]
  split_ifs
  · exact sound
  · refine Sound.focusWidget ?_ (mem_ids_of_mem_labels member)
    cases forwards : wid.focusFwd with
    | none => exact sound
    | some focusFwd =>
      dsimp only
      split_ifs
      · exact sound
      · exact sound.focusWidget (mem_ids_of_focusFwd member forwards)

theorem Sound.focusLoop {chain : List FocusWidget} (sound : win.Sound s)
    (members : ∀ wid ∈ chain, wid ∈ win.tree.labels) (window : Nat) :
    win.Sound (s.focusLoop window chain) := by
  induction chain generalizing s with
  | nil => exact sound
  | cons wid chain ih =>
    rw [List.forall_mem_cons] at members
    rw [FocusState.focusLoop]
    split_ifs
    · exact sound
    · exact ih (sound.focusNode members.1) members.2

theorem mem_labels_of_locate {w : Nat} {place : OrderedForest.Place FocusWidget}
    (located : win.locate w = some place) :
    ∀ wid ∈ place.label :: place.above, wid ∈ win.tree.labels := by
  have path := OrderedForest.mem_paths_of_locate located
  rw [List.forall_mem_cons]
  constructor
  · rw [← OrderedForest.map_fst_paths []]
    exact List.mem_map_of_mem path
  · intro wid parent
    exact (OrderedForest.mem_of_mem_above path parent).resolve_left List.not_mem_nil

theorem Sound.widgetFocus (sound : win.Sound s) (w : Nat) : win.Sound (win.widgetFocus w s).1 := by
  rw [FocusWindow.widgetFocus]
  cases located : win.locate w with
  | none => exact sound
  | some place =>
    have members := mem_labels_of_locate located
    dsimp only
    by_cases already : w ∈ s.focused ∧ s.windowFocused
    · rw [if_pos already]
      exact sound
    · rw [if_neg already]
      by_cases focusable : place.label.focusable = true
      · rw [if_neg (not_not.mpr focusable)]
        dsimp only
        split_ifs
        · exact (sound.widgetUnfocus win.tree).focusLoop members _
        · exact sound.focusLoop members _
      · rw [if_pos focusable]
        cases forwards : place.label.focusFwd with
        | none => exact sound
        | some focusFwd =>
          dsimp only
          split_ifs
          · exact sound
          · exact sound.focusWidget (mem_ids_of_focusFwd (members _ List.mem_cons_self) forwards)

theorem Reached.sound (reached : win.Reached s) : win.Sound s := by
  induction reached with
  | init => exact ⟨fun w focused => absurd focused (Finset.notMem_empty w), le_rfl⟩
  | focus w _ ih => exact ih.widgetFocus w
  | @unfocus s w _ ih =>
    rw [FocusWindow.unfocus]
    cases win.locate w with
    | none => exact ih
    | some place => exact (ih.unfocusNode place.label).widgetUnfocus place.children
  | window focused _ ih => exact ⟨ih.inside, ih.counted⟩

/-! ## What is marked -/

/--
The widgets that are marked on the way up to the window, besides some others:
each that is not marked yet, and what it forwards the focus to
-/
def marksOf (window : Nat) : List FocusWidget → Finset Nat → Finset Nat
  | [], marked => marked
  | wid :: above, marked =>
    if wid.id = window then marked
    else if wid.id ∈ marked then marksOf window above marked
    else
      marksOf window above (insert wid.id (match wid.focusFwd with
          | some focusFwd => insert focusFwd marked
          | none => marked))

/-- The widgets that are marked when a widget gets the focus -/
def marks (win : FocusWindow) (w : Nat) : Finset Nat :=
  match win.locate w with
  | some place => marksOf win.window.id (place.label :: place.above) ∅
  | none => ∅

/-- A widget of the window may have the focus. -/
def Focusable (win : FocusWindow) (w : Nat) : Prop :=
  ∃ place, win.locate w = some place ∧ place.label.focusable = true

theorem focusNode_focused (s : FocusState) (wid : FocusWidget) : (s.focusNode wid).focused =
        (if wid.id ∈ s.focused then s.focused
        else
          insert wid.id (match wid.focusFwd with
            | some focusFwd => insert focusFwd s.focused
            | none => s.focused)) ∧
      (s.focusNode wid).windowFocused = s.windowFocused := by
  rw [FocusState.focusNode]
  split_ifs
  · exact ⟨rfl, rfl⟩
  · cases wid.focusFwd with
    | none => exact ⟨rfl, rfl⟩
    | some focusFwd =>
      dsimp only
      split_ifs with focused
      · rw [Finset.insert_eq_of_mem focused]
        exact ⟨rfl, rfl⟩
      · exact ⟨rfl, rfl⟩

theorem focusLoop_focused (s : FocusState) (window : Nat) (chain : List FocusWidget) :
    (s.focusLoop window chain).focused = marksOf window chain s.focused ∧
      (s.focusLoop window chain).windowFocused = s.windowFocused := by
  induction chain generalizing s with
  | nil => exact ⟨rfl, rfl⟩
  | cons wid chain ih =>
    obtain ⟨marked, sameWindow⟩ := focusNode_focused s wid
    obtain ⟨marks, window'⟩ := ih (s.focusNode wid)
    rw [FocusState.focusLoop, marksOf]
    by_cases isWindow : wid.id = window
    · rw [if_pos isWindow, if_pos isWindow]
      exact ⟨rfl, rfl⟩
    · rw [if_neg isWindow, if_neg isWindow, marks, marked, window', sameWindow]
      refine ⟨?_, rfl⟩
      split_ifs <;> rfl

theorem unfocusIfFocused_focused (s : FocusState) (w : Nat) :
    (s.unfocusIfFocused w).focused = s.focused.erase w ∧
      (s.unfocusIfFocused w).windowFocused = s.windowFocused := by
  rw [FocusState.unfocusIfFocused]
  split_ifs with focused
  · exact ⟨rfl, rfl⟩
  · rw [Finset.erase_eq_of_notMem focused]
    exact ⟨rfl, rfl⟩

theorem unfocusNode_focused (s : FocusState) (wid : FocusWidget) :
    (∀ w ∈ (s.unfocusNode wid).focused, w ∈ s.focused ∧ w ≠ wid.id) ∧
      (s.unfocusNode wid).windowFocused = s.windowFocused := by
  rw [FocusState.unfocusNode]
  cases wid.focusFwd with
  | none =>
    obtain ⟨focused, sameWindow⟩ := unfocusIfFocused_focused s wid.id
    refine ⟨fun w member => ?_, sameWindow⟩
    rw [focused] at member
    exact ⟨Finset.mem_of_mem_erase member, Finset.ne_of_mem_erase member⟩
  | some focusFwd =>
    obtain ⟨focused, sameWindow⟩ := unfocusIfFocused_focused s focusFwd
    obtain ⟨focused', sameWindow'⟩ := unfocusIfFocused_focused (s.unfocusIfFocused focusFwd) wid.id
    refine ⟨fun w member => ?_, sameWindow'.trans sameWindow⟩
    rw [focused', focused] at member
    exact ⟨Finset.mem_of_mem_erase (Finset.mem_of_mem_erase member), Finset.ne_of_mem_erase member⟩

theorem widgetUnfocus_focused (s : FocusState) (forest : OrderedForest FocusWidget) :
    (∀ w ∈ (s.widgetUnfocus forest).focused,
        w ∈ s.focused ∧ w ∉ OrderedForest.keys FocusWidget.id forest) ∧
      (s.widgetUnfocus forest).windowFocused = s.windowFocused := by
  induction forest generalizing s with
  | empty => exact ⟨fun w focused => ⟨focused, List.not_mem_nil⟩, rfl⟩
  | node wid children next childrenIh nextIh =>
    obtain ⟨node, sameWindow⟩ := unfocusNode_focused s wid
    obtain ⟨below, window'⟩ := childrenIh (s.unfocusNode wid)
    obtain ⟨after, window''⟩ := nextIh ((s.unfocusNode wid).widgetUnfocus children)
    refine ⟨fun w member => ?_, window''.trans (window'.trans sameWindow)⟩
    obtain ⟨inChildren, notAfter⟩ := after w member
    obtain ⟨inNode, notBelow⟩ := below w inChildren
    obtain ⟨inState, notHere⟩ := node w inNode
    rw [OrderedForest.keys_node, List.mem_cons, List.mem_append]
    exact ⟨inState, fun found => found.elim notHere fun later => later.elim notBelow notAfter⟩

theorem Sound.focused_widgetUnfocus (sound : win.Sound s) :
    (s.widgetUnfocus win.tree).focused = ∅ := by
  refine Finset.eq_empty_of_forall_notMem fun w member => ?_
  obtain ⟨focused, outside⟩ := (widgetUnfocus_focused s win.tree).1 w member
  exact outside (sound.inside w focused)

theorem Sound.focused_of_nonpos (sound : win.Sound s) (none : ¬ s.nFocused > 0) :
    s.focused = ∅ := by
  have counted := sound.counted
  exact Finset.card_eq_zero.mp (by omega)

theorem widgetFocus_already {w : Nat} (focusable : win.Focusable w) (focused : w ∈ s.focused)
    (windowFocused : s.windowFocused = true) : win.widgetFocus w s = (s, true) := by
  obtain ⟨place, located, _⟩ := focusable
  rw [FocusWindow.widgetFocus, located]
  exact if_pos ⟨focused, windowFocused⟩

theorem Sound.widgetFocus_eq {w : Nat} (sound : win.Sound s) (focusable : win.Focusable w)
    (fresh : ¬ (w ∈ s.focused ∧ s.windowFocused = true)) :
    (win.widgetFocus w s).1.focused = win.marks w ∧
      (win.widgetFocus w s).1.windowFocused = s.windowFocused := by
  obtain ⟨place, located, flag⟩ := focusable
  rw [FocusWindow.widgetFocus, marks, located]
  dsimp only
  rw [if_neg fresh, if_neg (not_not.mpr flag)]
  by_cases counted : s.nFocused > 0
  · obtain ⟨focused, window⟩ :=
      focusLoop_focused (s.widgetUnfocus win.tree) win.window.id (place.label :: place.above)
    rw [if_pos counted]
    dsimp only
    rw [focused, window, sound.focused_widgetUnfocus, (widgetUnfocus_focused s win.tree).2]
    exact ⟨rfl, rfl⟩
  · obtain ⟨focused, window⟩ :=
      focusLoop_focused s win.window.id (place.label :: place.above)
    rw [if_neg counted]
    dsimp only
    rw [focused, window, sound.focused_of_nonpos counted]
    exact ⟨rfl, rfl⟩

theorem widgetFocus_succeeds {w : Nat} (focusable : win.Focusable w) :
    (win.widgetFocus w s).2 = true := by
  obtain ⟨place, located, flag⟩ := focusable
  rw [FocusWindow.widgetFocus, located]
  dsimp only
  rw [if_neg (not_not.mpr flag)]
  split_ifs <;> rfl

end FocusWindow

end Agar.Gui
