import Agar.Core.DataSource
import Agar.Lib.Outcome
import Agar.Lib.Runs

namespace Agar.Gui

open Agar.Core Agar.Lib

/-!
# Lists of selectable items

An `AG_Tlist` keeps its selection twice: as a flag of each item, and as the
user pointer of the selected item in its `selected` binding.
`AG_TlistClear` moves the items whose state is worth keeping to a second list,
from which `AG_TlistRestore` copies the state to the items that compare equal.
-/

/-- An `AG_TlistItem` in memory. -/
abbrev TlistItemRef := Nat

/-- What the user says about an item, and what a `compare_fn` looks at. -/
structure TlistItemData where
  p1 : Option Nat
  cat : List UInt8
  text : List UInt8
  depth : Nat
  deriving Repr, DecidableEq

/-- The flags of an `AG_TlistItem` -/
structure TlistItemFlags where
  visibleChildren : Bool
  hasChildren : Bool
  noSelect : Bool
  noPopup : Bool
  deriving Repr, DecidableEq

/-- `AG_TlistItem`, without its icon and its cached surfaces -/
structure TlistItem where
  self : TlistItemRef
  selected : Int
  data : TlistItemData
  flags : TlistItemFlags
  deriving Repr, DecidableEq

/-- The flags of an `AG_Tlist` that its operations look at -/
structure TlistFlags where
  multi : Bool
  multiToggle : Bool
  noSelState : Bool
  deriving Repr, DecidableEq

/-- `AG_Tlist`, without what only its display uses -/
structure Tlist where
  flags : TlistFlags
  selected : Option Nat
  items : List TlistItem
  selitems : List TlistItem
  nitems : Int
  nvisitems : Int
  rOffs : Int
  compareFn : TlistItemData → TlistItemData → Bool

/-- `AG_TLIST_LABEL_MAX` -/
def tlistLabelMax : Nat := 1024

namespace Tlist

/-- An `AG_Tlist` as `AG_TlistNew` makes it. -/
def new (flags : TlistFlags) (nvisitems : Int)
    (compareFn : TlistItemData → TlistItemData → Bool) : Tlist where
  flags := flags
  selected := none
  items := []
  selitems := []
  nitems := 0
  nvisitems := nvisitems
  rOffs := 0
  compareFn := compareFn

/-- `AG_TlistComparePtrs`, which `AG_TlistNew` sets -/
def comparePtrs (it1 it2 : TlistItemData) : Bool := it1.p1 = it2.p1

/-- `AllocItem`, at an address that is not in use -/
def allocItem (self : TlistItemRef) (p1 : Option Nat) (text : List UInt8) : TlistItem where
  self := self
  selected := 0
  data :=
    { p1 := p1
      cat := []
      text := text.take (tlistLabelMax - 1)
      depth := 0 }
  flags :=
    { visibleChildren := false
      hasChildren := false
      noSelect := false
      noPopup := false }

/-- `InsertItem` -/
def insertItem (tl : Tlist) (it : TlistItem) (insHead : Bool) : Tlist :=
  { tl with items := if insHead then it :: tl.items else tl.items ++ [it], nitems := tl.nitems + 1 }

/-- `AG_TlistAddPtr` -/
def tlistAddPtr (tl : Tlist) (self : TlistItemRef) (text : List UInt8) (p1 : Option Nat) : Tlist :=
  tl.insertItem (allocItem self p1 text) false

/-- `AG_TlistAddPtrHead` -/
def tlistAddPtrHead (tl : Tlist) (self : TlistItemRef) (text : List UInt8)
    (p1 : Option Nat) : Tlist :=
  tl.insertItem (allocItem self p1 text) true

/-- What the user sets in an item: its category, its depth and its flags. -/
def setArgs (tl : Tlist) (self : TlistItemRef) (cat : List UInt8) (depth : Nat)
    (flags : TlistItemFlags) : Tlist :=
  { tl with
    items := tl.items.map fun it =>
      if it.self = self then
        { it with data := { it.data with cat := cat, depth := depth }, flags := flags }
      else it }

/-- `AG_TlistDel` -/
def tlistDel (tl : Tlist) (self : TlistItemRef) : Except Stop Tlist :=
  match tl.items.find? (·.self = self) with
  | none => .error .undefined
  | some _ =>
    let tl :=
      { tl with items := tl.items.eraseP (·.self = self), nitems := tl.nitems - 1 }
    if tl.rOffs + tl.nvisitems > tl.nitems then
      .ok { tl with rOffs := max 0 (tl.nitems - tl.nvisitems) }
    else .ok tl

/-- Does `AG_TlistClear` save an item? -/
def Saves (tl : Tlist) (it : TlistItem) : Prop :=
  (tl.flags.noSelState = false ∧ it.selected ≠ 0) ∨ it.flags.hasChildren = true

instance (tl : Tlist) (it : TlistItem) : Decidable (tl.Saves it) :=
  inferInstanceAs (Decidable (_ ∨ _))

/-- The loop of `AG_TlistClear` over the items -/
def clearItems (tl : Tlist) : List TlistItem → List TlistItem → List TlistItem
  | selitems, [] => selitems
  | selitems, it :: rest =>
    if tl.Saves it then tl.clearItems (it :: selitems) rest else tl.clearItems selitems rest

/-- `AG_TlistClear` -/
def tlistClear (tl : Tlist) : Tlist :=
  { tl with items := [], selitems := tl.clearItems tl.selitems tl.items, nitems := 0 }

/-- An item with the state of a saved one -/
def withState (tl : Tlist) (cit sit : TlistItem) : TlistItem :=
  { cit with
    selected := if tl.flags.noSelState then cit.selected else sit.selected
    flags := { cit.flags with visibleChildren := sit.flags.visibleChildren } }

/-- `AG_TlistRestore`, of a saved item `sit` to an item `cit` -/
def restoreItem (tl : Tlist) (sit cit : TlistItem) : TlistItem :=
  if tl.compareFn sit.data cit.data then tl.withState cit sit else cit

/-- `AG_TlistRestore` -/
def tlistRestore (tl : Tlist) : Tlist :=
  { tl with
    items := tl.selitems.foldl (fun items sit => items.map (tl.restoreItem sit)) tl.items
    selitems := [] }

/-- `SelectItem`, of an item of the list -/
def selectItem (tl : Tlist) (it : TlistItem) : Tlist :=
  { tl with
    selected := it.data.p1
    items := tl.items.map fun other =>
      if other.self = it.self ∧ other.selected = 0 then { other with selected := 1 } else other }

/-- `DeselectItem`, of an item of the list -/
def deselectItem (tl : Tlist) (it : TlistItem) : Tlist :=
  { tl with
    selected := none
    items := tl.items.map fun other =>
      if other.self = it.self ∧ other.selected ≠ 0 then { other with selected := 0 } else other }

/-- `AG_TlistDeselectAll` -/
def tlistDeselectAll (tl : Tlist) : Tlist := tl.items.foldl deselectItem tl

/-- `AG_TlistSelect` -/
def tlistSelect (tl : Tlist) (self : TlistItemRef) : Except Stop Tlist :=
  match tl.items.find? (·.self = self) with
  | none => .error .undefined
  | some it =>
    let tl := if tl.flags.multi then tl else tl.tlistDeselectAll
    .ok (tl.selectItem it)

/-- `AG_TlistDeselect` -/
def tlistDeselect (tl : Tlist) (self : TlistItemRef) : Except Stop Tlist :=
  match tl.items.find? (·.self = self) with
  | none => .error .undefined
  | some it => .ok (tl.deselectItem it)

/-! ## What is restored -/

variable {tl : Tlist} {sits : List TlistItem} {cit : TlistItem}

/-- The last of some saved items that compares equal to an item -/
def lastVersion (tl : Tlist) (sits : List TlistItem) (cit : TlistItem) : Option TlistItem :=
  sits.reverse.find? fun sit => tl.compareFn sit.data cit.data

/-- An item after `AG_TlistRestore`, which the last saved item decides -/
def restored (tl : Tlist) (sits : List TlistItem) (cit : TlistItem) : TlistItem :=
  match tl.lastVersion sits cit with
  | some sit => tl.withState cit sit
  | none => cit

theorem restored_self : (tl.restored sits cit).self = cit.self := by
  unfold restored
  split <;> rfl

theorem restored_data : (tl.restored sits cit).data = cit.data := by
  unfold restored
  split <;> rfl

theorem withState_withState (tl : Tlist) (cit first second : TlistItem) :
    tl.withState (tl.withState cit first) second = tl.withState cit second := by
  unfold withState
  cases tl.flags.noSelState <;> rfl

theorem restored_append (tl : Tlist) (sits : List TlistItem) (sit cit : TlistItem) :
    tl.restored (sits ++ [sit]) cit = tl.restoreItem sit (tl.restored sits cit) := by
  unfold restoreItem
  rw [restored_data, restored, lastVersion, List.reverse_append,
    List.reverse_singleton, List.singleton_append, List.find?_cons]
  cases tl.compareFn sit.data cit.data with
  | true =>
    change tl.withState cit sit = tl.withState (tl.restored sits cit) sit
    unfold restored
    split
    case h_1 => exact (tl.withState_withState cit _ sit).symm
    case h_2 => rfl
  | false => rfl

theorem tlistRestore_items (tl : Tlist) :
    tl.tlistRestore.items = tl.items.map (tl.restored tl.selitems) := by
  change tl.selitems.foldl _ tl.items = _
  generalize tl.selitems = sits
  induction sits using List.reverseRecOn with
  | nil => exact (List.map_id tl.items).symm
  | append_singleton sits sit ih =>
    rw [List.foldl_append, ih, List.foldl_cons, List.foldl_nil, List.map_map]
    apply List.map_congr_left
    intro cit _
    exact (tl.restored_append sits sit cit).symm

theorem clearItems_eq (tl : Tlist) (selitems its : List TlistItem) : tl.clearItems selitems its =
      (its.filter fun it => decide (tl.Saves it)).reverse ++ selitems := by
  induction its generalizing selitems with
  | nil => rfl
  | cons it rest ih =>
    unfold clearItems
    split
    case isTrue saves =>
      rw [ih, List.filter_cons_of_pos (by simpa using saves),
        List.reverse_cons, List.append_assoc, List.singleton_append]
    case isFalse frees => rw [ih, List.filter_cons_of_neg (by simpa using frees)]

end Tlist

end Agar.Gui
