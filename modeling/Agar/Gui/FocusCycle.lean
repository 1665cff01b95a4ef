import Agar.Gui.Focus
import Agar.Lib.Rotation

namespace Agar.Gui

open Agar.Lib

/-!
# Cycling the focus

The widgets that may have the focus are in a circle, around which the focus is
to go.  The two directions find the widget that has it from opposite ends, so
they agree only where no other one of the circle is marked.
-/

namespace FocusWindow

/-! ## The rotation -/

/-- What happens to the focus of a window -/
inductive FocusInput where
  /-- `AG_WindowCycleFocus` -/
  | cycle (reverse : Bool)
  /-- The window gets or loses the focus of all windows. -/
  | window (focused : Bool)
  deriving Repr, DecidableEq

section Definitions

variable (win : FocusWindow)

/-- The state after an input -/
def step (s : FocusState) : FocusInput → FocusState
  | .cycle reverse => win.cycleFocus reverse s
  | .window focused => { s with windowFocused := focused }

/-- The state after some inputs -/
def runInputs (s : FocusState) (inputs : List FocusInput) : FocusState := inputs.foldl win.step s

/-- The place in a circle after some inputs -/
def placeAfter (n i : Nat) (inputs : List FocusInput) : Nat :=
  inputs.foldl (fun i input =>
      match input with
      | .cycle reverse => turn n reverse i
      | .window _ => i)
    i

/-- `AG_WindowCycleFocus` gives the focus to a widget. -/
structure Gives (s : FocusState) (reverse : Bool) (w : Nat) : Prop where
  target : win.cycleTarget reverse s = some w
  succeeds : (win.widgetFocus w s).2 = true
  focused : w ∈ (win.cycleFocus reverse s).focused

/--
From a state in which the widget at a place of the circle has the focus, cycling
rotates: after any inputs, the focus goes to the next widget, or the previous
one; a step the other way brings it back; and as many steps ahead as there are
widgets come to each of them once.
-/
structure Rotates (s : FocusState) (i : Nat) : Prop where
  next : ∀ inputs reverse w, win.ring[turn win.ring.length reverse
          (placeAfter win.ring.length i inputs)]? = some w →
        win.Gives (win.runInputs s inputs) reverse w
  undone : ∀ inputs reverse w, win.ring[placeAfter win.ring.length i inputs]? = some w →
        win.Gives (win.runInputs s (inputs ++ [.cycle reverse])) (!reverse) w
  visited : ∀ w ∈ win.ring, ∃! k, k < win.ring.length ∧
        win.Gives (win.runInputs s (List.replicate k (.cycle false))) false w

/-- No widget of the circle is marked when another one gets the focus. -/
def Apart : Prop := ∀ v ∈ win.ring, ∀ w ∈ win.ring, w ∈ win.marks v ↔ w = v

/-- A widget that has the focus already is the only one of the circle. -/
def Alone (s : FocusState) (v : Nat) : Prop :=
  v ∈ s.focused → s.windowFocused = true → ∀ w ∈ win.ring, w ∈ s.focused → w = v

end Definitions

/-! ## Finding the focus -/

section Finding

variable {focused : Finset Nat} {ring : List Nat} {i : Nat}

/-- Of a list, only the widget at a place has the focus. -/
def OnlyAt (focused : Finset Nat) (ring : List Nat) (i : Nat) : Prop :=
  ∀ j w, ring[j]? = some w → (w ∈ focused ↔ j = i)

theorem nodup_uniqueLoop {unique : List Nat} (distinct : unique.Nodup) (list : List Nat) :
    (uniqueLoop unique list).Nodup := by
  induction list generalizing unique with
  | nil => exact distinct
  | cons w rest ih =>
    refine ih ?_
    split_ifs with member
    · exact distinct
    · exact distinct.append (List.nodup_singleton w) (List.disjoint_singleton.mpr member)

theorem nodup_ring (win : FocusWindow) : win.ring.Nodup := nodup_uniqueLoop List.nodup_nil _

theorem firstFocused_spec (focused : Finset Nat) (ring : List Nat) :
    firstFocused focused ring ≤ ring.length ∧
      (∀ j w, ring[j]? = some w → j < firstFocused focused ring → w ∉ focused) ∧
      ∀ w, ring[firstFocused focused ring]? = some w → w ∈ focused := by
  induction ring with
  | nil => exact ⟨le_rfl, fun _ _ none => by simp at none, fun _ none => by simp at none⟩
  | cons v rest ih =>
    obtain ⟨within, before, here⟩ := ih
    rw [firstFocused, List.length_cons]
    split_ifs with member
    · exact ⟨Nat.zero_le _, fun _ _ _ none => absurd none (Nat.not_lt_zero _), fun w same => by
          cases same
          exact member⟩
    · refine ⟨by omega, fun j w same less => ?_, fun w same => here w same⟩
      cases j with
      | zero =>
        cases same
        exact member
      | succ j => exact before j w same (by omega)

theorem lastFocused_spec (focused : Finset Nat) (ring : List Nat) {k : Nat}
    (within : k ≤ ring.length) :
    -1 ≤ lastFocused focused ring k ∧ lastFocused focused ring k < k ∧ (∀ (j : Nat) w,
          ring[j]? = some w → lastFocused focused ring k < j → j < k → w ∉ focused) ∧
      ∀ (j : Nat) w, ring[j]? = some w → lastFocused focused ring k = j → w ∈ focused := by
  induction k with
  | zero =>
    refine ⟨le_rfl, by simp [lastFocused], fun j w _ _ none => ?_, fun j w _ none => ?_⟩
    · exact absurd none (Nat.not_lt_zero j)
    · simp only [lastFocused] at none
      omega
  | succ k ih =>
    obtain ⟨low, high, behind, here⟩ := ih (by omega)
    have there : ring[k]? = some (ring.getD k 0) := by
      rw [List.getD_eq_getElem?_getD, List.getElem?_eq_getElem (by omega)]
      rfl
    rw [lastFocused]
    split_ifs with member
    · refine ⟨by omega, by omega, fun j w _ above less => by omega, fun j w same place => ?_⟩
      have samePlace : k = j := by omega
      subst samePlace
      cases there.symm.trans same
      exact member
    · refine ⟨low, by omega, fun j w same above less => ?_, here⟩
      rcases Nat.lt_succ_iff_lt_or_eq.mp less with below | rfl
      · exact behind j w same above below
      · cases there.symm.trans same
        exact member

theorem cyclePlace_of_onlyAt (only : OnlyAt focused ring i) (inside : i < ring.length)
    (reverse : Bool) : cyclePlace ring reverse focused = turn ring.length reverse i := by
  have here : ring[i]? = some ring[i] := List.getElem?_eq_getElem inside
  have member : ring[i] ∈ focused := (only i _ here).mpr rfl
  obtain ⟨_, before, first⟩ := firstFocused_spec focused ring
  obtain ⟨low, high, behind, last⟩ := lastFocused_spec focused ring le_rfl
  have firstIs : firstFocused focused ring = i := by
    have notBehind : firstFocused focused ring ≤ i :=
      not_lt.mp fun less => before i _ here less member
    have there := List.getElem?_eq_getElem (notBehind.trans_lt inside)
    exact (only _ _ there).mp (first _ there)
  have lastIs : lastFocused focused ring ring.length = i := by
    have notBefore : (i : Int) ≤ lastFocused focused ring ring.length :=
      not_lt.mp fun less => behind i _ here less inside member
    obtain ⟨k, same⟩ := Int.eq_ofNat_of_zero_le (by omega :
      0 ≤ lastFocused focused ring ring.length)
    have there := List.getElem?_eq_getElem (by omega : k < ring.length)
    rw [same, (only _ _ there).mp (last _ _ there same)]
  cases reverse with
  | false =>
    simp only [cyclePlace, turn, lastIs, Bool.false_eq_true, if_false]
    split_ifs <;> omega
  | true =>
    have found : ¬ (i : Int) = -1 := by omega
    simp only [cyclePlace, turn, firstIs, if_true, if_neg found]
    split_ifs <;> omega

theorem onlyAt_of_cyclePlace (several : ring.length ≠ 1) (inside : i < ring.length)
    (right : ∀ reverse, cyclePlace ring reverse focused = turn ring.length reverse i) :
    OnlyAt focused ring i := by
  obtain ⟨within, before, first⟩ := firstFocused_spec focused ring
  obtain ⟨low, high, behind, last⟩ := lastFocused_spec focused ring le_rfl
  have ahead := right false
  have back := right true
  have found : ¬ (firstFocused focused ring : Int) = -1 := by omega
  simp only [cyclePlace, turn, Bool.false_eq_true, if_false, if_true, if_neg found] at ahead back
  have lastIs : lastFocused focused ring ring.length = i ∨
        lastFocused focused ring ring.length = -1 ∧ i + 1 = ring.length := by
    split_ifs at ahead <;> omega
  have firstIs : firstFocused focused ring = i ∨
        firstFocused focused ring = ring.length ∧ i = 0 := by
    split_ifs at back <;> omega
  have here : ring[i]? = some ring[i] := List.getElem?_eq_getElem inside
  have isLast : lastFocused focused ring ring.length = i := by
    rcases lastIs with isLast | ⟨none, atEnd⟩
    · exact isLast
    · rcases firstIs with isFirst | ⟨_, atStart⟩
      · have member := first ring[i] (by rw [isFirst, here])
        exact absurd member (behind i _ here (by omega) inside)
      · omega
  have member : ring[i] ∈ focused := last i _ here isLast
  have isFirst : firstFocused focused ring = i := by
    rcases firstIs with isFirst | ⟨none, _⟩
    · exact isFirst
    · exact absurd member (before i _ here (by omega))
  intro j w same
  constructor
  · intro marked
    rcases lt_trichotomy j i with below | place | above
    · exact absurd marked (before j w same (by omega))
    · exact place
    · have short := (List.getElem?_eq_some_iff.mp same).1
      exact absurd marked (behind j w same (by omega) short)
  · rintro rfl
    cases here.symm.trans same
    exact member

end Finding

/-! ## Going around -/

section Going

variable {win : FocusWindow} {s : FocusState} {i : Nat} {v w : Nat}

theorem place_unique {j : Nat} (here : win.ring[i]? = some w) (there : win.ring[j]? = some w) :
    i = j :=
  (List.getElem?_inj (List.getElem?_eq_some_iff.mp here).1 win.nodup_ring).mp
    (here.trans there.symm)

/-- The widget at a place has the focus, and no other one of the circle. -/
structure FocusAt (win : FocusWindow) (s : FocusState) (i : Nat) : Prop where
  sound : win.Sound s
  inside : i < win.ring.length
  only : OnlyAt s.focused win.ring i

theorem onlyAt_marks (apart : win.Apart) (place : win.ring[i]? = some v) :
    OnlyAt (win.marks v) win.ring i := by
  intro j w there
  rw [apart v (List.mem_of_getElem? place) w (List.mem_of_getElem? there)]
  constructor
  · rintro rfl
    exact place_unique there place
  · rintro rfl
    exact Option.some.inj (there.symm.trans place)

theorem FocusAt.of_widgetFocus (apart : win.Apart) (sound : win.Sound s)
    (focusable : win.Focusable v) (place : win.ring[i]? = some v) (alone : win.Alone s v) :
    win.FocusAt (win.widgetFocus v s).1 i := by
  refine ⟨sound.widgetFocus v, (List.getElem?_eq_some_iff.mp place).1, ?_⟩
  by_cases already : v ∈ s.focused ∧ s.windowFocused = true
  · rw [widgetFocus_already focusable already.1 already.2]
    intro j w there
    have member := List.mem_of_getElem? there
    constructor
    · intro focused
      have same := alone already.1 already.2 w member focused
      subst same
      exact place_unique there place
    · rintro rfl
      cases there.symm.trans place
      exact already.1
  · rw [(sound.widgetFocus_eq focusable already).1]
    exact onlyAt_marks apart place

theorem cycleFocus_of_target {reverse : Bool} (target : win.cycleTarget reverse s = some w) :
    win.cycleFocus reverse s = (win.widgetFocus w s).1 := by
  rw [cycleFocus, target]

theorem FocusAt.cycle (apart : win.Apart) (focusable : ∀ w ∈ win.ring, win.Focusable w)
    (focusAt : win.FocusAt s i) {reverse : Bool}
    (place : win.ring[turn win.ring.length reverse i]? = some w) :
    win.Gives s reverse w ∧
      win.FocusAt (win.cycleFocus reverse s) (turn win.ring.length reverse i) := by
  have target : win.cycleTarget reverse s = some w := by
    rw [cycleTarget, cyclePlace_of_onlyAt focusAt.only focusAt.inside, place]
  have accepts := focusable w (List.mem_of_getElem? place)
  have alone : win.Alone s w := by
    intro focused _ other member otherFocused
    obtain ⟨j, there⟩ := List.mem_iff_getElem?.mp member
    have here := (focusAt.only _ _ place).mp focused
    rw [here, ← (focusAt.only _ _ there).mp otherFocused] at place
    exact Option.some.inj (there.symm.trans place)
  have after := FocusAt.of_widgetFocus apart focusAt.sound accepts place alone
  rw [← cycleFocus_of_target target] at after
  exact ⟨⟨target, widgetFocus_succeeds accepts, (after.only _ _ place).mpr rfl⟩, after⟩

theorem Sound.step (sound : win.Sound s) (input : FocusInput) : win.Sound (win.step s input) := by
  cases input with
  | cycle reverse =>
    rw [FocusWindow.step, cycleFocus]
    cases win.cycleTarget reverse s with
    | none => exact sound
    | some w => exact sound.widgetFocus w
  | window focused => exact ⟨sound.inside, sound.counted⟩

theorem Sound.runInputs (sound : win.Sound s) (inputs : List FocusInput) :
    win.Sound (win.runInputs s inputs) := by
  induction inputs generalizing s with
  | nil => exact sound
  | cons input inputs ih => exact ih (sound.step input)

theorem placeAfter_lt {n : Nat} (inside : i < n) (inputs : List FocusInput) :
    placeAfter n i inputs < n := by
  induction inputs generalizing i with
  | nil => exact inside
  | cons input inputs ih =>
    cases input with
    | cycle reverse => exact ih (turn_lt inside reverse)
    | window focused => exact ih inside

theorem FocusAt.runInputs (apart : win.Apart) (focusable : ∀ w ∈ win.ring, win.Focusable w)
    (focusAt : win.FocusAt s i) (inputs : List FocusInput) :
    win.FocusAt (win.runInputs s inputs) (placeAfter win.ring.length i inputs) := by
  induction inputs generalizing s i with
  | nil => exact focusAt
  | cons input inputs ih =>
    cases input with
    | cycle reverse =>
      have place := List.getElem?_eq_getElem (turn_lt focusAt.inside reverse)
      exact ih (focusAt.cycle apart focusable place).2
    | window focused =>
      exact ih ⟨⟨focusAt.sound.inside, focusAt.sound.counted⟩, focusAt.inside, focusAt.only⟩

theorem runInputs_concat (s : FocusState) (inputs : List FocusInput) (reverse : Bool) :
    win.runInputs s (inputs ++ [.cycle reverse]) =
      win.cycleFocus reverse (win.runInputs s inputs) :=
  List.foldl_append

theorem placeAfter_concat (n i : Nat) (inputs : List FocusInput) (reverse : Bool) :
    placeAfter n i (inputs ++ [.cycle reverse]) = turn n reverse (placeAfter n i inputs) :=
  List.foldl_append

theorem placeAfter_ahead (n i k : Nat) : placeAfter n i (List.replicate k (.cycle false)) =
      (turn n false)^[k] i := by
  induction k generalizing i with
  | zero => rfl
  | succ k ih => exact ih (turn n false i)

theorem FocusAt.rotates (apart : win.Apart) (focusable : ∀ w ∈ win.ring, win.Focusable w)
    (focusAt : win.FocusAt s i) : win.Rotates s i where
  next inputs reverse w place :=
    ((focusAt.runInputs apart focusable inputs).cycle apart focusable place).1
  undone inputs reverse w place := by
    have after := focusAt.runInputs apart focusable (inputs ++ [.cycle reverse])
    have back : turn win.ring.length (!reverse)
            (placeAfter win.ring.length i (inputs ++ [.cycle reverse])) =
          placeAfter win.ring.length i inputs := by
      rw [placeAfter_concat]
      exact turn_turn (placeAfter_lt focusAt.inside inputs) reverse
    rw [← back] at place
    exact (after.cycle apart focusable place).1
  visited w member := by
    obtain ⟨j, there⟩ := List.mem_iff_getElem?.mp member
    have short := (List.getElem?_eq_some_iff.mp there).1
    have gives : ∀ k, win.Gives (win.runInputs s (List.replicate k (.cycle false))) false w ↔
            (turn win.ring.length false)^[k + 1] i = j := by
      intro k
      have after := focusAt.runInputs apart focusable (List.replicate k (.cycle false))
      rw [placeAfter_ahead] at after
      rw [Function.iterate_succ_apply']
      constructor
      · intro given
        have target := given.target
        rw [cycleTarget, cyclePlace_of_onlyAt after.only after.inside] at target
        exact place_unique target there
      · rintro rfl
        exact (after.cycle apart focusable there).1
    simp only [gives]
    exact existsUnique_iterate_turn focusAt.inside short

theorem Rotates.onlyAt (rotates : win.Rotates s i) (several : win.ring.length ≠ 1)
    (inside : i < win.ring.length) (inputs : List FocusInput) :
    OnlyAt (win.runInputs s inputs).focused win.ring (placeAfter win.ring.length i inputs) := by
  have after := placeAfter_lt inside inputs
  refine onlyAt_of_cyclePlace several after fun reverse => ?_
  have place := List.getElem?_eq_getElem (turn_lt after reverse)
  exact place_unique (rotates.next inputs reverse _ place).target place

theorem Rotates.apart (rotates : win.Rotates s i) (sound : win.Sound s)
    (focusable : ∀ w ∈ win.ring, win.Focusable w) (inside : i < win.ring.length) : win.Apart := by
  intro v inRing w inRingToo
  obtain ⟨j, here⟩ := List.mem_iff_getElem?.mp inRing
  obtain ⟨k, there⟩ := List.mem_iff_getElem?.mp inRingToo
  have short := (List.getElem?_eq_some_iff.mp here).1
  have shortToo := (List.getElem?_eq_some_iff.mp there).1
  by_cases several : win.ring.length ≠ 1
  · -- the step ahead that comes to `v` finds it without the focus
    obtain ⟨steps, ⟨_, leads⟩, _⟩ := existsUnique_iterate_turn inside short
    rw [Function.iterate_succ_apply', ← placeAfter_ahead] at leads
    generalize List.replicate steps (FocusInput.cycle false) = ahead at leads
    have before := rotates.onlyAt several inside ahead
    have after := rotates.onlyAt several inside (ahead ++ [.cycle false])
    have elsewhere := turn_ne (placeAfter_lt inside ahead) several false
    rw [leads] at elsewhere
    have fresh : ¬ (v ∈ (win.runInputs s ahead).focused ∧
            (win.runInputs s ahead).windowFocused = true) :=
      fun already => elsewhere ((before j v here).mp already.1)
    have given := rotates.next ahead false v (by rw [leads, here])
    rw [runInputs_concat, placeAfter_concat, leads, cycleFocus_of_target given.target,
      ((sound.runInputs ahead).widgetFocus_eq (focusable v inRing) fresh).1]
      at after
    rw [after k w there]
    constructor
    · rintro rfl
      exact Option.some.inj (there.symm.trans here)
    · rintro rfl
      exact place_unique there here
  · -- the only widget gets the focus anew when its window lost it
    have samePlace : k = j := by omega
    have startPlace : turn win.ring.length false i = j := by
      have bound := turn_lt inside false
      omega
    subst samePlace
    cases here.symm.trans there
    have given := rotates.next [.window false] false v (by
      rw [← startPlace] at here
      exact here)
    have fresh : ¬ (v ∈ (win.runInputs s [.window false]).focused ∧
            (win.runInputs s [.window false]).windowFocused = true) :=
      fun already => Bool.false_ne_true already.2
    have focused := given.focused
    rw [cycleFocus_of_target given.target,
      ((sound.runInputs [.window false]).widgetFocus_eq (focusable v inRing) fresh).1] at focused
    exact iff_of_true focused rfl

theorem Rotates.alone (rotates : win.Rotates (win.widgetFocus v s).1 i)
    (focusable : ∀ w ∈ win.ring, win.Focusable w) (place : win.ring[i]? = some v) :
    win.Alone s v := by
  intro focused windowFocused w member otherFocused
  have inside := (List.getElem?_eq_some_iff.mp place).1
  obtain ⟨j, there⟩ := List.mem_iff_getElem?.mp member
  by_cases several : win.ring.length ≠ 1
  · have only := rotates.onlyAt several inside []
    rw [widgetFocus_already (focusable v (List.mem_of_getElem? place)) focused
      windowFocused] at only
    have same : j = i := (only j w there).mp otherFocused
    rw [same] at there
    exact Option.some.inj (there.symm.trans place)
  · have short := (List.getElem?_eq_some_iff.mp there).1
    have same : j = i := by omega
    rw [same] at there
    exact Option.some.inj (there.symm.trans place)

/--
From the state after `AG_WidgetFocus` of a widget of the circle, the focus
rotates exactly when the widgets are apart and, where that widget had the focus
already, no other one of the circle had it.
-/
theorem rotates_iff (reached : win.Reached s) (focusable : ∀ w ∈ win.ring, win.Focusable w)
    (place : win.ring[i]? = some v) :
    win.Rotates (win.widgetFocus v s).1 i ↔ win.Apart ∧ win.Alone s v := by
  have sound := reached.sound
  have inside := (List.getElem?_eq_some_iff.mp place).1
  constructor
  · intro rotates
    exact ⟨rotates.apart (sound.widgetFocus v) focusable inside, rotates.alone focusable place⟩
  · rintro ⟨apart, alone⟩
    have accepts := focusable v (List.mem_of_getElem? place)
    exact (FocusAt.of_widgetFocus apart sound accepts place alone).rotates apart focusable

end Going

/-! ## Two windows -/

def twoButtons : FocusWindow where
  window := ⟨0, false, none⟩
  children := .node ⟨1, true, none⟩ .empty (.node ⟨2, true, none⟩ .empty .empty)
  distinct := by decide
  forwards := by simp [OrderedForest.labels]

theorem rotates_iff_twoButtons : twoButtons.Rotates (twoButtons.widgetFocus 1 ⟨∅, 0, false⟩).1 0 ↔
      twoButtons.Apart ∧ twoButtons.Alone ⟨∅, 0, false⟩ 1 := by
  have focusable : ∀ w ∈ twoButtons.ring, twoButtons.Focusable w := by
    intro w member
    change w ∈ [1, 2] at member
    rcases List.mem_pair.mp member with rfl | rfl
    · exact ⟨_, rfl, rfl⟩
    · exact ⟨_, rfl, rfl⟩
  exact rotates_iff .init focusable rfl

def numericalAndButton : FocusWindow where
  window := ⟨0, false, none⟩
  children :=
    .node ⟨1, true, some 2⟩ (.node ⟨2, true, some 3⟩ (.node ⟨3, true, none⟩ .empty .empty) .empty)
      (.node ⟨4, true, none⟩ .empty .empty)
  distinct := by decide
  forwards := by simp [OrderedForest.labels, OrderedForest.keys]

theorem field_in_text_box_is_skipped : numericalAndButton.ring = [2, 3, 4] ∧
      (∀ w ∈ numericalAndButton.ring, numericalAndButton.Focusable w) ∧
      ¬ numericalAndButton.Rotates (numericalAndButton.widgetFocus 2 ⟨∅, 0, false⟩).1 0 := by
  have circle : numericalAndButton.ring = [2, 3, 4] := rfl
  refine ⟨circle, fun w member => ?_, fun rotates => ?_⟩
  · rw [circle] at member
    simp only [List.mem_cons, List.not_mem_nil, or_false] at member
    rcases member with rfl | rfl | rfl
    · exact ⟨_, rfl, rfl⟩
    · exact ⟨_, rfl, rfl⟩
    · exact ⟨_, rfl, rfl⟩
  · have target := (rotates.next [] false 3 rfl).target
    have skipped : numericalAndButton.cycleTarget false
            (numericalAndButton.widgetFocus 2 ⟨∅, 0, false⟩).1 =
          some 4 := by
      decide
    cases skipped.symm.trans target

end FocusWindow

end Agar.Gui
