import Agar.Core.ObjectTree

namespace Agar.Core

open Agar.Lib

/-!
# Object paths

`AG_ObjectGetName` builds the path of an object from the object up to its
root, and `AG_ObjectFindS` takes it apart from the root down to the object.
The two meet in `World.Descends`, the names on the way from one object to
another.
-/

namespace World

/--
Children of one object have different names, and no child has a path separator
in its name.
-/
structure NamesDistinguish (w : World) : Prop where
  distinct : ∀ p first second firstEntry secondEntry, w.parentOf first = some p →
      w.parentOf second = some p →
      w.objects first = some firstEntry →
      w.objects second = some secondEntry →
      firstEntry.name = secondEntry.name →
      first = second
  noSeparator : ∀ p ob entry, w.parentOf ob = some p → w.objects ob = some entry →
      pathSepChar ∉ entry.name.bytes

/-- The names of the objects on the way down from one object to another. -/
inductive Descends (w : World) (top : ObjRef) : ObjRef → List (List UInt8) → Prop where
  | here : Descends w top top []
  | child {parent ob : ObjRef} {names : List (List UInt8)} {entry : Object}
      (above : Descends w top parent names)
      (stored : w.objects ob = some entry)
      (up : entry.parent = some parent) :
      Descends w top ob (names ++ [entry.name.bytes])

/-- Names that are each followed by a separator, as they are looked up. -/
def followedBySep (names : List (List UInt8)) : List UInt8 := names.flatMap (· ++ [pathSepChar])

/-- Names that each follow a separator, as they are prepended. -/
def precededBySep (names : List (List UInt8)) : List UInt8 := names.flatMap (pathSepChar :: ·)

theorem precededBySep_append_sep (names : List (List UInt8)) :
    precededBySep names ++ [pathSepChar] = pathSepChar :: followedBySep names := by
  induction names with
  | nil => rfl
  | cons name rest ih =>
    simp only [precededBySep, followedBySep, List.flatMap_cons,
      List.append_assoc, List.cons_append, List.nil_append]
      at ih ⊢
    rw [ih]

variable {w : World}

variable {ob top : ObjRef}

theorem descends_of_within (within : Within w.parentOf ob top) :
    ∃ names, w.Descends top ob names := by
  induction within using Relation.ReflTransGen.head_induction_on with
  | refl => exact ⟨[], .here⟩
  | @head lower next up _ ih =>
    obtain ⟨names, above⟩ := ih
    obtain ⟨entry, stored, entryUp⟩ := Option.bind_eq_some_iff.mp up
    exact ⟨_, above.child stored entryUp⟩

variable {names : List (List UInt8)}

theorem Descends.within (descends : w.Descends top ob names) : Within w.parentOf ob top := by
  induction descends with
  | here => exact Within.refl top
  | child above stored up ih => exact ih.up (by simp [parentOf, stored, up])

/-! ## Looking up -/

theorem findChild_of_unique {name : List UInt8} {entry : Object}
    (stored : w.objects ob = some entry) (named : entry.name.bytes = name)
    {children : List ObjRef} (member : ob ∈ children)
    (live : ∀ child ∈ children, ∃ entry, w.objects child = some entry)
    (unique : ∀ child ∈ children, ∀ entry, w.objects child = some entry → entry.name.bytes = name →
        child = ob) : w.findChild name children = .ok (some ob) := by
  induction children with
  | nil => cases member
  | cons child rest ih =>
    obtain ⟨childEntry, childStored⟩ := live child List.mem_cons_self
    rw [findChild, object_eq_ok.mpr childStored]
    change (if childEntry.name.bytes = name then _ else _) = _
    by_cases sameName : childEntry.name.bytes = name
    · rw [if_pos sameName, unique child List.mem_cons_self childEntry childStored sameName]
      rfl
    · rw [if_neg sameName]
      refine ih ?_ ?_ ?_
      · rcases List.mem_cons.mp member with same | inRest
        · subst same
          rw [stored] at childStored
          cases childStored
          exact absurd named sameName
        · exact inRest
      · exact fun later inRest => live later (List.mem_cons_of_mem child inRest)
      · exact fun later inRest => unique later (List.mem_cons_of_mem child inRest)

theorem firstComponent {name rest : List UInt8} (noNul : 0 ∉ name)
    (short : name.length < objectNameMax) (noSeparator : pathSepChar ∉ name) :
    ((CString.strlcpy (name ++ pathSepChar :: rest) :
        CString objectPathMax).bytes).takeWhile (· ≠ pathSepChar) = name := by
  have copied : (CString.strlcpy (name ++ pathSepChar :: rest) : CString objectPathMax).bytes =
        name ++ pathSepChar :: (cString rest).take (objectPathMax - 1 - name.length - 1) := by
    have separatorKept : cString (pathSepChar :: rest) = pathSepChar :: cString rest := by
      rw [cString_cons, if_neg (by decide)]
    have fits : name.length + 1 ≤ objectPathMax - 1 := Nat.le_trans short (by decide)
    simp only [CString.strlcpy]
    rw [cString_append noNul, separatorKept, List.take_append, List.take_of_length_le (by omega)]
    congr 1
    obtain ⟨room, roomEq⟩ : ∃ room, objectPathMax - 1 - name.length = room + 1 :=
      ⟨objectPathMax - 1 - name.length - 1, by omega⟩
    rw [roomEq, List.take_succ_cons, Nat.add_sub_cancel]
  rw [copied, List.takeWhile_append_of_pos, List.takeWhile_cons_of_neg (by simp), List.append_nil]
  intro byte member
  simpa using ne_of_mem_of_not_mem member noSeparator

theorem dropWhile_component {name : List UInt8} (noSeparator : pathSepChar ∉ name)
    (rest : List UInt8) :
    (name ++ pathSepChar :: rest).dropWhile (· ≠ pathSepChar) = pathSepChar :: rest := by
  rw [List.dropWhile_append_of_pos, List.dropWhile_cons_of_neg (by simp)]
  intro byte member
  simpa using ne_of_mem_of_not_mem member noSeparator

theorem findObjectByName_child (invariant : w.TreeInvariant) (names : w.NamesDistinguish)
    {parent : ObjRef} {entry : Object} (stored : w.objects ob = some entry)
    (up : entry.parent = some parent) (rest : List UInt8) :
    w.findObjectByName parent (entry.name.bytes ++ pathSepChar :: rest) =
      if rest = [] then .ok (some ob) else w.findObjectByName ob rest := by
  have parentOf : w.parentOf ob = some parent := by simp [World.parentOf, stored, up]
  obtain ⟨pobj, pobjStored, member⟩ := (invariant.listed ob parent).mp parentOf
  have noSeparator := names.noSeparator parent ob entry parentOf stored
  have childOf {child : ObjRef} (inList : child ∈ pobj.children) : w.parentOf child = some parent :=
    (invariant.listed child parent).mpr ⟨pobj, pobjStored, inList⟩
  have found : w.findChild entry.name.bytes pobj.children = .ok (some ob) := by
    refine findChild_of_unique stored rfl member ?_ ?_
    · intro child inList
      obtain ⟨childEntry, childStored, _⟩ := Option.bind_eq_some_iff.mp (childOf inList)
      exact ⟨childEntry, childStored⟩
    · intro child inList childEntry childStored sameName
      exact names.distinct parent child ob childEntry entry
        (childOf inList) parentOf childStored stored (CString.ext sameName)
  rw [findObjectByName, object_eq_ok.mpr pobjStored]
  simp only [bind, Except.bind, firstComponent entry.name.noNul entry.name.fits noSeparator, found]
  have separated := dropWhile_component noSeparator rest
  split
  case h_1 first later dropped =>
    rw [dropped, List.cons.injEq] at separated
    rw [← separated.2, if_neg (List.cons_ne_nil _ _)]
  case h_2 noMore =>
    cases rest with
    | nil => rfl
    | cons first later => exact absurd separated (noMore _ _ _)

theorem findObjectByName_descends (invariant : w.TreeInvariant) (distinguish : w.NamesDistinguish)
    (descends : w.Descends top ob names) {rest : List UInt8} (more : rest ≠ []) :
    w.findObjectByName top (followedBySep names ++ rest) = w.findObjectByName ob rest := by
  induction descends generalizing rest with
  | here => rfl
  | @child parent ob names entry above stored up ih =>
    have regrouped : followedBySep (names ++ [entry.name.bytes]) ++ rest = followedBySep names ++
            (entry.name.bytes ++ pathSepChar :: rest) := by
      simp [followedBySep]
    rw [regrouped, ih (by simp),
      findObjectByName_child invariant distinguish stored up, if_neg more]

/-! ## Building -/

theorem pathLength_descends (descends : w.Descends top ob names) {topEntry : Object}
    (topStored : w.objects top = some topEntry) (noParent : topEntry.parent = none) :
    ∃ steps, ∀ fuel, steps ≤ fuel → ∀ pathLen, w.pathLength fuel ob pathLen =
        .ok (pathLen + (precededBySep names).length) := by
  induction descends with
  | here =>
    refine ⟨1, fun fuel enough pathLen => ?_⟩
    obtain ⟨less, rfl⟩ := Nat.exists_eq_add_of_le' enough
    rw [pathLength, object_eq_ok.mpr topStored]
    simp only [bind, Except.bind, noParent]
    rfl
  | @child parent ob names entry above stored up ih =>
    obtain ⟨steps, reaches⟩ := ih
    refine ⟨steps + 1, fun fuel enough pathLen => ?_⟩
    obtain ⟨less, rfl⟩ := Nat.exists_eq_add_of_le' enough
    rw [← Nat.add_assoc, pathLength, object_eq_ok.mpr stored]
    simp only [bind, Except.bind, up]
    rw [reaches _ (by omega)]
    simp only [precededBySep, List.flatMap_append, List.length_append,
      List.flatMap_cons, List.flatMap_nil, List.length_cons,
      List.length_nil]
    congr 1
    omega

theorem generateObjectPath_descends (invariant : w.TreeInvariant)
    (descends : w.Descends top ob names) (topNoParent : w.parentOf top = none) (below : ob ≠ top)
    {capacity pathLen : Nat} (room : pathLen + 1 ≤ capacity) {path : List UInt8}
    (fits : (precededBySep names).length + path.length ≤ pathLen) :
    w.generateObjectPath capacity pathLen ob path = .ok (0, precededBySep names ++ path) := by
  induction descends generalizing path with
  | here => exact absurd rfl below
  | @child parent ob names entry above stored up ih =>
    have rootTop : entry.root = top :=
      (invariant.rootIsTop ob entry stored).unique ⟨(above.child stored up).within, topNoParent⟩
    have split : (precededBySep (names ++ [entry.name.bytes])).length =
          (precededBySep names).length + (entry.name.bytes.length + 1) := by
      simp [precededBySep]
    rw [split] at fits
    have prepended : precededBySep (names ++ [entry.name.bytes]) ++ path = precededBySep names ++
            (pathSepChar :: (entry.name.bytes ++ path)) := by
      simp [precededBySep]
    rw [generateObjectPath, object_eq_ok.mpr stored]
    simp only [bind, Except.bind]
    rw [dif_neg (by omega), if_neg (by omega)]
    simp only [up, rootTop, prepended]
    by_cases reached : parent = top
    · subst reached
      have noNames : names = [] := by
        cases above with
        | here => rfl
        | child _ topStored topUp => simp [parentOf, topStored, topUp] at topNoParent
      rw [if_neg (by simp), noNames]
      rfl
    · rw [if_pos reached]
      refine ih reached ?_
      simp only [List.length_cons, List.length_append]
      omega

/-! ## Paths are addresses -/

/--
In a tree with correct root pointers whose siblings have different names, the
path that `AG_ObjectGetName` makes for an object other than a root leads
`AG_ObjectFindS` from its root to the object.
-/
theorem objectFindS_getName {w : World} (invariant : w.TreeInvariant)
    (distinguish : w.NamesDistinguish) {ob : ObjRef} {entry : Object}
    (stored : w.objects ob = some entry) (nonRoot : entry.parent ≠ none) :
    ∃ steps path, ∀ fuel, steps ≤ fuel → w.objectGetName fuel ob = .ok path ∧
        w.objectFindS entry.root path = .ok (some ob) := by
  have rootTop := invariant.rootIsTop ob entry stored
  have below : ob ≠ entry.root := by
    intro isRoot
    have noParent := rootTop.noParent
    rw [← isRoot, parentOf, stored] at noParent
    exact nonRoot noParent
  obtain ⟨child, childUp⟩ := rootTop.within.through_child below
  obtain ⟨rootEntry, rootStored, _⟩ := (invariant.listed _ _).mp childUp
  have rootNoParent : rootEntry.parent = none := by
    simpa [parentOf, rootStored] using rootTop.noParent
  obtain ⟨names, descends⟩ := descends_of_within rootTop.within
  obtain ⟨steps, measured⟩ := pathLength_descends descends rootStored rootNoParent
  have generated : w.generateObjectPath (1 + (precededBySep names).length + 1)
          (1 + (precededBySep names).length) ob [pathSepChar] =
        .ok (0, pathSepChar :: followedBySep names) := by
    rw [← precededBySep_append_sep]
    refine generateObjectPath_descends invariant descends rootTop.noParent below (Nat.le_refl _) ?_
    rw [List.length_singleton]
    omega
  refine ⟨steps, pathSepChar :: followedBySep names, fun fuel enough => ⟨?_, ?_⟩⟩
  · rw [objectGetName, measured fuel enough, object_eq_ok.mpr stored]
    simp only [bind, Except.bind, if_neg below, generated]
    rfl
  · cases descends with
    | here => exact absurd rfl below
    | @child parent _ above lastEntry descendsParent lastStored lastUp =>
      have lastLooked : followedBySep (above ++ [lastEntry.name.bytes]) = followedBySep above ++
              (lastEntry.name.bytes ++ [pathSepChar]) := by
        simp [followedBySep]
      rw [objectFindS, lastLooked, if_neg (by simp),
        findObjectByName_descends invariant distinguish descendsParent (by simp),
        findObjectByName_child invariant distinguish lastStored lastUp,
        if_pos rfl]

def named (name : String) (parent : Option ObjRef) (children : List ObjRef) : Object where
  name := .strlcpy (ascii name)
  cls := agObjectClass
  flags := 0
  events := []
  vars := []
  deps := []
  parent := parent
  root := 0
  children := children
  attachFn := none
  detachFn := none

/-- A root, its child `a`, and the child `b` of that child. -/
def threeLevels : World where
  objects
    | 0 => some (named "" none [1])
    | 1 => some (named "a" (some 0) [2])
    | 2 => some (named "b" (some 1) [])
    | _ => none
  timing := .initial
  fnEvents _ := none
  posted := []

theorem threeLevels_treeInvariant : threeLevels.TreeInvariant := by
  have childUp : threeLevels.parentOf 1 = some 0 := rfl
  have grandchildUp : threeLevels.parentOf 2 = some 1 := rfl
  have rootTop : Top threeLevels.parentOf 0 0 := Top.self rfl
  have childTop := (top_iff_parent childUp).mpr rootTop
  have grandchildTop := (top_iff_parent grandchildUp).mpr childTop
  refine ⟨?_, ?_, ?_⟩
  · rintro (_ | _ | _ | ob) entry stored <;> cases stored
    · exact rootTop
    · exact childTop
    · exact grandchildTop
  · rintro (_ | _ | _ | ob) (_ | _ | _ | p) <;>
      simp [parentOf, threeLevels, named]
  · rintro (_ | _ | _ | p) pobj stored <;> cases stored <;> simp [named]

theorem objectFindS_getName_grandchild : ∃ steps path, ∀ fuel, steps ≤ fuel →
      threeLevels.objectGetName fuel 2 = .ok path ∧
        threeLevels.objectFindS 0 path = .ok (some 2) := by
  have distinguish : threeLevels.NamesDistinguish := by
    refine ⟨?_, ?_⟩
    · rintro p (_ | _ | _ | first) (_ | _ | _ | second) firstEntry
        secondEntry firstUp secondUp _ _ _ <;>
        first
        | rfl
        | exact absurd (firstUp.trans secondUp.symm) (by decide)
        | (cases firstUp; done)
        | cases secondUp
    · rintro p (_ | _ | _ | ob) entry up stored <;> cases stored
      all_goals decide
  have stored : threeLevels.objects 2 = some (named "b" (some 1) []) := rfl
  exact objectFindS_getName threeLevels_treeInvariant distinguish stored (by simp [named])

end World

end Agar.Core
