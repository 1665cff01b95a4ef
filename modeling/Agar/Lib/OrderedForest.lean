import Mathlib

namespace Agar.Lib

/-!
# Ordered forests

An ordered forest as linked lists of children hold it: a first node, the
forest of its children, and the forest of the nodes after it.  Nodes are told
apart by a key, and a node is changed together with what is below and after
it.  What a change does is said of the list of all nodes, each with its
ancestors.
-/

/-- A forest of labelled nodes -/
inductive OrderedForest (α : Type) where
  | empty
  | node
      (label : α)
      (children next : OrderedForest α)
  deriving Repr, DecidableEq

namespace OrderedForest

variable {α κ : Type}

/-- A node, with its ancestors, the nearest one first, and what follows it -/
structure Place (α : Type) where
  above : List α
  label : α
  children : OrderedForest α
  next : OrderedForest α
  deriving Repr, DecidableEq

/-- The labels, those of children after the one of their parent -/
def labels : OrderedForest α → List α
  | empty => []
  | node label children next => label :: (labels children ++ labels next)

/-- The labels with those of their ancestors, the nearest one first -/
def paths (above : List α) : OrderedForest α → List (α × List α)
  | empty => []
  | node label children next =>
    (label, above) :: (paths (label :: above) children ++ paths above next)

/-- The labels of the nodes that are not below others -/
def roots : OrderedForest α → List α
  | empty => []
  | node label _ next => label :: roots next

/-- The forest with other labels -/
def map (f : α → α) : OrderedForest α → OrderedForest α
  | empty => empty
  | node label children next => node (f label) (map f children) (map f next)

/-- A node without children at the end -/
def insertTail (added : α) : OrderedForest α → OrderedForest α
  | empty => node added empty empty
  | node label children next => node label children (insertTail added next)

@[simp] theorem map_fst_paths (above : List α) (forest : OrderedForest α) :
    (paths above forest).map Prod.fst = labels forest := by
  induction forest generalizing above with
  | empty => rfl
  | node label children next childrenIh nextIh =>
    simp [paths, labels, childrenIh, nextIh]

theorem paths_insertTail (above : List α) (added : α) (forest : OrderedForest α) :
    paths above (insertTail added forest) = paths above forest ++ [(added, above)] := by
  induction forest with
  | empty => rfl
  | node label children next _ nextIh => simp [paths, insertTail, nextIh]

theorem labels_map (f : α → α) (forest : OrderedForest α) :
    labels (map f forest) = (labels forest).map f := by
  induction forest with
  | empty => rfl
  | node label children next childrenIh nextIh =>
    simp [labels, map, childrenIh, nextIh]

theorem paths_map (f : α → α) (above : List α) (forest : OrderedForest α) :
    paths (above.map f) (map f forest) =
      (paths above forest).map fun path => (f path.1, path.2.map f) := by
  induction forest generalizing above with
  | empty => rfl
  | node label children next childrenIh nextIh =>
    have below := childrenIh (label :: above)
    rw [List.map_cons] at below
    simp [paths, map, below, nextIh]

theorem roots_map (f : α → α) (forest : OrderedForest α) :
    roots (map f forest) = (roots forest).map f := by
  induction forest with
  | empty => rfl
  | node label children next _ nextIh => simp [roots, map, nextIh]

theorem roots_sublist_labels (forest : OrderedForest α) :
    (roots forest).Sublist (labels forest) := by
  induction forest with
  | empty => exact .slnil
  | node label children next _ nextIh =>
    exact (nextIh.trans (List.sublist_append_right _ _)).cons_cons _

theorem mem_of_mem_above {forest : OrderedForest α} {above ancestors : List α} {label ancestor : α}
    (path : (label, ancestors) ∈ paths above forest) (member : ancestor ∈ ancestors) :
    ancestor ∈ above ∨ ancestor ∈ labels forest := by
  induction forest generalizing above with
  | empty => cases path
  | node other children next childrenIh nextIh =>
    rw [labels, List.mem_cons, List.mem_append]
    rcases List.mem_cons.mp path with same | later
    · cases same
      exact .inl member
    · rcases List.mem_append.mp later with below | after
      · rcases childrenIh below with inAbove | inChildren
        · rcases List.mem_cons.mp inAbove with same | further
          · exact .inr (.inl same)
          · exact .inl further
        · exact .inr (.inr (.inl inChildren))
      · exact (nextIh after).imp_right fun inNext => .inr (.inr inNext)

theorem mem_paths_root {forest : OrderedForest α} {label : α} :
    (label, []) ∈ paths [] forest ↔ label ∈ roots forest := by
  have nothingBelow : ∀ (below : OrderedForest α) (above : List α),
        above ≠ [] → (label, []) ∉ paths above below := by
    intro below
    induction below with
    | empty => exact fun _ _ => List.not_mem_nil
    | node other children next childrenIh nextIh =>
      intro above nonempty member
      rcases List.mem_cons.mp member with same | later
      · exact nonempty (congrArg Prod.snd same).symm
      · rcases List.mem_append.mp later with inChildren | inNext
        · exact childrenIh _ (List.cons_ne_nil other above) inChildren
        · exact nextIh above nonempty inNext
  induction forest with
  | empty => simp [paths, roots]
  | node other children next _ nextIh =>
    simp [paths, roots, nextIh, nothingBelow children [other] (List.cons_ne_nil _ _)]

theorem perm_append_between {before after old new : List α}
    (exchanged : (after ++ old).Perm (before ++ new)) (rest : List α) :
    ((after ++ rest) ++ old).Perm ((before ++ rest) ++ new) := by
  have toEnd : ∀ first last : List α, ((first ++ rest) ++ last).Perm ((first ++ last) ++ rest) := by
    intro first last
    rw [List.append_assoc, List.append_assoc]
    exact List.perm_append_comm.append_left first
  exact (toEnd after old).trans ((exchanged.append_right rest).trans (toEnd before new).symm)

section Keyed

variable [DecidableEq κ] (key : α → κ)

/-- The keys of the nodes -/
def keys (forest : OrderedForest α) : List κ := (labels forest).map key

/-- The first node with a key, below some ancestors -/
def locate (k : κ) (above : List α) : OrderedForest α → Option (Place α)
  | empty => none
  | node label children next =>
    if key label = k then some ⟨above, label, children, next⟩
    else (locate k (label :: above) children).or (locate k above next)

/-- Change the node with a key, together with what is below and after it. -/
def adjust (k : κ) (change : α → OrderedForest α → OrderedForest α → OrderedForest α) :
    OrderedForest α → OrderedForest α
  | empty => empty
  | node label children next =>
    if key label = k then change label children next
    else node label (adjust k change children) (adjust k change next)

variable {key} {k : κ} {above : List α} {forest : OrderedForest α} {place : Place α}
  {change : α → OrderedForest α → OrderedForest α → OrderedForest α}

omit [DecidableEq κ] in
theorem keys_map {f : α → α} (keeps : ∀ label, key (f label) = key label)
    (forest : OrderedForest α) : keys key (map f forest) = keys key forest := by
  rw [keys, keys, labels_map, List.map_map]
  exact List.map_congr_left fun label _ => keeps label

omit [DecidableEq κ] in
theorem keys_node (label : α) (children next : OrderedForest α) :
    keys key (node label children next) = key label :: (keys key children ++ keys key next) := by
  simp [keys, labels]

omit [DecidableEq κ] in
theorem nodup_keys_node {label : α} {children next : OrderedForest α} :
    (keys key (node label children next)).Nodup ↔
      key label ∉ keys key children ∧ key label ∉ keys key next ∧
        (keys key children).Nodup ∧ (keys key next).Nodup ∧
        ∀ other ∈ keys key children, other ∉ keys key next := by
  rw [keys_node, List.nodup_cons, List.nodup_append, List.mem_append, not_or]
  grind

theorem locate_isSome : (locate key k above forest).isSome ↔ k ∈ keys key forest := by
  induction forest generalizing above with
  | empty => simp [locate, keys, labels]
  | node label children next childrenIh nextIh =>
    rw [keys_node, locate, List.mem_cons, List.mem_append]
    by_cases same : key label = k
    · simp [same]
    · rw [if_neg same, Option.isSome_or, Bool.or_eq_true, childrenIh, nextIh]
      grind

theorem locate_eq_none : locate key k above forest = none ↔ k ∉ keys key forest := by
  rw [← Option.not_isSome_iff_eq_none, not_iff_not]
  exact locate_isSome

theorem exists_locate (above : List α) (member : k ∈ keys key forest) :
    ∃ place, locate key k above forest = some place :=
  Option.isSome_iff_exists.mp (locate_isSome.mpr member)

theorem mem_keys_of_locate (located : locate key k above forest = some place) :
    k ∈ keys key forest :=
  locate_isSome.mp (Option.isSome_iff_exists.mpr ⟨place, located⟩)

theorem key_of_locate (located : locate key k above forest = some place) : key place.label = k := by
  induction forest generalizing above with
  | empty => cases located
  | node label children next childrenIh nextIh =>
    rw [locate] at located
    split at located
    case isTrue same =>
      cases located
      exact same
    case isFalse =>
      rcases Option.or_eq_some_iff.mp located with below | ⟨_, after⟩
      · exact childrenIh below
      · exact nextIh after

theorem keys_adjust (keeps : ∀ label children next, keys key (change label children next) =
          keys key (node label children next)) (k : κ) (forest : OrderedForest α) :
    keys key (adjust key k change forest) = keys key forest := by
  induction forest with
  | empty => rfl
  | node label children next childrenIh nextIh =>
    rw [adjust]
    split
    case isTrue => exact keeps label children next
    case isFalse => rw [keys_node, keys_node, childrenIh, nextIh]

theorem map_adjust {f : α → α} (keeps : ∀ label children next,
        map f (change label children next) = map f (node label children next)) (k : κ)
    (forest : OrderedForest α) : map f (adjust key k change forest) = map f forest := by
  induction forest with
  | empty => rfl
  | node label children next childrenIh nextIh =>
    rw [adjust]
    split
    case isTrue => exact keeps label children next
    case isFalse => rw [map, map, childrenIh, nextIh]

theorem adjust_node (k : κ) (forest : OrderedForest α) : adjust key k node forest = forest := by
  induction forest with
  | empty => rfl
  | node label children next childrenIh nextIh =>
    rw [adjust, childrenIh, nextIh, ite_self]

theorem adjust_of_notMem (absent : k ∉ keys key forest) : adjust key k change forest = forest := by
  induction forest with
  | empty => rfl
  | node label children next childrenIh nextIh =>
    rw [keys_node, List.mem_cons, List.mem_append, not_or, not_or] at absent
    rw [adjust, if_neg (Ne.symm absent.1), childrenIh absent.2.1, nextIh absent.2.2]

theorem filter_labels_adjust {selected : α → Bool}
    (fewer : ∀ label children next, ((labels (change label children next)).filter selected).Sublist
          ((labels (node label children next)).filter selected)) (k : κ)
    (forest : OrderedForest α) :
    ((labels (adjust key k change forest)).filter selected).Sublist
      ((labels forest).filter selected) := by
  induction forest with
  | empty => exact List.Sublist.refl _
  | node label children next childrenIh nextIh =>
    rw [adjust]
    split
    case isTrue => exact fewer label children next
    case isFalse =>
      have both := childrenIh.append nextIh
      rw [labels, labels, List.filter_cons, List.filter_cons,
        List.filter_append, List.filter_append]
      split
      · exact both.cons_cons label
      · exact both

theorem adjust_label {f : α → α} (distinct : (keys key forest).Nodup) (k : κ) :
    adjust key k (fun label children next => node (f label) children next) forest =
      map (fun label => if key label = k then f label else label) forest := by
  have unchanged : ∀ {other : OrderedForest α}, k ∉ keys key other →
          map (fun label => if key label = k then f label else label) other = other := by
    intro other absent
    induction other with
    | empty => rfl
    | node label children next childrenIh nextIh =>
      rw [keys_node, List.mem_cons, List.mem_append, not_or, not_or] at absent
      rw [map, if_neg (Ne.symm absent.1), childrenIh absent.2.1, nextIh absent.2.2]
  induction forest with
  | empty => rfl
  | node label children next childrenIh nextIh =>
    obtain ⟨notBelow, notAfter, childrenDistinct, nextDistinct, _⟩ := nodup_keys_node.mp distinct
    rw [adjust, map]
    split
    case isTrue same =>
      subst same
      rw [unchanged notBelow, unchanged notAfter]
    case isFalse => rw [childrenIh childrenDistinct, nextIh nextDistinct]

theorem locate_map {f : α → α} (keeps : ∀ label, key (f label) = key label) (k : κ) (above : List α)
    (forest : OrderedForest α) :
    locate key k (above.map f) (map f forest) = (locate key k above forest).map fun place =>
        ⟨place.above.map f, f place.label, map f place.children, map f place.next⟩ := by
  induction forest generalizing above with
  | empty => rfl
  | node label children next childrenIh nextIh =>
    have below := childrenIh (label :: above)
    rw [List.map_cons] at below
    rw [map, locate, locate, keeps]
    split
    case isTrue => rfl
    case isFalse => rw [below, nextIh above, Option.map_or]

theorem paths_adjust (distinct : (keys key forest).Nodup)
    (located : locate key k above forest = some place) :
    (paths above (adjust key k change forest) ++ paths place.above
          (node place.label place.children place.next)).Perm
      (paths above forest ++ paths place.above (change place.label place.children place.next)) := by
  induction forest generalizing above with
  | empty => cases located
  | node label children next childrenIh nextIh =>
    obtain ⟨_, _, childrenDistinct, nextDistinct, disjoint⟩ := nodup_keys_node.mp distinct
    rw [locate] at located
    rw [adjust]
    split at located
    case isTrue same =>
      cases located
      rw [if_pos same]
      exact List.perm_append_comm
    case isFalse different =>
      rw [if_neg different]
      refine List.Perm.cons _ ?_
      rcases Option.or_eq_some_iff.mp located with below | ⟨_, after⟩
      · have absent : k ∉ keys key next :=
          disjoint k (mem_keys_of_locate below)
        rw [adjust_of_notMem absent]
        exact perm_append_between (childrenIh childrenDistinct below) _
      · have absent : k ∉ keys key children :=
          fun inside => disjoint k inside (mem_keys_of_locate after)
        rw [adjust_of_notMem absent]
        change List.Perm ((_ ++ _) ++ _) ((_ ++ _) ++ _)
        rw [List.append_assoc, List.append_assoc]
        exact (nextIh nextDistinct after).append_left _

theorem paths_insertBelow {added : α} (distinct : (keys key forest).Nodup)
    (located : locate key k above forest = some place) :
    (paths above (adjust key k (fun label children next =>
            node label (insertTail added children) next)
          forest)).Perm
      ((added, place.label :: place.above) :: paths above forest) := by
  have changed : List.Perm (paths above (adjust key k (fun label children next =>
                node label (insertTail added children) next)
              forest) ++
          paths place.above (node place.label place.children place.next))
        _ :=
    paths_adjust distinct located
  rw [paths, paths, paths_insertTail] at changed
  refine (List.perm_append_right_iff _).mp (changed.trans ?_)
  rw [List.append_assoc, List.singleton_append, ← List.cons_append]
  exact (List.perm_middle.append_left _).trans List.perm_middle

theorem paths_remove (distinct : (keys key forest).Nodup)
    (located : locate key k above forest = some place) (childless : place.children = empty) :
    ((place.label, place.above) :: paths above (adjust key k (fun _ _ next => next) forest)).Perm
      (paths above forest) := by
  have changed : List.Perm
        (paths above (adjust key k (fun _ _ next => next) forest) ++ paths place.above
            (node place.label place.children place.next))
        _ :=
    paths_adjust distinct located
  rw [childless] at changed
  refine (List.perm_append_right_iff (paths place.above place.next)).mp ?_
  exact List.perm_middle.symm.trans changed

theorem mem_paths_of_locate (located : locate key k above forest = some place) :
    (place.label, place.above) ∈ paths above forest := by
  induction forest generalizing above with
  | empty => cases located
  | node label children next childrenIh nextIh =>
    rw [locate] at located
    rw [paths]
    split at located
    case isTrue =>
      cases located
      exact List.mem_cons_self
    case isFalse =>
      rcases Option.or_eq_some_iff.mp located with below | ⟨_, after⟩
      · exact List.mem_cons_of_mem _ (List.mem_append_left _ (childrenIh below))
      · exact List.mem_cons_of_mem _ (List.mem_append_right _ (nextIh after))

theorem locate_of_mem_paths (distinct : (keys key forest).Nodup) {label : α} {ancestors : List α}
    (member : (label, ancestors) ∈ paths above forest) :
    ∃ place, locate key (key label) above forest = some place ∧
        place.label = label ∧ place.above = ancestors := by
  have inKeys : ∀ {above : List α} {forest : OrderedForest α},
        (label, ancestors) ∈ paths above forest → key label ∈ keys key forest := by
    intro above forest member
    rw [keys, ← map_fst_paths above]
    exact List.mem_map_of_mem (List.mem_map_of_mem (f := Prod.fst) member)
  induction forest generalizing above with
  | empty => cases member
  | node other children next childrenIh nextIh =>
    obtain ⟨notBelow, notAfter, childrenDistinct, nextDistinct, disjoint⟩ :=
      nodup_keys_node.mp distinct
    rw [locate]
    rcases List.mem_cons.mp member with same | later
    · cases same
      exact ⟨_, if_pos rfl, rfl, rfl⟩
    · rcases List.mem_append.mp later with below | after
      · have different : key other ≠ key label :=
          fun same => notBelow (same ▸ inKeys below)
        obtain ⟨place, located, sameNode⟩ := childrenIh childrenDistinct below
        rw [if_neg different, located, Option.some_or]
        exact ⟨place, rfl, sameNode⟩
      · have different : key other ≠ key label :=
          fun same => notAfter (same ▸ inKeys after)
        have absent : key label ∉ keys key children :=
          fun inside => disjoint _ inside (inKeys after)
        obtain ⟨place, located, sameNode⟩ := nextIh nextDistinct after
        rw [if_neg different, locate_eq_none.mpr absent, Option.none_or, located]
        exact ⟨place, rfl, sameNode⟩

theorem keys_of_locate (located : locate key k above forest = some place) :
    (keys key (node place.label place.children place.next)).Sublist (keys key forest) := by
  induction forest generalizing above with
  | empty => cases located
  | node label children next childrenIh nextIh =>
    rw [locate] at located
    split at located
    case isTrue =>
      cases located
      exact List.Sublist.refl _
    case isFalse =>
      rw [keys_node label]
      rcases Option.or_eq_some_iff.mp located with below | ⟨_, after⟩
      · exact ((childrenIh below).trans (List.sublist_append_left _ _)).cons _
      · exact ((nextIh after).trans (List.sublist_append_right _ _)).cons _

theorem mem_keys_of_below {inner : κ} (located : locate key k above forest = some place)
    (below : inner ∈ keys key place.children) : inner ∈ keys key forest := by
  refine (keys_of_locate located).subset ?_
  rw [keys_node]
  exact List.mem_cons_of_mem _ (List.mem_append_left _ below)

theorem adjust_below {inner : κ} (distinct : (keys key forest).Nodup)
    (located : locate key k above forest = some place) (below : inner ∈ keys key place.children) :
    adjust key inner change forest = adjust key k (fun label children next =>
          node label (adjust key inner change children) next)
        forest := by
  induction forest generalizing above with
  | empty => rfl
  | node label children next childrenIh nextIh =>
    obtain ⟨notBelow, notAfter, childrenDistinct, nextDistinct, disjoint⟩ :=
      nodup_keys_node.mp distinct
    rw [locate] at located
    rw [adjust, adjust]
    split at located
    case isTrue same =>
      cases located
      have different : key label ≠ inner := fun equal => notBelow (equal ▸ below)
      rw [if_neg different, if_pos same, adjust_of_notMem (disjoint inner below)]
    case isFalse differs =>
      rw [if_neg differs]
      rcases Option.or_eq_some_iff.mp located with found | ⟨_, found⟩
      · have different : key label ≠ inner :=
          fun equal => notBelow (equal ▸ mem_keys_of_below found below)
        rw [if_neg different, childrenIh childrenDistinct found,
          adjust_of_notMem (disjoint inner (mem_keys_of_below found below)),
          adjust_of_notMem (disjoint k (mem_keys_of_locate found))]
      · have different : key label ≠ inner :=
          fun equal => notAfter (equal ▸ mem_keys_of_below found below)
        have absent : inner ∉ keys key children :=
          fun member => disjoint inner member (mem_keys_of_below found below)
        have absentToo : k ∉ keys key children :=
          fun member => disjoint k member (mem_keys_of_locate found)
        rw [if_neg different, nextIh nextDistinct found,
          adjust_of_notMem absent, adjust_of_notMem absentToo]

theorem adjust_adjust (first : OrderedForest α → OrderedForest α)
    (distinct : (keys key forest).Nodup) :
    adjust key k change (adjust key k (fun label children next => node label (first children) next)
          forest) =
      adjust key k (fun label children next => change label (first children) next)
        forest := by
  induction forest with
  | empty => rfl
  | node label children next childrenIh nextIh =>
    obtain ⟨_, _, childrenDistinct, nextDistinct, _⟩ := nodup_keys_node.mp distinct
    rw [adjust, adjust]
    split
    case isTrue same => rw [adjust, if_pos same]
    case isFalse different =>
      rw [adjust, if_neg different, childrenIh childrenDistinct,
        nextIh nextDistinct]

theorem adjust_congr {other : α → OrderedForest α → OrderedForest α → OrderedForest α}
    (distinct : (keys key forest).Nodup) (located : locate key k above forest = some place)
    (agree : change place.label place.children place.next =
        other place.label place.children place.next) :
    adjust key k change forest = adjust key k other forest := by
  induction forest generalizing above with
  | empty => rfl
  | node label children next childrenIh nextIh =>
    obtain ⟨_, _, childrenDistinct, nextDistinct, disjoint⟩ := nodup_keys_node.mp distinct
    rw [locate] at located
    rw [adjust, adjust]
    split at located
    case isTrue same =>
      cases located
      rw [if_pos same, if_pos same, agree]
    case isFalse different =>
      rw [if_neg different, if_neg different]
      rcases Option.or_eq_some_iff.mp located with below | ⟨_, after⟩
      · have absent := disjoint k (mem_keys_of_locate below)
        rw [childrenIh childrenDistinct below,
          adjust_of_notMem absent, adjust_of_notMem absent]
      · have absent : k ∉ keys key children :=
          fun inside => disjoint k inside (mem_keys_of_locate after)
        rw [nextIh nextDistinct after, adjust_of_notMem absent, adjust_of_notMem absent]

theorem locate_below {inner : κ} (distinct : (keys key forest).Nodup)
    (located : locate key k above forest = some place) (below : inner ∈ keys key place.children) :
    locate key inner above forest =
      locate key inner (place.label :: place.above) place.children := by
  induction forest generalizing above with
  | empty => cases located
  | node label children next childrenIh nextIh =>
    obtain ⟨notBelow, notAfter, childrenDistinct, nextDistinct, disjoint⟩ :=
      nodup_keys_node.mp distinct
    rw [locate] at located
    rw [locate]
    split at located
    case isTrue same =>
      cases located
      have different : key label ≠ inner := fun equal => notBelow (equal ▸ below)
      rw [if_neg different, locate_eq_none.mpr (disjoint inner below), Option.or_none]
    case isFalse =>
      rcases Option.or_eq_some_iff.mp located with found | ⟨_, found⟩
      · have different : key label ≠ inner :=
          fun equal => notBelow (equal ▸ mem_keys_of_below found below)
        rw [if_neg different, childrenIh childrenDistinct found,
          locate_eq_none.mpr (disjoint inner (mem_keys_of_below found below)),
          Option.or_none]
      · have different : key label ≠ inner :=
          fun equal => notAfter (equal ▸ mem_keys_of_below found below)
        have absent : inner ∉ keys key children :=
          fun member => disjoint inner member (mem_keys_of_below found below)
        rw [if_neg different, locate_eq_none.mpr absent, Option.none_or,
          nextIh nextDistinct found]

theorem locate_adjust_children (first : OrderedForest α → OrderedForest α)
    (located : locate key k above forest = some place) :
    ∃ next, locate key k above (adjust key k
            (fun label children next => node label (first children) next)
            forest) =
        some ⟨place.above, place.label, first place.children, next⟩ := by
  induction forest generalizing above with
  | empty => cases located
  | node label children next childrenIh nextIh =>
    rw [locate] at located
    rw [adjust]
    split at located
    case isTrue same =>
      cases located
      rw [if_pos same, locate, if_pos same]
      exact ⟨next, rfl⟩
    case isFalse different =>
      rw [if_neg different, locate, if_neg different]
      rcases Option.or_eq_some_iff.mp located with below | ⟨absent, after⟩
      · obtain ⟨later, found⟩ := childrenIh below
        exact ⟨later, by rw [found, Option.some_or]⟩
      · obtain ⟨later, found⟩ := nextIh after
        have unchanged : adjust key k (fun label children next =>
                  node label (first children) next)
                children =
              children :=
          adjust_of_notMem (locate_eq_none.mp absent)
        exact ⟨later, by rw [unchanged, absent, Option.none_or, found]⟩

end Keyed

end OrderedForest

end Agar.Lib
