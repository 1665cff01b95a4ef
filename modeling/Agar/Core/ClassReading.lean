import Agar.Core.ClassNotation

namespace Agar.Core

open Agar.Lib

/-!
# The reading of specifications

What a text says as a specification, whatever it holds: the groups of names in
parentheses, and the libraries behind an `@`.  `AG_ParseClassSpec` accepts the
texts that have groups of registered namespaces, with room for their names.
-/

/-- A name, and what is in the parentheses behind it -/
structure ReadGroup where
  ns : List UInt8
  inner : List UInt8
  deriving DecidableEq

/-- Where a text is read: the name in front, and what the parentheses hold -/
structure SpecPosition where
  name : List UInt8
  begun : Bool
  inner : Option (List UInt8)

namespace SpecPosition

/-- In front of a text -/
def start : SpecPosition where
  name := []
  begun := false
  inner := none

/-- Behind a character outside parentheses -/
def behind (position : SpecPosition) (c : UInt8) : SpecPosition :=
  if c = colon then position else { position with name := position.name ++ [c], begun := true }

/-- Behind a group -/
def closed (position : SpecPosition) : SpecPosition where
  name := []
  begun := decide (position.name ≠ [])
  inner := none

end SpecPosition

/-- The groups of a text, unless its parentheses are misplaced -/
def groupsFrom : SpecPosition → List UInt8 → Option (List ReadGroup)
  | _, [] => some []
  | position, c :: rest =>
    if c = openParen ∧ rest ≠ [] then
      if position.inner.isSome ∨ position.begun = false then none
      else groupsFrom { position with inner := some [] } rest
    else
      match position.inner with
      | none => if c = closeParen then none else groupsFrom (position.behind c) rest
      | some inner =>
        if c = closeParen then
          if inner = [] then groupsFrom { position with inner := none } rest
          else (groupsFrom position.closed rest).map (⟨position.name, inner⟩ :: ·)
        else groupsFrom { position with inner := some (inner ++ [c]) } rest

/-- The groups of a text -/
def groupsOf (s : List UInt8) : Option (List ReadGroup) := groupsFrom .start s

/-- What is behind the last `@` outside parentheses that is not the end -/
def libsFrom : Bool → List UInt8 → List UInt8
  | _, [] => []
  | inside, c :: rest =>
    if c = openParen ∧ rest ≠ [] then libsFrom true rest
    else if c = closeParen then libsFrom false rest
    else if inside = false ∧ c = atSign then
      if libsFrom false rest = [] then rest else libsFrom false rest
    else libsFrom inside rest

/-- The libraries of a text -/
def libsOf (s : List UInt8) : List UInt8 := libsFrom false s

/-- The full names of a group -/
def ReadGroup.fullNames (namespaceTbl : List ClassNamespace)
    (group : ReadGroup) : List (List UInt8) :=
  match getNamespace namespaceTbl group.ns with
  | some entry => (components group.inner).map (entry.pfx ++ ·)
  | none => []

/-- The full names of groups -/
def fullNamesOf (namespaceTbl : List ClassNamespace)
    (groups : List ReadGroup) : List (List UInt8) :=
  groups.flatMap (·.fullNames namespaceTbl)

/-- The namespaces of groups are registered. -/
def AllRegistered (namespaceTbl : List ClassNamespace) (groups : List ReadGroup) : Prop :=
  ∀ group ∈ groups, (getNamespace namespaceTbl group.ns).isSome

/-- The text that stands for the classes: full names, or the text itself -/
def expansion (namespaceTbl : List ClassNamespace) (s : List UInt8) : List UInt8 :=
  match groupsOf s with
  | some (group :: groups) => joined (fullNamesOf namespaceTbl (group :: groups))
  | _ => s

/-- The hierarchy of a text -/
def hierarchyOf (namespaceTbl : List ClassNamespace) (s : List UInt8) : List UInt8 :=
  withoutLibs (expansion namespaceTbl s)

/-! ## Libraries -/

theorem libsFrom_suffix {inside : Bool} {s : List UInt8} (some : libsFrom inside s ≠ []) :
    ∃ front, s = front ++ atSign :: libsFrom inside s := by
  induction s generalizing inside with
  | nil => exact absurd rfl some
  | cons c rest ih =>
    have later {inside' : Bool} (same : libsFrom inside (c :: rest) = libsFrom inside' rest) :
        ∃ front, c :: rest = front ++ atSign :: libsFrom inside (c :: rest) := by
      rw [same] at some ⊢
      obtain ⟨front, shape⟩ := ih some
      exact ⟨c :: front, by rw [List.cons_append, ← shape]⟩
    by_cases opens : c = openParen ∧ rest ≠ []
    · exact later (by rw [libsFrom, if_pos opens])
    · by_cases closes : c = closeParen
      · exact later (by rw [libsFrom, if_neg opens, if_pos closes])
      · by_cases isAt : inside = false ∧ c = atSign
        · by_cases last : libsFrom false rest = []
          · refine ⟨[], ?_⟩
            rw [libsFrom, if_neg opens, if_neg closes, if_pos isAt, if_pos last, isAt.2]
            rfl
          · exact later (by
              rw [libsFrom, if_neg opens, if_neg closes, if_pos isAt, if_neg last])
        · exact later (by
            rw [libsFrom, if_neg opens, if_neg closes, if_neg isAt])

theorem libsFrom_eq_at {inside : Bool} {s more : List UInt8}
    (starts : libsFrom inside s = atSign :: more) : more = [] := by
  induction s generalizing inside with
  | nil => cases starts
  | cons c rest ih =>
    rw [libsFrom] at starts
    split at starts
    · exact ih starts
    · split at starts
      · exact ih starts
      · split at starts
        · split at starts
          case isTrue last =>
            subst starts
            rw [libsFrom, if_neg (fun opens => absurd opens.1 (by decide)),
              if_neg (by decide), if_pos ⟨rfl, rfl⟩] at last
            split at last
            · exact last
            · contradiction
          case isFalse => exact ih starts
        · exact ih starts

/-! ## Scanning -/

section Scanning

variable {namespaceTbl : List ClassNamespace} {position : SpecPosition} {scan : SpecScan}

/-- The loop is where the text is read. -/
structure SpecPosition.Of (position : SpecPosition) (scan : SpecScan) : Prop where
  name : position.name = scan.nsName
  begun : position.begun = false ↔ scan.nsFirst = 0
  inner : position.inner = scan.pOpen
  noNul : 0 ∉ scan.nsName
  first : scan.nsName ≠ [] → scan.nsFirst ≠ 0

theorem SpecPosition.start_of : SpecPosition.start.Of .initial where
  name := rfl
  begun := iff_of_true rfl rfl
  inner := rfl
  noNul := List.not_mem_nil
  first named := absurd rfl named

theorem SpecPosition.Of.withInner (of : position.Of scan) (inner : Option (List UInt8)) :
    SpecPosition.Of { position with inner := inner }
      { scan with pOpen := inner } where
  name := of.name
  begun := of.begun
  inner := rfl
  noNul := of.noNul
  first := of.first

theorem SpecPosition.Of.behind (of : position.Of scan) (outside : scan.pOpen = none) {c : UInt8}
    (noNul : c ≠ 0) (rest : List UInt8) : (position.behind c).Of (scan.store c rest) := by
  rw [SpecPosition.behind, SpecScan.store, outside]
  by_cases isColon : c = colon
  · rw [if_pos isColon]
    refine ⟨?_, ?_, of.inner.trans outside, ?_, ?_⟩
    · simp only [if_pos isColon, of.name]
    · simp only [isColon, ne_eq, not_true_eq_false, false_and, if_false]
      exact of.begun
    · simp only [if_pos isColon]
      exact of.noNul
    · simp only [isColon, ne_eq, not_true_eq_false, false_and, if_false, if_true]
      exact of.first
  · rw [if_neg isColon]
    have first : (if c ≠ colon ∧ scan.nsName = [] then c else scan.nsFirst) ≠ 0 := by
      by_cases named : scan.nsName = []
      · rw [if_pos ⟨isColon, named⟩]
        exact noNul
      · rw [if_neg fun given => named given.2]
        exact of.first named
    refine ⟨?_, ?_, of.inner.trans outside, ?_, fun _ => first⟩
    · simp only [if_neg isColon, of.name]
    · exact iff_of_false (by simp) first
    · simp only [if_neg isColon, List.mem_append, List.mem_singleton, not_or]
      exact ⟨of.noNul, Ne.symm noNul⟩

theorem SpecPosition.Of.closed (of : position.Of scan) (hier : List UInt8) : position.closed.Of
      { scan.endName with hier := hier, pOpen := none } where
  name := rfl
  begun := by
    simp only [SpecPosition.closed, SpecScan.endName, of.name, decide_eq_false_iff_not, not_not]
    cases named : scan.nsName with
    | nil => exact iff_of_true rfl rfl
    | cons first rest =>
      refine iff_of_false (List.cons_ne_nil first rest) fun isNul => ?_
      apply of.noNul
      rw [named]
      exact List.mem_cons.mpr (.inl isNul.symm)
  inner := rfl
  noNul := List.not_mem_nil
  first named := absurd rfl named

/-- What the names of groups are appended as -/
def appendedGroups (namespaceTbl : List ClassNamespace) (groups : List ReadGroup) : List UInt8 :=
  (fullNamesOf namespaceTbl groups).flatMap (· ++ [colon])

theorem appendedGroups_cons {group : ReadGroup} {entry : ClassNamespace}
    (registered : getNamespace namespaceTbl group.ns = some entry) (groups : List ReadGroup) :
    appendedGroups namespaceTbl (group :: groups) =
      appendedNames entry.pfx (components group.inner) ++ appendedGroups namespaceTbl groups := by
  rw [appendedGroups, fullNamesOf, List.flatMap_cons, List.flatMap_append,
    ReadGroup.fullNames, registered, appendedNames, List.flatMap_map]
  rfl

/-- The libraries after a text: those it names, or those from before -/
def libsAfter (libs : List UInt8) (named : List UInt8) : List UInt8 :=
  if named = [] then libs else (CString.strlcpy named : CString objectLibsMax).bytes

theorem libsAfter_cons (libs : CString objectLibsMax) (c : UInt8) (rest : List UInt8) : libsAfter
        (if c = atSign ∧ rest ≠ [] then
          (CString.strlcpy rest : CString objectLibsMax) else libs).bytes
        (libsFrom false rest) =
      libsAfter libs.bytes (if false = false ∧ c = atSign then
          if libsFrom false rest = [] then rest else libsFrom false rest
        else libsFrom false rest) := by
  by_cases isAt : c = atSign
  · have outside : false = false ∧ c = atSign :=
      ⟨rfl, isAt⟩
    rw [if_pos outside]
    by_cases later : libsFrom false rest = []
    · rw [if_pos later, later]
      by_cases last : rest = []
      · rw [if_neg fun given => given.2 last, last]
      · rw [if_pos ⟨isAt, last⟩, libsAfter, libsAfter, if_pos rfl, if_neg last]
    · rw [if_neg later, libsAfter, libsAfter, if_neg later, if_neg later]
  · rw [if_neg fun given => isAt given.1, if_neg fun given => isAt given.2]

theorem scanSpec_reads {s : List UInt8} (of : position.Of scan) (noNul : 0 ∉ s)
    (room : (scan.pOpen.getD []).length + s.length < objectHierMax) {scanned : SpecScan}
    (accepted : scanSpec namespaceTbl s scan = .ok (some scanned)) :
    ∃ groups, groupsFrom position s = some groups ∧ AllRegistered namespaceTbl groups ∧
        scanned.hier = scan.hier ++ appendedGroups namespaceTbl groups ∧
        scanned.libs.bytes = libsAfter scan.libs.bytes (libsFrom scan.pOpen.isSome s) := by
  induction s generalizing position scan with
  | nil =>
    cases accepted
    refine ⟨[], rfl, fun _ member => absurd member List.not_mem_nil, ?_, rfl⟩
    exact (List.append_nil _).symm
  | cons c rest ih =>
    rw [List.mem_cons, not_or] at noNul
    rw [List.length_cons] at room
    rw [scanSpec] at accepted
    rw [groupsFrom, libsFrom, of.inner]
    by_cases opens : c = openParen ∧ rest ≠ []
    · rw [if_pos opens] at accepted ⊢
      rw [if_pos opens]
      split at accepted
      case isTrue => cases accepted
      case isFalse allowed =>
        rw [if_neg (by rw [of.begun]; exact allowed)]
        exact ih (of.withInner (some [])) noNul.2
          (by simp only [Option.getD_some, List.length_nil]; omega) accepted
    · rw [if_neg opens] at accepted ⊢
      rw [if_neg opens]
      by_cases closes : c = closeParen
      · rw [if_pos closes] at accepted ⊢
        cases isInner : scan.pOpen with
        | none =>
          rw [isInner] at accepted
          rw [if_neg (Option.some_ne_none _).symm] at accepted
          simp only at accepted
          split at accepted <;> cases accepted
        | some inner =>
          simp only [if_pos closes]
          rw [isInner] at accepted room
          by_cases empty : inner = []
          · subst empty
            rw [if_pos rfl] at accepted ⊢
            exact ih (of.withInner none) noNul.2
              (by simp only [Option.getD_none, List.length_nil]; omega)
              accepted
          · rw [if_neg (by simpa using empty)] at accepted
            rw [if_neg empty]
            rw [Option.getD_some] at room
            simp only [SpecScan.store, isInner] at accepted
            split at accepted
            case h_1 => cases accepted
            case h_2 entry registered =>
              have whole : inner.take (objectHierMax - 1) = inner :=
                List.take_of_length_le (by omega)
              rw [whole] at accepted
              rcases appendNames_eq entry.pfx (components inner) (SpecScan.endName
                    { scan with pOpen := some (inner ++ [c]) }) with
                appended | ⟨stuck, _⟩
              · rw [appended, ok_bind] at accepted
                obtain ⟨groups, read, allRegistered, hier, libs⟩ :=
                  ih (of.closed _) noNul.2 (by simp only [Option.getD_none, List.length_nil]; omega)
                    accepted
                refine ⟨⟨position.name, inner⟩ :: groups, ?_, ?_, ?_, libs⟩
                · rw [read]
                  rfl
                · rw [AllRegistered, List.forall_mem_cons]
                  exact ⟨by rw [of.name, registered]; rfl, allRegistered⟩
                · rw [hier, appendedGroups_cons (of.name ▸ registered), ← List.append_assoc]
                  rfl
              · rw [stuck] at accepted
                cases accepted
      · rw [if_neg closes] at accepted ⊢
        cases isInner : scan.pOpen with
        | some inner =>
          rw [isInner, Option.getD_some] at room
          simp only [if_neg closes, Option.isSome_some, Bool.true_eq_false, false_and, if_false]
          simp only [SpecScan.store, isInner] at accepted
          obtain ⟨groups, read, rest⟩ :=
            ih (of.withInner (some (inner ++ [c]))) noNul.2 (by
                simp only [Option.getD_some, List.length_append, List.length_singleton]
                omega)
              accepted
          exact ⟨groups, read, rest⟩
        | none =>
          have outside := of.behind isInner (Ne.symm noNul.1) rest
          have stays : (scan.store c rest).pOpen = none := by simp only [SpecScan.store, isInner]
          have hier : (scan.store c rest).hier = scan.hier := by simp only [SpecScan.store, isInner]
          have libs : (scan.store c rest).libs = if c = atSign ∧ rest ≠ [] then .strlcpy rest
                else scan.libs := by
            simp only [SpecScan.store, isInner]
          obtain ⟨groups, read, allRegistered, sameHier, sameLibs⟩ :=
            ih outside noNul.2 (by
                rw [stays, Option.getD_none, List.length_nil]
                omega)
              accepted
          simp only [if_neg closes]
          refine ⟨groups, read, allRegistered, hier ▸ sameHier, ?_⟩
          rw [sameLibs, stays, libs, Option.isSome_none]
          exact libsAfter_cons scan.libs c rest

theorem scanSpec_of_groups {s : List UInt8} (of : position.Of scan) (noNul : 0 ∉ s)
    (room : (scan.pOpen.getD []).length + s.length < objectHierMax) {groups : List ReadGroup}
    (read : groupsFrom position s = some groups) (allRegistered : AllRegistered namespaceTbl groups)
    (fits : (scan.hier ++ appendedGroups namespaceTbl groups).length ≤ objectHierMax) :
    ∃ scanned, scanSpec namespaceTbl s scan = .ok (some scanned) := by
  induction s generalizing position scan groups with
  | nil => exact ⟨scan, rfl⟩
  | cons c rest ih =>
    rw [List.mem_cons, not_or] at noNul
    rw [List.length_cons] at room
    rw [groupsFrom, of.inner] at read
    rw [scanSpec]
    by_cases opens : c = openParen ∧ rest ≠ []
    · rw [if_pos opens] at read ⊢
      split at read
      case isTrue => cases read
      case isFalse allowed =>
        rw [of.begun] at allowed
        rw [if_neg allowed]
        exact ih (of.withInner (some [])) noNul.2
          (by simp only [Option.getD_some, List.length_nil]; omega) read
          allRegistered fits
    · rw [if_neg opens] at read ⊢
      cases isInner : scan.pOpen with
      | none =>
        rw [isInner] at read
        by_cases closes : c = closeParen
        · simp only [if_pos closes] at read
          cases read
        · simp only [if_neg closes] at read ⊢
          have stays : (scan.store c rest).pOpen = none := by simp only [SpecScan.store, isInner]
          have hier : (scan.store c rest).hier = scan.hier := by simp only [SpecScan.store, isInner]
          exact ih (of.behind isInner (Ne.symm noNul.1) rest) noNul.2 (by
              rw [stays, Option.getD_none, List.length_nil]
              omega)
            read allRegistered (hier ▸ fits)
      | some inner =>
        rw [isInner] at read room
        rw [Option.getD_some] at room
        by_cases closes : c = closeParen
        · simp only [if_pos closes] at read ⊢
          by_cases empty : inner = []
          · subst empty
            rw [if_pos rfl] at read ⊢
            exact ih (of.withInner none) noNul.2
              (by simp only [Option.getD_none, List.length_nil]; omega)
              read allRegistered fits
          · rw [if_neg empty] at read
            rw [if_neg (by simpa using empty)]
            obtain ⟨later, readLater, rfl⟩ := Option.map_eq_some_iff.mp read
            rw [AllRegistered, List.forall_mem_cons] at allRegistered
            obtain ⟨known, others⟩ := allRegistered
            obtain ⟨entry, registered⟩ := Option.isSome_iff_exists.mp known
            rw [appendedGroups_cons registered, ← List.append_assoc] at fits
            have whole : inner.take (objectHierMax - 1) = inner := List.take_of_length_le (by omega)
            rw [of.name] at registered
            simp only [SpecScan.store, isInner, registered, whole]
            rcases appendNames_eq entry.pfx (components inner) (SpecScan.endName
                  { scan with pOpen := some (inner ++ [c]) }) with
              appended | ⟨_, long⟩
            · rw [appended, ok_bind]
              exact ih (of.closed _) noNul.2
                (by simp only [Option.getD_none, List.length_nil]; omega)
                readLater others fits
            · refine absurd long (Nat.not_lt_of_le ?_)
              rw [List.length_append] at fits
              exact (Nat.le_add_right _ _).trans fits
        · simp only [if_neg closes] at read ⊢
          have stored : scan.store c rest = { scan with pOpen := some (inner ++ [c]) } := by
            simp only [SpecScan.store, isInner]
          rw [stored]
          exact ih (of.withInner (some (inner ++ [c]))) noNul.2 (by
              simp only [Option.getD_some, List.length_append, List.length_singleton]
              omega)
            read allRegistered fits

end Scanning

/-! ## Accepted specifications -/

section Accepting

variable {namespaceTbl : List ClassNamespace} {s : List UInt8}

theorem groupsFrom_inner {position : SpecPosition} {groups : List ReadGroup}
    (read : groupsFrom position s = some groups) {b : UInt8} (notInner : b ∉ position.inner.getD [])
    (absent : b ∉ s) : ∀ group ∈ groups, b ∉ group.inner := by
  induction s generalizing position groups with
  | nil =>
    cases read
    exact fun _ member => absurd member List.not_mem_nil
  | cons c rest ih =>
    rw [List.mem_cons, not_or] at absent
    rw [groupsFrom] at read
    split at read
    · split at read
      · cases read
      · exact ih read List.not_mem_nil absent.2
    · split at read
      case h_1 outside =>
        split at read
        · cases read
        · refine ih read ?_ absent.2
          have stays : (position.behind c).inner = none := by
            rw [SpecPosition.behind]
            split <;> exact outside
          rw [stays]
          exact List.not_mem_nil
      case h_2 inner inside =>
        rw [inside] at notInner
        split at read
        · split at read
          · exact ih read List.not_mem_nil absent.2
          · obtain ⟨later, readLater, rfl⟩ := Option.map_eq_some_iff.mp read
            rw [List.forall_mem_cons]
            exact ⟨notInner, ih readLater List.not_mem_nil absent.2⟩
        · refine ih read ?_ absent.2
          rw [Option.getD_some, List.mem_append, List.mem_singleton, not_or]
          exact ⟨notInner, absent.1⟩

theorem mem_joined {parts : List Component} {part : Component} (member : part ∈ parts) {b : UInt8}
    (inside : b ∈ part) : b ∈ joined parts := by
  induction parts with
  | nil => cases member
  | cons first rest ih =>
    by_cases last : rest = []
    · subst last
      rw [List.mem_singleton] at member
      rw [joined_singleton, ← member]
      exact inside
    · rw [joined_cons first last, List.mem_append, List.mem_cons]
      rcases List.mem_cons.mp member with rfl | later
      · exact .inl inside
      · exact .inr (.inr (ih later))

theorem fullNamesOf_ne_nil {group : ReadGroup} {groups : List ReadGroup}
    (allRegistered : AllRegistered namespaceTbl (group :: groups)) :
    fullNamesOf namespaceTbl (group :: groups) ≠ [] := by
  obtain ⟨entry, registered⟩ := Option.isSome_iff_exists.mp (allRegistered group List.mem_cons_self)
  rw [fullNamesOf, List.flatMap_cons, ReadGroup.fullNames, registered]
  refine List.append_ne_nil_of_left_ne_nil ?_ _
  simpa using components_ne_nil group.inner

theorem fullNamesOf_noNul (strings : ∀ entry ∈ namespaceTbl, 0 ∉ entry.pfx)
    {groups : List ReadGroup} (noNul : ∀ group ∈ groups, 0 ∉ group.inner) {name : List UInt8}
    (member : name ∈ fullNamesOf namespaceTbl groups) : 0 ∉ name := by
  obtain ⟨group, inGroups, member⟩ := List.mem_flatMap.mp member
  rw [ReadGroup.fullNames] at member
  split at member
  case h_1 entry registered =>
    obtain ⟨part, inParts, rfl⟩ := List.mem_map.mp member
    rw [List.mem_append, not_or]
    refine ⟨strings entry (List.mem_of_find?_eq_some registered), ?_⟩
    intro isNul
    apply noNul group inGroups
    rw [← joined_components group.inner]
    exact mem_joined inParts isNul
  case h_2 => cases member

theorem expansion_noNul (strings : ∀ entry ∈ namespaceTbl, 0 ∉ entry.pfx) (noNul : 0 ∉ s) :
    0 ∉ expansion namespaceTbl s := by
  rw [expansion]
  split
  case h_1 group groups read =>
    exact not_mem_joined (by decide) fun _ member =>
      fullNamesOf_noNul strings (groupsFrom_inner read List.not_mem_nil noNul) member
  case h_2 => exact noNul

theorem named_eq_expansion {groups : List ReadGroup} (read : groupsOf s = some groups)
    (allRegistered : AllRegistered namespaceTbl groups) :
    (if appendedGroups namespaceTbl groups = [] then s
      else if (appendedGroups namespaceTbl groups).getLast? = some colon then
        (appendedGroups namespaceTbl groups).dropLast
      else appendedGroups namespaceTbl groups) =
      expansion namespaceTbl s := by
  rw [expansion, read]
  cases groups with
  | nil => exact if_pos rfl
  | cons group groups =>
    rw [appendedGroups, flatMap_colon (fullNamesOf_ne_nil allRegistered),
      if_neg (List.concat_ne_nil _ _), List.getLast?_concat, if_pos rfl,
      List.dropLast_concat]

theorem length_expansion_lt (short : s.length < objectHierMax) {groups : List ReadGroup}
    (read : groupsOf s = some groups) (allRegistered : AllRegistered namespaceTbl groups)
    (room : (appendedGroups namespaceTbl groups).length < objectHierMax) :
    (expansion namespaceTbl s).length < objectHierMax := by
  rw [expansion, read]
  cases groups with
  | nil => exact short
  | cons group groups =>
    rw [appendedGroups, flatMap_colon (fullNamesOf_ne_nil allRegistered),
      List.length_append] at room
    exact Nat.lt_of_le_of_lt (Nat.le_add_right _ _) room

theorem libsAfter_nil (named : List UInt8) : libsAfter (SpecScan.initial).libs.bytes named =
      (CString.strlcpy named : CString objectLibsMax).bytes := by
  by_cases nothing : named = []
  · rw [libsAfter, if_pos nothing, nothing]
    rfl
  · rw [libsAfter, if_neg nothing]

/-- A text that can be accepted: what it says fits in the fields. -/
structure Readable (namespaceTbl : List ClassNamespace) (s : List UInt8) : Prop where
  short : s.length < objectHierMax
  groups : ∃ groups, groupsOf s = some groups ∧ AllRegistered namespaceTbl groups ∧
        (appendedGroups namespaceTbl groups).length < objectHierMax

theorem parseClassSpec_reads (strings : ∀ entry ∈ namespaceTbl, 0 ∉ entry.pfx) (noNul : 0 ∉ s)
    {cs : ObjectClassSpec} (accepted : parseClassSpec namespaceTbl s = .ok (some cs)) :
    Readable namespaceTbl s ∧ cs.hier.bytes = hierarchyOf namespaceTbl s ∧
      cs.libs = .strlcpy (libsOf s) ∧
      cs.spec = (if cs.libs.bytes = [] then cs.hier else cs.hier.strlcat cs.libs.bytes) ∧
      cs.name = .strlcpy (withoutLibs
            (CString.strlcpy (lastName cs.hier.bytes) : CString objectNameMax).bytes) := by
  rw [parseClassSpec] at accepted
  split at accepted
  case isTrue => cases accepted
  case isFalse short =>
    obtain ⟨result, scans, accepted⟩ := bind_eq_ok.mp accepted
    cases result with
    | none => cases accepted
    | some scanned =>
      obtain ⟨filled, fills, same⟩ := bind_eq_ok.mp accepted
      cases same
      obtain ⟨groups, read, allRegistered, hier, libs⟩ :=
        scanSpec_reads SpecPosition.start_of noNul (by
            change 0 + _ < _
            omega)
          scans
      rw [SpecScan.initial, List.nil_append] at hier
      have whole := named_eq_expansion read allRegistered
      unfold fillSpec at fills
      rw [hier] at fills
      split at fills
      case isTrue => cases fills
      case isFalse room =>
        have fits :=
          length_expansion_lt (Nat.lt_of_not_le short) read allRegistered (Nat.lt_of_not_le room)
        have front := withoutLibs_prefixOf (expansion namespaceTbl s)
        cases fills
        rw [whole]
        refine ⟨⟨Nat.lt_of_not_le short, groups, read, allRegistered,
          Nat.lt_of_not_le room⟩, ?_, ?_, rfl, rfl⟩
        · exact CString.strlcpy_bytes_of_fits
            (fun nul => expansion_noNul strings noNul (front.subset nul))
            (Nat.lt_of_le_of_lt front.length_le fits)
        · refine CString.ext (libs.trans ?_)
          exact libsAfter_nil (libsOf s)

theorem parseClassSpec_of_readable (noNul : 0 ∉ s) (readable : Readable namespaceTbl s) :
    ∃ cs, parseClassSpec namespaceTbl s = .ok (some cs) := by
  obtain ⟨groups, read, allRegistered, room⟩ := readable.groups
  obtain ⟨scanned, scans⟩ :=
    @scanSpec_of_groups namespaceTbl _ .initial s SpecPosition.start_of noNul (by
        change 0 + _ < _
        exact (Nat.zero_add _).symm ▸ readable.short)
      groups read allRegistered room.le
  obtain ⟨sameGroups, readToo, _, hier, _⟩ :=
    scanSpec_reads SpecPosition.start_of noNul (by
        change 0 + _ < _
        exact (Nat.zero_add _).symm ▸ readable.short)
      scans
  rw [groupsOf] at read
  rw [read] at readToo
  cases readToo
  have filled : ∃ cs, fillSpec s scanned = .ok cs := by
    have few : ¬ scanned.hier.length ≥ objectHierMax := by
      rw [hier]
      exact Nat.not_le_of_lt room
    unfold fillSpec
    rw [if_neg few]
    exact ⟨_, rfl⟩
  obtain ⟨cs, fills⟩ := filled
  refine ⟨cs, ?_⟩
  rw [parseClassSpec, if_neg (Nat.not_le_of_lt readable.short), scans, ok_bind]
  simp only [fills, ok_bind]
  rfl

end Accepting

end Agar.Core
