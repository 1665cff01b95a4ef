import Agar.Core.ClassInheritance

namespace Agar.Core

open Agar.Lib

/-!
# The notations of class specifications

A specification names classes in order of inheritance, either each by its full
name or in groups of a namespace, whose prefix their full names begin with,
and may name libraries behind an `@`.  `AG_ParseClassSpec` writes the full
names to a field with room for 255 characters, however long the prefixes are.
-/

/-- A name without characters of the notation -/
structure PlainName where
  bytes : List UInt8
  nonempty : bytes ≠ []
  plain : ∀ c ∈ [0, colon, atSign, openParen, closeParen], c ∉ bytes

/-- `Namespace(Class:Class...)` -/
structure NamespaceGroup where
  ns : PlainName
  names : List PlainName
  nonempty : names ≠ []

/-- The classes of a specification, in one of the notations -/
inductive ClassNotation where
  | inheritance (names : List PlainName) (nonempty : names ≠ [])
  | namespaces (groups : List NamespaceGroup) (nonempty : groups ≠ [])

/-- Library names, separated by commas -/
structure LibraryNames where
  bytes : List UInt8
  plain : ∀ c ∈ [0, atSign, openParen, closeParen], c ∉ bytes

/-- A specification, with libraries or without -/
structure NotatedSpec where
  classes : ClassNotation
  libs : Option LibraryNames

/-! ## Texts -/

/-- The text of a group -/
def NamespaceGroup.text (group : NamespaceGroup) : List UInt8 :=
  group.ns.bytes ++ openParen :: (joined (group.names.map (·.bytes)) ++ [closeParen])

/-- The text of the classes -/
def ClassNotation.text : ClassNotation → List UInt8
  | inheritance names _ => joined (names.map (·.bytes))
  | namespaces groups _ => joined (groups.map (·.text))

/-- The text behind the classes -/
def libsText : Option LibraryNames → List UInt8
  | none => []
  | some libs => atSign :: libs.bytes

/-- The names of the libraries -/
def libsNamed : Option LibraryNames → List UInt8
  | none => []
  | some libs => libs.bytes

/-- The text of a specification -/
def NotatedSpec.text (spec : NotatedSpec) : List UInt8 := spec.classes.text ++ libsText spec.libs

/-! ## Meanings -/

/-- The prefix of a registered namespace -/
def prefixOf (namespaceTbl : List ClassNamespace) (ns : PlainName) : List UInt8 :=
  match getNamespace namespaceTbl ns.bytes with
  | some entry => entry.pfx
  | none => []

/-- The full names of a group -/
def NamespaceGroup.fullNames (namespaceTbl : List ClassNamespace)
    (group : NamespaceGroup) : List (List UInt8) :=
  group.names.map fun name => prefixOf namespaceTbl group.ns ++ name.bytes

/-- The full names of the classes -/
def ClassNotation.fullNames (namespaceTbl : List ClassNamespace) : ClassNotation → List (List UInt8)
  | inheritance names _ => names.map (·.bytes)
  | namespaces groups _ => groups.flatMap (·.fullNames namespaceTbl)

/-- The namespaces of the groups are registered, with strings as prefixes. -/
def ClassNotation.Registered (namespaceTbl : List ClassNamespace) : ClassNotation → Prop
  | inheritance _ _ => True
  | namespaces groups _ =>
    ∀ group ∈ groups, ∃ entry, getNamespace namespaceTbl group.ns.bytes = some entry ∧ 0 ∉ entry.pfx

namespace NotatedSpec

variable (namespaceTbl : List ClassNamespace) (spec : NotatedSpec)

/-- The hierarchy that a specification stands for -/
def hierarchy : List UInt8 := joined (spec.classes.fullNames namespaceTbl)

/-- The class that a specification is of -/
def lastClass : List UInt8 := (spec.classes.fullNames namespaceTbl).getLastD []

/--
Parsing fails, or gives the hierarchy, the libraries and the last class of the
specification.
-/
def ParsedExactly : Prop :=
  ∃ result, parseClassSpec namespaceTbl spec.text = .ok result ∧ ∀ cs, result = some cs →
      cs.hier.bytes = spec.hierarchy namespaceTbl ∧ cs.libs.bytes = libsNamed spec.libs ∧
        cs.name.bytes = spec.lastClass namespaceTbl

/--
The fields have room for what they are to hold: a hierarchy of groups for one
character more.  No prefix has an `@` in it, and that of the last class has
no colon.
-/
structure Fits : Prop where
  libs : (libsNamed spec.libs).length < objectLibsMax
  name : (spec.lastClass namespaceTbl).length < objectNameMax
  hierarchy : ∀ groups nonempty, spec.classes = .namespaces groups nonempty →
      (spec.hierarchy namespaceTbl).length + 1 < objectHierMax
  noAt : atSign ∉ spec.hierarchy namespaceTbl
  noColon : colon ∉ spec.lastClass namespaceTbl

end NotatedSpec

/-! ## Joined names -/

@[simp] theorem joined_singleton (name : Component) : joined [name] = name := by
  simp [joined, List.intercalate]

theorem not_mem_joined {c : UInt8} (notColon : c ≠ colon) {parts : List Component}
    (absent : ∀ part ∈ parts, c ∉ part) : c ∉ joined parts := by
  induction parts with
  | nil => exact List.not_mem_nil
  | cons part rest ih =>
    rw [List.forall_mem_cons] at absent
    by_cases last : rest = []
    · rw [last, joined_singleton]
      exact absent.1
    · rw [joined_cons part last, List.mem_append, List.mem_cons]
      rintro (here | isColon | later)
      · exact absent.1 here
      · exact notColon isColon
      · exact ih absent.2 later

theorem joined_ne_nil {parts : List Component} (nonempty : parts ≠ [])
    (names : ∀ part ∈ parts, part ≠ []) : joined parts ≠ [] := by
  obtain ⟨part, rest, rfl⟩ := List.exists_cons_of_ne_nil nonempty
  by_cases last : rest = []
  · rw [last, joined_singleton]
    exact names part List.mem_cons_self
  · rw [joined_cons part last]
    exact List.append_ne_nil_of_right_ne_nil part (List.cons_ne_nil _ _)

theorem flatMap_colon {parts : List Component} (nonempty : parts ≠ []) :
    parts.flatMap (fun part => part ++ [colon]) = joined parts ++ [colon] := by
  induction parts with
  | nil => exact absurd rfl nonempty
  | cons part rest ih =>
    by_cases last : rest = []
    · rw [last, joined_singleton, List.flatMap_singleton]
    · rw [List.flatMap_cons, ih last, joined_cons part last,
        List.append_assoc, List.append_assoc, List.cons_append]
      rfl

/-! ## Scanning -/

section Scanning

variable {namespaceTbl : List ClassNamespace} {scan : SpecScan}

/-- The scan is outside parentheses, and knows whether a name has begun. -/
structure SpecScan.Outside (scan : SpecScan) : Prop where
  noOpen : scan.pOpen = none
  begun : scan.nsName ≠ [] → scan.nsFirst ≠ 0

theorem scanSpec_outside (outside : scan.Outside) {text : List UInt8}
    (plain : ∀ c ∈ [0, atSign, openParen, closeParen], c ∉ text) (rest : List UInt8) :
    ∃ next, scanSpec namespaceTbl (text ++ rest) scan = scanSpec namespaceTbl rest next ∧
        next.Outside ∧ next.hier = scan.hier ∧ next.libs = scan.libs ∧
        next.nsName = scan.nsName ++ text.filter (· ≠ colon) := by
  induction text generalizing scan with
  | nil =>
    refine ⟨scan, rfl, outside, rfl, rfl, ?_⟩
    rw [List.filter_nil, List.append_nil]
  | cons c text ih =>
    have noNul : c ≠ 0 := by
      rintro rfl
      exact plain 0 (by decide) List.mem_cons_self
    have noAt : c ≠ atSign := by
      rintro rfl
      exact plain atSign (by decide) List.mem_cons_self
    have noOpen : c ≠ openParen := by
      rintro rfl
      exact plain openParen (by decide) List.mem_cons_self
    have noClose : c ≠ closeParen := by
      rintro rfl
      exact plain closeParen (by decide) List.mem_cons_self
    have stored : (scan.store c (text ++ rest)).Outside ∧
        (scan.store c (text ++ rest)).hier = scan.hier ∧
        (scan.store c (text ++ rest)).libs = scan.libs ∧
        (scan.store c (text ++ rest)).nsName = scan.nsName ++ [c].filter (· ≠ colon) := by
      simp only [SpecScan.store, outside.noOpen, if_neg fun isAt => noAt (And.left isAt)]
      refine ⟨⟨rfl, fun begun => ?_⟩, trivial, trivial, ?_⟩
      · by_cases isColon : c = colon
        · simp only [isColon, ne_eq, not_true_eq_false, false_and, if_true, if_false] at begun ⊢
          exact outside.begun begun
        · by_cases first : scan.nsName = []
          · simp only [isColon, first, ne_eq, not_false_eq_true, true_and, if_true]
            exact noNul
          · simp only [first, and_false, if_false]
            exact outside.begun first
      · by_cases isColon : c = colon <;> simp [isColon]
    obtain ⟨storedOutside, storedHier, storedLibs, storedName⟩ := stored
    obtain ⟨next, scanned, nextOutside, hier, libs, name⟩ :=
      ih storedOutside fun special member inside =>
        plain special member (List.mem_cons_of_mem c inside)
    refine ⟨next, ?_, nextOutside, hier.trans storedHier, libs.trans storedLibs, ?_⟩
    · rw [List.cons_append, scanSpec, if_neg fun opens => noOpen opens.1, if_neg noClose, scanned]
    · rw [name, storedName, List.append_assoc, ← List.filter_append]
      rfl

theorem scanSpec_inside {inner : List UInt8} (opened : scan.pOpen = some inner) {text : List UInt8}
    (noOpen : openParen ∉ text) (noClose : closeParen ∉ text) (rest : List UInt8) :
    scanSpec namespaceTbl (text ++ rest) scan =
      scanSpec namespaceTbl rest { scan with pOpen := some (inner ++ text) } := by
  induction text generalizing scan inner with
  | nil => rw [List.nil_append, List.append_nil, ← opened]
  | cons c text ih =>
    rw [List.mem_cons, not_or] at noOpen noClose
    rw [List.cons_append, scanSpec,
      if_neg fun opens => noOpen.1 opens.1.symm, if_neg (Ne.symm noClose.1),
      SpecScan.store, opened]
    simp only
    rw [ih rfl noOpen.2 noClose.2, List.append_assoc]
    rfl

/-- What a group appends to the hierarchy -/
def appendedNames (pfx : List UInt8) (names : List Component) : List UInt8 :=
  names.flatMap fun name => pfx ++ name ++ [colon]

theorem appendNames_eq (pfx : List UInt8) (names : List Component) (scan : SpecScan) :
    scan.appendNames pfx names = .ok { scan with hier := scan.hier ++ appendedNames pfx names } ∨
      scan.appendNames pfx names = .error .undefined ∧
        objectHierMax < (scan.hier ++ appendedNames pfx names).length := by
  induction names generalizing scan with
  | nil =>
    left
    rw [appendedNames, List.flatMap_nil, List.append_nil]
    rfl
  | cons name names ih =>
    have whole : scan.hier ++ appendedNames pfx (name :: names) =
          scan.hier ++ pfx ++ name ++ [colon] ++ appendedNames pfx names := by
      simp only [appendedNames, List.flatMap_cons, List.append_assoc]
    rw [whole, SpecScan.appendNames]
    by_cases room : (scan.hier ++ pfx ++ name).length > objectHierMax
    · right
      refine ⟨?_, ?_⟩
      · unfold SpecScan.append
        split
        · rfl
        · rw [ok_bind]
          split
          · rfl
          · rw [ok_bind, if_pos room]
            rfl
      · simp only [List.length_append] at room ⊢
        omega
    · have appended : (scan.append pfx >>= fun next => next.append name >>= fun next =>
              next.append [colon]) =
            .ok { scan with hier := scan.hier ++ pfx ++ name ++ [colon] } := by
        simp only [List.length_append] at room
        unfold SpecScan.append
        rw [if_neg (by omega), ok_bind, if_neg, ok_bind, if_neg]
        · simp only [List.length_append]
          omega
        · simp only [List.length_append]
          omega
      have next := ih
        { scan with hier := scan.hier ++ pfx ++ name ++ [colon] }
      have associate : (do
            let scan ← scan.append pfx
            let scan ← scan.append name
            let scan ← scan.append [colon]
            scan.appendNames pfx names) =
            (scan.append pfx >>= fun next => next.append name >>= fun next =>
              next.append [colon]) >>= fun scan =>
                scan.appendNames pfx names := by
        simp only [bind_assoc]
      rw [associate, appended, ok_bind]
      exact next

theorem scanSpec_group (outside : scan.Outside) (started : scan.nsName = [])
    (group : NamespaceGroup) {entry : ClassNamespace}
    (registered : getNamespace namespaceTbl group.ns.bytes = some entry)
    (short : group.text.length < objectHierMax) (rest : List UInt8) :
    (∃ next, scanSpec namespaceTbl (group.text ++ rest) scan = scanSpec namespaceTbl rest next ∧
        next.Outside ∧ next.nsName = [] ∧ next.libs = scan.libs ∧
        next.hier = scan.hier ++ appendedNames entry.pfx (group.names.map (·.bytes))) ∨
      scanSpec namespaceTbl (group.text ++ rest) scan = .error .undefined ∧ objectHierMax <
          (scan.hier ++ appendedNames entry.pfx (group.names.map (·.bytes))).length := by
  have nsPlain (c : UInt8) (special : c ∈ [0, atSign, openParen, closeParen]) :
      c ∉ group.ns.bytes :=
    group.ns.plain c (by simp at special ⊢; tauto)
  have innerPlain (c : UInt8) (special : c ∈ [openParen, closeParen]) :
      c ∉ joined (group.names.map (·.bytes)) := by
    have notColon : c ≠ colon := by
      rintro rfl
      exact absurd special (by decide)
    refine not_mem_joined notColon fun part member => ?_
    obtain ⟨name, _, rfl⟩ := List.mem_map.mp member
    exact name.plain c (by simp at special ⊢; tauto)
  obtain ⟨named, scanned, namedOutside, hier, libs, nsName⟩ :=
    @scanSpec_outside namespaceTbl scan outside group.ns.bytes nsPlain
      (openParen :: (joined (group.names.map (·.bytes)) ++ closeParen :: rest))
  have noColon : group.ns.bytes.filter (· ≠ colon) = group.ns.bytes := by
    rw [List.filter_eq_self]
    intro c member
    simp only [ne_eq, decide_not, Bool.not_eq_eq_eq_not, Bool.not_true, decide_eq_false_iff_not]
    rintro rfl
    exact group.ns.plain colon (by decide) member
  rw [started, List.nil_append, noColon] at nsName
  have whole : group.text ++ rest = group.ns.bytes ++
          openParen :: (joined (group.names.map (·.bytes)) ++ closeParen :: rest) := by
    simp only [NamespaceGroup.text, List.append_assoc, List.cons_append, List.nil_append]
  -- the parenthesis opens, and the names are kept
  have opened : scanSpec namespaceTbl
          (openParen :: (joined (group.names.map (·.bytes)) ++ closeParen :: rest)) named =
        scanSpec namespaceTbl (closeParen :: rest)
          { named with pOpen := some (joined (group.names.map (·.bytes))) } := by
    have begun : named.nsFirst ≠ 0 := namedOutside.begun (nsName ▸ group.ns.nonempty)
    rw [scanSpec, if_pos ⟨rfl, by simp⟩, if_neg]
    · rw [scanSpec_inside rfl (innerPlain _ (by decide))
        (innerPlain _ (by decide)), List.nil_append]
    · rw [namedOutside.noOpen]
      rintro (isOpen | notBegun)
      · cases isOpen
      · exact begun notBegun
  have namesBytes (part : Component) (member : part ∈ group.names.map (·.bytes)) :
      part ≠ [] ∧ colon ∉ part := by
    obtain ⟨name, _, rfl⟩ := List.mem_map.mp member
    exact ⟨name.nonempty, name.plain colon (by decide)⟩
  have someNames : group.names.map (·.bytes) ≠ [] := by simpa using group.nonempty
  have inner : components ((joined (group.names.map (·.bytes))).take (objectHierMax - 1)) =
        group.names.map (·.bytes) := by
    rw [List.take_of_length_le,
      components_joined (fun c member => (namesBytes c member).2) someNames]
    simp only [NamespaceGroup.text, List.length_append, List.length_cons] at short
    omega
  have notEmpty : some (joined (group.names.map (·.bytes))) ≠ some ([] : List UInt8) := by
    rw [ne_eq, Option.some.injEq]
    exact joined_ne_nil someNames fun part member => (namesBytes part member).1
  -- the parenthesis closes, and the namespace is looked up
  have closed : scanSpec namespaceTbl (closeParen :: rest)
          { named with pOpen := some (joined (group.names.map (·.bytes))) } =
        (do
          let next ← SpecScan.appendNames entry.pfx (group.names.map (·.bytes))
            (SpecScan.endName (SpecScan.store
              { named with pOpen := some (joined (group.names.map (·.bytes))) }
              closeParen rest))
          scanSpec namespaceTbl rest { next with pOpen := none }) := by
    rw [scanSpec, if_neg fun opens => absurd opens.1 (by decide), if_pos rfl, if_neg notEmpty]
    simp only [SpecScan.store, nsName, registered, inner]
  rw [whole, scanned, opened, closed]
  rcases appendNames_eq entry.pfx (group.names.map (·.bytes)) (SpecScan.endName (SpecScan.store
        { named with pOpen := some (joined (group.names.map (·.bytes))) }
        closeParen rest)) with appended | ⟨stuck, long⟩
  · left
    rw [appended, ok_bind]
    refine ⟨_, rfl, ⟨rfl, fun begun => absurd rfl begun⟩, rfl, libs, ?_⟩
    rw [← hier]
    rfl
  · right
    rw [stuck]
    refine ⟨rfl, ?_⟩
    rw [← hier]
    exact long

theorem appendedNames_eq {group : NamespaceGroup} {entry : ClassNamespace}
    (registered : getNamespace namespaceTbl group.ns.bytes = some entry) :
    appendedNames entry.pfx (group.names.map (·.bytes)) =
      (group.fullNames namespaceTbl).flatMap fun name => name ++ [colon] := by
  have pfx : prefixOf namespaceTbl group.ns = entry.pfx := by rw [prefixOf, registered]
  rw [appendedNames, NamespaceGroup.fullNames, pfx, List.flatMap_map, List.flatMap_map]

theorem scanSpec_groups {groups : List NamespaceGroup} (nonempty : groups ≠ [])
    (registered : ∀ group ∈ groups, ∃ entry,
      getNamespace namespaceTbl group.ns.bytes = some entry ∧ 0 ∉ entry.pfx)
    (short : (joined (groups.map (·.text))).length < objectHierMax) (outside : scan.Outside)
    (started : scan.nsName = []) (rest : List UInt8) :
    (∃ next, scanSpec namespaceTbl (joined (groups.map (·.text)) ++ rest) scan =
          scanSpec namespaceTbl rest next ∧
        next.Outside ∧ next.libs = scan.libs ∧
        next.hier = scan.hier ++ (groups.flatMap (·.fullNames namespaceTbl)).flatMap
              (fun name => name ++ [colon])) ∨
      scanSpec namespaceTbl (joined (groups.map (·.text)) ++ rest) scan = .error .undefined ∧
        objectHierMax < (scan.hier ++ (groups.flatMap (·.fullNames namespaceTbl)).flatMap
              (fun name => name ++ [colon])).length := by
  induction groups generalizing scan with
  | nil => exact absurd rfl nonempty
  | cons group groups ih =>
    rw [List.forall_mem_cons] at registered
    obtain ⟨⟨entry, found, _⟩, others⟩ := registered
    rw [List.flatMap_cons, List.flatMap_append, ← appendedNames_eq found]
    by_cases last : groups = []
    · subst last
      rw [List.map_singleton, joined_singleton] at short ⊢
      rw [List.flatMap_nil, List.flatMap_nil, List.append_nil]
      rcases @scanSpec_group namespaceTbl scan outside started group entry
          found short rest with ⟨next, scanned, nextOutside, _, done⟩ | stuck
      · exact .inl ⟨next, scanned, nextOutside, done⟩
      · exact .inr stuck
    · have more : groups.map (·.text) ≠ [] := by
        simpa using last
      rw [List.map_cons, joined_cons group.text more] at short ⊢
      rw [List.length_append, List.length_cons] at short
      rw [List.append_assoc, List.cons_append]
      rcases @scanSpec_group namespaceTbl scan outside started group entry
          found (by omega) (colon :: (joined (groups.map (·.text)) ++ rest))
        with ⟨next, scanned, nextOutside, nextStarted, nextLibs, nextHier⟩ |
          ⟨stuck, long⟩
      · have plainColon (c : UInt8) (special : c ∈ [0, atSign, openParen, closeParen]) :
            c ∉ [colon] := by
          rw [List.mem_singleton]
          rintro rfl
          exact absurd special (by decide)
        obtain ⟨behind, separated, behindOutside, behindHier, behindLibs, behindName⟩ :=
          @scanSpec_outside namespaceTbl next nextOutside [colon] plainColon
            (joined (groups.map (·.text)) ++ rest)
        have behindStarted : behind.nsName = [] := by
          rw [behindName, nextStarted]
          rfl
        rw [List.singleton_append] at separated
        have later := ih last others (by omega) behindOutside behindStarted
        rw [behindHier, nextHier, behindLibs, nextLibs, List.append_assoc] at later
        rw [scanned, separated]
        exact later
      · refine .inr ⟨stuck, long.trans_le ?_⟩
        simp only [List.length_append]
        omega

theorem scanSpec_libs (outside : scan.Outside) (noLibs : scan.libs.bytes = [])
    (libs : Option LibraryNames) :
    ∃ scanned, scanSpec namespaceTbl (libsText libs) scan = .ok (some scanned) ∧
        scanned.hier = scan.hier ∧
        scanned.libs.bytes = (CString.strlcpy (libsNamed libs) : CString objectLibsMax).bytes := by
  have nothing : (CString.strlcpy [] : CString objectLibsMax).bytes = [] := by decide
  cases libs with
  | none => exact ⟨scan, rfl, rfl, noLibs.trans nothing.symm⟩
  | some libs =>
    -- the `@` is stored, and what follows it copied unless there is nothing
    have stored : (scan.store atSign libs.bytes).Outside ∧
          (scan.store atSign libs.bytes).hier = scan.hier ∧
          (scan.store atSign libs.bytes).libs.bytes =
            (CString.strlcpy libs.bytes : CString objectLibsMax).bytes := by
      have notColon : atSign ≠ colon := by decide
      simp only [SpecScan.store, outside.noOpen, notColon, if_false, true_and,
        ne_eq, not_false_eq_true]
      refine ⟨⟨rfl, fun _ => ?_⟩, ?_⟩
      · by_cases first : scan.nsName = []
        · simp only [first, if_true]
          decide
        · simp only [first, if_false]
          exact outside.begun first
      · by_cases named : libs.bytes = []
        · simp only [named, not_true_eq_false, if_false]
          exact noLibs.trans nothing.symm
        · simp only [named, not_false_eq_true, if_true]
    obtain ⟨storedOutside, storedHier, storedLibs⟩ := stored
    obtain ⟨next, scanned, _, hier, same, _⟩ :=
      @scanSpec_outside namespaceTbl _ storedOutside libs.bytes libs.plain []
    refine ⟨next, ?_, hier.trans storedHier, ?_⟩
    · rw [List.append_nil, scanSpec] at scanned
      rw [libsText, scanSpec, if_neg fun opens => absurd opens.1 (by decide),
        if_neg (by decide), scanned]
    · rw [same, storedLibs]
      rfl

end Scanning

/-! ## Parts of hierarchies -/

theorem withoutLibs_of_not_mem {s : List UInt8} (noAt : atSign ∉ s) : withoutLibs s = s := by
  rw [withoutLibs, splitLast_eq_none.mpr noAt]

theorem withoutLibs_append (front : List UInt8) {libs : List UInt8} (noAt : atSign ∉ libs) :
    withoutLibs (front ++ atSign :: libs) = front := by
  rw [withoutLibs, splitLast_append front noAt]

theorem withoutLibs_eq_self {s : List UInt8} : withoutLibs s = s ↔ atSign ∉ s := by
  refine ⟨fun same => ?_, withoutLibs_of_not_mem⟩
  cases found : splitLast atSign s with
  | none => exact splitLast_eq_none.mp found
  | some parts =>
    obtain ⟨front, back⟩ := parts
    rw [withoutLibs, found] at same
    have shape := (splitLast_eq_some found).1
    rw [← same] at shape
    exact absurd (congrArg List.length shape) (by simp)

theorem withoutLibs_prefixOf (s : List UInt8) : withoutLibs s <+: s := by
  cases found : splitLast atSign s with
  | none => rw [withoutLibs, found]
  | some parts =>
    obtain ⟨front, back⟩ := parts
    rw [withoutLibs, found]
    exact ⟨_, (splitLast_eq_some found).1.symm⟩

theorem strlcpy_withoutLibs {size : Nat} [NeZero size] (s : CString size) :
    (CString.strlcpy (withoutLibs s.bytes) : CString size).bytes = withoutLibs s.bytes := by
  have front := withoutLibs_prefixOf s.bytes
  exact CString.strlcpy_bytes_of_fits (fun nul => s.noNul (front.subset nul))
    (Nat.lt_of_le_of_lt front.length_le s.fits)

theorem strlcpy_prefixOf {size : Nat} [NeZero size] (src : List UInt8) :
    (CString.strlcpy src : CString size).bytes <+: src :=
  (List.take_prefix _ _).trans (List.takeWhile_prefix _)

theorem joined_getLastD {names : List Component} (nonempty : names ≠ []) :
    joined names = names.getLastD [] ∨
      ∃ front, joined names = front ++ colon :: names.getLastD [] := by
  obtain ⟨leading, last, rfl⟩ := (List.eq_nil_or_concat' names).resolve_left nonempty
  rw [List.getLastD_concat]
  by_cases only : leading = []
  · left
    rw [only, List.nil_append, joined_singleton]
  · exact .inr ⟨joined leading, joined_concat only last⟩

theorem lastName_joined {names : List Component} (nonempty : names ≠ [])
    (named : names.getLastD [] ≠ []) (noColon : colon ∉ names.getLastD []) :
    lastName (joined names) = names.getLastD [] := by
  rcases joined_getLastD nonempty with only | ⟨front, shape⟩
  · rw [only, lastName, splitLast_eq_none.mpr noColon]
  · rw [shape, lastName, splitLast_append front noColon]
    exact if_neg named

theorem colon_not_mem_lastName {hier : List UInt8} (last : hier.getLast? ≠ some colon) :
    colon ∉ lastName hier := by
  cases found : splitLast colon hier with
  | none =>
    rw [lastName, found]
    exact splitLast_eq_none.mp found
  | some parts =>
    obtain ⟨front, back⟩ := parts
    obtain ⟨shape, noColon⟩ := splitLast_eq_some found
    have named : back ≠ [] := by
      rintro rfl
      exact last (by rw [shape, List.getLast?_concat])
    rw [lastName, found]
    simp only [if_neg named]
    exact noColon

/-! ## Filling in -/

section Filling

variable {namespaceTbl : List ClassNamespace} {spec : NotatedSpec}

/-- What the loop is to append to the hierarchy -/
def ClassNotation.appended (namespaceTbl : List ClassNamespace)
    (classes : ClassNotation) : List UInt8 :=
  match classes with
  | .inheritance _ _ => []
  | .namespaces _ _ => joined (classes.fullNames namespaceTbl) ++ [colon]

theorem ClassNotation.fullNames_ne_nil (namespaceTbl : List ClassNamespace)
    (classes : ClassNotation) : classes.fullNames namespaceTbl ≠ [] := by
  cases classes with
  | inheritance names nonempty => simpa [fullNames] using nonempty
  | namespaces groups nonempty =>
    obtain ⟨group, rest, rfl⟩ := List.exists_cons_of_ne_nil nonempty
    rw [fullNames, List.flatMap_cons]
    refine List.append_ne_nil_of_left_ne_nil ?_ _
    simpa [NamespaceGroup.fullNames] using group.nonempty

theorem scanSpec_notated (registered : spec.classes.Registered namespaceTbl)
    (short : spec.text.length < objectHierMax) :
    (∃ scanned, scanSpec namespaceTbl spec.text .initial = .ok (some scanned) ∧
        scanned.hier = spec.classes.appended namespaceTbl ∧
        scanned.libs.bytes = (CString.strlcpy (libsNamed spec.libs) :
            CString objectLibsMax).bytes) ∨
      scanSpec namespaceTbl spec.text .initial = .error .undefined ∧
        objectHierMax < (spec.classes.appended namespaceTbl).length := by
  have begins : SpecScan.initial.Outside := ⟨rfl, fun begun => absurd rfl begun⟩
  have noLibs : SpecScan.initial.libs.bytes = [] := by decide
  have fullNamesNe := spec.classes.fullNames_ne_nil namespaceTbl
  obtain ⟨classes, libs⟩ := spec
  rw [NotatedSpec.text] at short ⊢
  cases classes with
  | inheritance names nonempty =>
    have plain (c : UInt8) (special : c ∈ [0, atSign, openParen, closeParen]) :
        c ∉ joined (names.map (·.bytes)) := by
      have notColon : c ≠ colon := by
        rintro rfl
        exact absurd special (by decide)
      refine not_mem_joined notColon fun part member => ?_
      obtain ⟨name, _, rfl⟩ := List.mem_map.mp member
      exact name.plain c (by simp at special ⊢; tauto)
    obtain ⟨next, scanned, outside, hier, nextLibs, _⟩ :=
      @scanSpec_outside namespaceTbl _ begins (joined (names.map (·.bytes))) plain (libsText libs)
    obtain ⟨last, rescanned, lastHier, lastLibs⟩ :=
      @scanSpec_libs namespaceTbl next outside (nextLibs ▸ noLibs) libs
    exact .inl ⟨last, scanned.trans rescanned, lastHier.trans hier, lastLibs⟩
  | namespaces groups nonempty =>
    have fits : (joined (groups.map (·.text))).length < objectHierMax := by
      rw [List.length_append] at short
      exact Nat.lt_of_le_of_lt (Nat.le_add_right _ _) short
    have appends := flatMap_colon fullNamesNe
    rcases @scanSpec_groups namespaceTbl _ groups nonempty registered fits
        begins rfl (libsText libs) with
      ⟨next, scanned, outside, nextLibs, hier⟩ | ⟨stuck, long⟩
    · obtain ⟨last, rescanned, lastHier, lastLibs⟩ :=
        @scanSpec_libs namespaceTbl next outside (nextLibs ▸ noLibs) libs
      exact .inl ⟨last, scanned.trans rescanned, lastHier.trans (hier.trans appends), lastLibs⟩
    · exact .inr ⟨stuck, long.trans_eq (congrArg List.length appends)⟩

theorem ClassNotation.fullNames_noNul {classes : ClassNotation}
    (registered : classes.Registered namespaceTbl) {name : List UInt8}
    (member : name ∈ classes.fullNames namespaceTbl) : 0 ∉ name := by
  cases classes with
  | inheritance names nonempty =>
    obtain ⟨plain, _, rfl⟩ := List.mem_map.mp member
    exact plain.plain 0 (by decide)
  | namespaces groups nonempty =>
    obtain ⟨group, inGroups, member⟩ := List.mem_flatMap.mp member
    obtain ⟨plain, _, rfl⟩ := List.mem_map.mp member
    obtain ⟨entry, found, noNul⟩ := registered group inGroups
    rw [prefixOf, found, List.mem_append, not_or]
    exact ⟨noNul, plain.plain 0 (by decide)⟩

theorem ClassNotation.fullNames_getLast {classes : ClassNotation} {name : List UInt8}
    (member : name ∈ classes.fullNames namespaceTbl) : name ≠ [] ∧ name.getLast? ≠ some colon := by
  have plainEnds (plain : PlainName) : plain.bytes.getLast? ≠ some colon := by
    intro last
    exact plain.plain colon (by decide) (List.mem_of_getLast? last)
  cases classes with
  | inheritance names nonempty =>
    obtain ⟨plain, _, rfl⟩ := List.mem_map.mp member
    exact ⟨plain.nonempty, plainEnds plain⟩
  | namespaces groups nonempty =>
    obtain ⟨group, _, member⟩ := List.mem_flatMap.mp member
    obtain ⟨plain, _, rfl⟩ := List.mem_map.mp member
    rw [List.getLast?_append_of_ne_nil _ plain.nonempty]
    exact ⟨List.append_ne_nil_of_right_ne_nil _ plain.nonempty, plainEnds plain⟩

namespace NotatedSpec

theorem lastClass_mem (spec : NotatedSpec) :
    spec.lastClass namespaceTbl ∈ spec.classes.fullNames namespaceTbl := by
  rw [lastClass, List.getLastD_eq_getLast?,
    List.getLast?_eq_some_getLast (spec.classes.fullNames_ne_nil namespaceTbl)]
  exact List.getLast_mem _

theorem lastClass_suffix (spec : NotatedSpec) :
    spec.lastClass namespaceTbl <:+ spec.hierarchy namespaceTbl := by
  rcases joined_getLastD (spec.classes.fullNames_ne_nil namespaceTbl) with
    only | ⟨front, shape⟩
  · rw [hierarchy, only]
    exact List.suffix_rfl
  · rw [hierarchy, shape]
    exact ⟨front ++ [colon], by rw [List.append_assoc]; rfl⟩

theorem hierarchy_getLast (spec : NotatedSpec) :
    (spec.hierarchy namespaceTbl).getLast? ≠ some colon := by
  obtain ⟨nonempty, last⟩ := ClassNotation.fullNames_getLast (@lastClass_mem namespaceTbl spec)
  obtain ⟨front, shape⟩ := @lastClass_suffix namespaceTbl spec
  rw [← shape, List.getLast?_append_of_ne_nil _ nonempty]
  exact last

theorem hierarchy_noNul (registered : spec.classes.Registered namespaceTbl) :
    0 ∉ spec.hierarchy namespaceTbl :=
  not_mem_joined (by decide) fun _ member => ClassNotation.fullNames_noNul registered member

theorem fillSpec_notated (registered : spec.classes.Registered namespaceTbl)
    (short : spec.text.length < objectHierMax) {scanned : SpecScan}
    (appended : scanned.hier = spec.classes.appended namespaceTbl)
    (room : (spec.classes.appended namespaceTbl).length < objectHierMax) :
    ∃ cs, fillSpec spec.text scanned = .ok cs ∧
        cs.hier.bytes = withoutLibs (spec.hierarchy namespaceTbl) ∧ cs.libs = scanned.libs ∧
        cs.name.bytes = withoutLibs
            (CString.strlcpy (lastName cs.hier.bytes) : CString objectNameMax).bytes := by
  have noNul := hierarchy_noNul registered
  have named : withoutLibs (if scanned.hier = [] then spec.text
          else if scanned.hier.getLast? = some colon then scanned.hier.dropLast
          else scanned.hier) =
        withoutLibs (spec.hierarchy namespaceTbl) ∧
      (spec.hierarchy namespaceTbl).length < objectHierMax := by
    rw [appended]
    obtain ⟨classes, libs⟩ := spec
    cases classes with
    | inheritance names nonempty =>
      have noAt : atSign ∉ joined (names.map (·.bytes)) := by
        refine not_mem_joined (by decide) fun part member => ?_
        obtain ⟨name, _, rfl⟩ := List.mem_map.mp member
        exact name.plain atSign (by decide)
      constructor
      · rw [ClassNotation.appended, if_pos rfl, hierarchy,
          ClassNotation.fullNames, withoutLibs_of_not_mem noAt]
        cases libs with
        | none =>
          rw [text, libsText, List.append_nil, ClassNotation.text, withoutLibs_of_not_mem noAt]
        | some libs =>
          rw [text, libsText, withoutLibs_append _ (libs.plain atSign (by decide))]
          rfl
      · rw [text, List.length_append] at short
        exact Nat.lt_of_le_of_lt (Nat.le_add_right _ _) short
    | namespaces groups nonempty =>
      constructor
      · rw [ClassNotation.appended, if_neg (List.concat_ne_nil _ _),
          List.getLast?_concat, if_pos rfl, List.dropLast_concat]
        rfl
      · rw [ClassNotation.appended, List.length_append] at room
        exact Nat.lt_of_le_of_lt (Nat.le_add_right _ _) room
  obtain ⟨same, fits⟩ := named
  have short := withoutLibs_prefixOf (spec.hierarchy namespaceTbl)
  unfold fillSpec
  rw [if_neg (Nat.not_le_of_lt (appended ▸ room))]
  refine ⟨_, rfl, ?_, rfl, strlcpy_withoutLibs _⟩
  dsimp only
  rw [same]
  exact CString.strlcpy_bytes_of_fits (fun nul => noNul (short.subset nul))
    (Nat.lt_of_le_of_lt short.length_le fits)

theorem fits_of_fields {cs : ObjectClassSpec}
    (hier : cs.hier.bytes = withoutLibs (spec.hierarchy namespaceTbl))
    (name : cs.name.bytes = withoutLibs
          (CString.strlcpy (lastName cs.hier.bytes) : CString objectNameMax).bytes)
    (hierExact : cs.hier.bytes = spec.hierarchy namespaceTbl)
    (libsExact : cs.libs.bytes = libsNamed spec.libs)
    (nameExact : cs.name.bytes = spec.lastClass namespaceTbl)
    (room : (spec.classes.appended namespaceTbl).length < objectHierMax) :
    spec.Fits namespaceTbl where
  libs := libsExact ▸ cs.libs.fits
  name := nameExact ▸ cs.name.fits
  hierarchy groups nonempty isGroups := by
    rw [isGroups, ClassNotation.appended, ← isGroups, List.length_append] at room
    exact room
  noAt := withoutLibs_eq_self.mp (hier.symm.trans hierExact)
  noColon := by
    rw [← nameExact, name, hierExact]
    intro member
    have copied := (withoutLibs_prefixOf _).subset member
    exact colon_not_mem_lastName (hierarchy_getLast spec) ((strlcpy_prefixOf _).subset copied)

theorem fields_of_fits (registered : spec.classes.Registered namespaceTbl)
    (fits : spec.Fits namespaceTbl) {cs : ObjectClassSpec}
    (hier : cs.hier.bytes = withoutLibs (spec.hierarchy namespaceTbl))
    (libs : cs.libs.bytes = (CString.strlcpy (libsNamed spec.libs) : CString objectLibsMax).bytes)
    (name : cs.name.bytes = withoutLibs
          (CString.strlcpy (lastName cs.hier.bytes) : CString objectNameMax).bytes) :
    cs.hier.bytes = spec.hierarchy namespaceTbl ∧ cs.libs.bytes = libsNamed spec.libs ∧
      cs.name.bytes = spec.lastClass namespaceTbl := by
  have noNul : 0 ∉ libsNamed spec.libs := by
    cases spec.libs with
    | none => exact List.not_mem_nil
    | some libs => exact libs.plain 0 (by decide)
  have member := @lastClass_mem namespaceTbl spec
  have suffix := @lastClass_suffix namespaceTbl spec
  rw [withoutLibs_of_not_mem fits.noAt] at hier
  refine ⟨hier, ?_, ?_⟩
  · rw [libs, CString.strlcpy_bytes_of_fits noNul fits.libs]
  · have lastNamed : lastName (spec.hierarchy namespaceTbl) = spec.lastClass namespaceTbl :=
      lastName_joined (spec.classes.fullNames_ne_nil namespaceTbl)
        (ClassNotation.fullNames_getLast member).1 fits.noColon
    rw [name, hier, lastNamed, CString.strlcpy_bytes_of_fits
        (ClassNotation.fullNames_noNul registered member) fits.name,
      withoutLibs_of_not_mem fun inName => fits.noAt (suffix.subset inName)]

end NotatedSpec

theorem parseClassSpec_short {spec : List UInt8} (short : spec.length < objectHierMax) :
    parseClassSpec namespaceTbl spec = do
      match ← scanSpec namespaceTbl spec .initial with
      | none => return none
      | some scan => do
          let cs ← fillSpec spec scan
          return some cs :=
  if_neg (Nat.not_le_of_lt short)

/--
A specification is parsed exactly, or refused, if and only if the fields have
room for what they are to hold, and no prefix has an `@` in it, nor that of the
last class a colon.
-/
theorem parses_exactly_iff (namespaceTbl : List ClassNamespace) (spec : NotatedSpec)
    (registered : spec.classes.Registered namespaceTbl) (short : spec.text.length < objectHierMax) :
    spec.ParsedExactly namespaceTbl ↔ spec.Fits namespaceTbl := by
  have written : (spec.classes.appended namespaceTbl).length < objectHierMax ∨
        objectHierMax ≤ (spec.classes.appended namespaceTbl).length :=
    Nat.lt_or_ge _ _
  have tooLong (long : objectHierMax ≤ (spec.classes.appended namespaceTbl).length) :
      ¬ spec.Fits namespaceTbl := by
    intro fits
    cases isClasses : spec.classes with
    | inheritance names nonempty =>
      rw [isClasses, ClassNotation.appended] at long
      exact absurd long (by decide)
    | namespaces groups nonempty =>
      have room := fits.hierarchy groups nonempty isClasses
      rw [isClasses, ClassNotation.appended, ← isClasses, List.length_append] at long
      exact Nat.not_le_of_lt room long
  rw [NotatedSpec.ParsedExactly, parseClassSpec_short short]
  rcases scanSpec_notated registered short with
    ⟨scanned, scans, appended, libs⟩ | ⟨stuck, long⟩
  · rw [scans, ok_bind]
    rcases written with room | long
    · obtain ⟨cs, filled, hier, sameLibs, name⟩ :=
        NotatedSpec.fillSpec_notated registered short appended room
      simp only [filled, ok_bind]
      constructor
      · rintro ⟨result, parsed, exact⟩
        cases parsed
        obtain ⟨hierExact, libsExact, nameExact⟩ := exact cs rfl
        exact NotatedSpec.fits_of_fields hier name hierExact libsExact nameExact room
      · intro fits
        refine ⟨some cs, rfl, ?_⟩
        rintro _ ⟨rfl⟩
        rw [← sameLibs] at libs
        exact NotatedSpec.fields_of_fits registered fits hier libs name
    · have overflows : fillSpec spec.text scanned = .error .undefined := by
        unfold fillSpec
        exact if_pos (appended ▸ long)
      refine iff_of_false ?_ (tooLong long)
      simp only [overflows]
      rintro ⟨_, parsed, _⟩
      cases parsed
  · refine iff_of_false ?_ (tooLong long.le)
    rw [stuck]
    rintro ⟨_, parsed, _⟩
    cases parsed

end Filling

/-- Names in the namespace `Agar` -/
def agarGroup (names : List PlainName) (nonempty : names ≠ []) : NamespaceGroup where
  ns := {
    bytes := ascii "Agar"
    nonempty := by decide
    plain := by decide +kernel
  }
  names := names
  nonempty := nonempty

/-- `Agar(Widget:Button)@gui` -/
def buttonSpec : NotatedSpec where
  classes :=
    .namespaces [agarGroup [⟨ascii "Widget", by decide, by decide +kernel⟩,
          ⟨ascii "Button", by decide, by decide +kernel⟩]
        (List.cons_ne_nil _ _)]
      (List.cons_ne_nil _ _)
  libs := some ⟨ascii "gui", by decide +kernel⟩

theorem agarGroup_registered (names : List PlainName) (nonempty : names ≠ []) :
    (ClassNotation.namespaces [agarGroup names nonempty]
      (List.cons_ne_nil _ _)).Registered [agarNamespace] := by
  intro group member
  rw [List.mem_singleton] at member
  subst member
  exact ⟨agarNamespace, rfl, by decide⟩

theorem parses_exactly_button : buttonSpec.text = ascii "Agar(Widget:Button)@gui" ∧
      buttonSpec.ParsedExactly [agarNamespace] := by
  refine ⟨by decide +kernel, ?_⟩
  rw [parses_exactly_iff [agarNamespace] buttonSpec (agarGroup_registered _ _) (by decide +kernel)]
  refine ⟨by decide +kernel, by decide +kernel, fun groups nonempty _ => ?_,
    by decide +kernel, by decide +kernel⟩
  decide +kernel

def longGroup : NamespaceGroup :=
  agarGroup [⟨List.replicate 100 65, by decide, by decide +kernel⟩,
      ⟨List.replicate 100 66, by decide, by decide +kernel⟩,
      ⟨List.replicate 47 67, by decide, by decide +kernel⟩]
    (List.cons_ne_nil _ _)

theorem prefixes_overflow : ∃ spec : NotatedSpec, spec.classes.Registered [agarNamespace] ∧
        spec.text.length < objectHierMax ∧
        ¬ spec.ParsedExactly [agarNamespace] := by
  refine ⟨⟨.namespaces [longGroup] (List.cons_ne_nil _ _), none⟩,
    agarGroup_registered _ _, by decide +kernel, ?_⟩
  rintro ⟨result, parsed, _⟩
  have overflows : parseClassSpec [agarNamespace] (NotatedSpec.text
            ⟨.namespaces [longGroup] (List.cons_ne_nil _ _), none⟩) =
        .error .undefined := by
    decide +kernel
  rw [overflows] at parsed
  cases parsed

end Agar.Core
