import Agar.Core.ClassRegistry
import Agar.Lib.Outcome
import Agar.Lib.Runs
import Agar.Lib.UpdateFirst

namespace Agar.Core

open Agar.Lib

/-!
# Class inheritance

Whether every registered class lists its superclasses.  Registering finds the
superclass by the hierarchy without its last name, and listing looks up every
part of the hierarchy; both go through the reading of a class specification,
so they agree exactly while every specification is read without an overflow,
as a hierarchy that reads as itself again.
-/

/-- The parts of a hierarchy that end at a colon, or at its end. -/
def lineage (hier : List UInt8) : List (List UInt8) :=
  hier.inits.filter fun front => (hier.drop front.length).head?.all (· = colon)

@[simp] theorem lineage_nil : lineage [] = [[]] := rfl

theorem lineage_cons (c : UInt8) (rest : List UInt8) : lineage (c :: rest) =
      (if c = colon then [[]] else []) ++ (lineage rest).map (c :: ·) := by
  have later : (rest.inits.map (c :: ·)).filter
          (fun front => ((c :: rest).drop front.length).head?.all (· = colon)) =
        (lineage rest).map (c :: ·) := by
    rw [lineage, List.filter_map]
    rfl
  rw [lineage, List.inits_cons, List.filter_cons, later]
  by_cases isColon : c = colon <;> simp [isColon]

theorem lineage_name {name : List UInt8} (noColon : colon ∉ name) : lineage name = [name] := by
  induction name with
  | nil => rfl
  | cons c rest ih =>
    rw [List.mem_cons, not_or] at noColon
    rw [lineage_cons, if_neg (Ne.symm noColon.1), ih noColon.2]
    rfl

theorem lineage_append (front : List UInt8) {name : List UInt8} (noColon : colon ∉ name) :
    lineage (front ++ colon :: name) = lineage front ++ [front ++ colon :: name] := by
  induction front with
  | nil =>
    rw [List.nil_append, lineage_cons, if_pos rfl, lineage_name noColon]
    rfl
  | cons c rest ih =>
    rw [List.cons_append, lineage_cons, ih, lineage_cons, List.map_append, List.append_assoc]
    rfl

theorem getLast?_lineage (hier : List UInt8) : (lineage hier).getLast? = some hier := by
  cases found : splitLast colon hier with
  | none =>
    rw [lineage_name (splitLast_eq_none.mp found)]
    rfl
  | some parts =>
    obtain ⟨shape, noColon⟩ := splitLast_eq_some found
    rw [shape, lineage_append _ noColon]
    exact List.getLast?_concat

namespace ClassRegistry

/-- Look strings up, in order, while all are found. -/
def lookupAll (w : ClassRegistry) : List (List UInt8) → Except Stop (Option (List ClassRef))
  | [] => .ok (some [])
  | inSpec :: rest => do
      match ← w.lookupClass inSpec with
      | none => return none
      | some cl => do
          match ← w.lookupAll rest with
          | none => return none
          | some hier => return some (cl :: hier)

theorem lookupAll_eq_some {w : ClassRegistry} {specs : List (List UInt8)} {hier : List ClassRef} :
    w.lookupAll specs = .ok (some hier) ↔
      List.Forall₂ (fun inSpec cl => w.lookupClass inSpec = .ok (some cl)) specs hier := by
  induction specs generalizing hier with
  | nil => rw [lookupAll, List.forall₂_nil_left_iff, Except.ok.injEq, Option.some.injEq, eq_comm]
  | cons inSpec rest ih =>
    constructor
    · intro found
      obtain ⟨first, lookedUp, later⟩ := bind_eq_ok.mp found
      cases first with
      | none => cases later
      | some cl =>
        obtain ⟨others, lookedUpAll, result⟩ := bind_eq_ok.mp later
        cases others with
        | none => cases result
        | some others =>
          cases result
          exact .cons lookedUp (ih.mp lookedUpAll)
    · intro each
      cases each with
      | cons lookedUp later =>
        simp only [lookupAll, lookedUp, bind, Except.bind, ih.mpr later]
        rfl

theorem inheritFrom_eq (w : ClassRegistry) (front hier : List UInt8) : w.inheritFrom front hier =
      w.lookupAll ((lineage hier).map (front ++ ·)) := by
  induction hier generalizing front with
  | nil =>
    rw [lineage_nil, List.map_singleton, List.append_nil]
    rfl
  | cons c rest ih =>
    have behind : ((lineage rest).map (c :: ·)).map (front ++ ·) =
          (lineage rest).map ((front ++ [c]) ++ ·) := by
      simp
    rw [inheritFrom, lineage_cons, List.map_append, behind, ih]
    split
    · rw [List.map_singleton, List.append_nil, List.singleton_append]
      rfl
    · rfl

/-- The superclass of a class. -/
def superOf (w : ClassRegistry) (cl : ClassRef) : Option ClassRef :=
  (w.node cl).bind ClassNode.super

/-- The hierarchy of a class. -/
def hierOf (w : ClassRegistry) (cl : ClassRef) : Option (List UInt8) :=
  (w.node cl).map fun node => node.cls.hier.bytes

@[simp] theorem superOf_setNode (w : ClassRegistry) (cl : ClassRef) (node : ClassNode) :
    (w.setNode cl node).superOf = Function.update w.superOf cl node.super := by
  funext other
  by_cases same : other = cl <;> simp [superOf, setNode, same]

@[simp] theorem hierOf_setNode (w : ClassRegistry) (cl : ClassRef) (node : ClassNode) :
    (w.setNode cl node).hierOf = Function.update w.hierOf cl (some node.cls.hier.bytes) := by
  funext other
  by_cases same : other = cl <;> simp [hierOf, setNode, same]

theorem load_eq_ok {w : ClassRegistry} {cl : ClassRef} {node : ClassNode}
    (loaded : w.load cl = .ok node) :
    w.hierOf cl = some node.cls.hier.bytes ∧ w.superOf cl = node.super := by
  unfold load at loaded
  split at loaded
  case h_1 stored =>
    cases loaded
    simp [hierOf, superOf, stored]
  case h_2 => cases loaded

theorem load_of_hierOf {w : ClassRegistry} {cl : ClassRef} {hier : List UInt8}
    (itsHier : w.hierOf cl = some hier) :
    ∃ node, w.load cl = .ok node ∧ node.cls.hier.bytes = hier := by
  obtain ⟨node, stored, same⟩ := Option.map_eq_some_iff.mp itsHier
  exact ⟨node, by rw [load, stored], same⟩

/-- The superclass of each class is the one before it. -/
def SuperChain (w : ClassRegistry) : ClassRef → List ClassRef → Prop
  | _, [] => True
  | super, cl :: rest => w.superOf cl = some super ∧ w.SuperChain cl rest

theorem superChain_concat {w : ClassRegistry} {base cl : ClassRef} {classes : List ClassRef} :
    w.SuperChain base (classes ++ [cl]) ↔ w.SuperChain base classes ∧
        w.superOf cl = some (classes.getLast?.getD base) := by
  induction classes generalizing base with
  | nil => simp [SuperChain]
  | cons first rest ih =>
    rw [List.cons_append, SuperChain, ih, SuperChain, and_assoc]
    cases rest with
    | nil => rfl
    | cons second rest =>
      rw [List.getLast?_cons_cons, List.getLast?_eq_some_getLast (List.cons_ne_nil second rest)]
      rfl

/--
An object of a class lists the classes that are named by the parts of its
hierarchy, up to the class; the superclass of each is the one before it, and
that of the first is `agObjectClass`.
-/
def Inherits (w : ClassRegistry) (cl : ClassRef) : Prop :=
  ∃ hier classes, w.hierOf cl = some hier ∧ w.objectGetInheritHier cl = .ok (some classes) ∧
      classes.map w.hierOf = (lineage hier).map some ∧
      classes.getLast? = some cl ∧
      w.SuperChain agClassTree classes

/-- Every registered class lists the classes that it inherits from. -/
def AllInherit (w : ClassRegistry) : Prop :=
  ∀ cl, cl ≠ agClassTree → (w.node cl).isSome → w.Inherits cl

/--
A hierarchy can be looked up: it is not empty, is not another name of
`agObjectClass` and does not start with it, and reads as itself.
-/
structure WellNamed (namespaceTbl : List ClassNamespace) (hier : List UInt8) : Prop where
  nonempty : hier ≠ []
  notObjectSpec : hier ≠ objectSpec
  base : (lineage hier).head? ≠ some objectHier
  readsBack : ∃ cs, parseClassSpec namespaceTbl hier = .ok (some cs) ∧ cs.hier.bytes = hier

theorem WellNamed.ne_objectHier {namespaceTbl : List ClassNamespace} {hier : List UInt8}
    (wellNamed : WellNamed namespaceTbl hier) : hier ≠ objectHier := by
  rintro rfl
  exact wellNamed.base (by decide)

theorem scanSpec_plain {namespaceTbl : List ClassNamespace} {hier : List UInt8}
    (noOpen : openParen ∉ hier) (noClose : closeParen ∉ hier) (scan : SpecScan) :
    ∃ scanned, scanSpec namespaceTbl hier scan = .ok (some scanned) ∧ scanned.hier = scan.hier := by
  induction hier generalizing scan with
  | nil => exact ⟨scan, rfl, rfl⟩
  | cons c rest ih =>
    rw [List.mem_cons, not_or] at noOpen noClose
    obtain ⟨scanned, rescanned, same⟩ := ih noOpen.2 noClose.2 (scan.store c rest)
    refine ⟨scanned, ?_, ?_⟩
    · rw [scanSpec, if_neg fun opens => noOpen.1 opens.1.symm, if_neg (Ne.symm noClose.1)]
      exact rescanned
    · rw [same]
      unfold SpecScan.store
      cases scan.pOpen <;> rfl

theorem wellNamed_of_plain (namespaceTbl : List ClassNamespace) {hier : List UInt8}
    (nonempty : hier ≠ []) (fits : hier.length < objectHierMax)
    (plain : ∀ c ∈ [0, openParen, closeParen, atSign], c ∉ hier)
    (base : (lineage hier).head? ≠ some objectHier) : WellNamed namespaceTbl hier := by
  have noOpen : openParen ∉ hier := plain _ (by decide)
  have noClose : closeParen ∉ hier := plain _ (by decide)
  have noLibs : atSign ∉ hier := plain _ (by decide)
  have noNul : 0 ∉ hier := plain _ (by decide)
  obtain ⟨scanned, read, same⟩ := @scanSpec_plain namespaceTbl hier noOpen noClose .initial
  have few : ¬ scanned.hier.length ≥ objectHierMax := by
    rw [same]
    decide
  have filled : ∃ cs, fillSpec hier scanned = .ok cs ∧ cs.hier.bytes = hier := by
    unfold fillSpec
    rw [if_neg few]
    refine ⟨_, rfl, ?_⟩
    have whole : withoutLibs hier = hier := by rw [withoutLibs, splitLast_eq_none.mpr noLibs]
    have nothing : scanned.hier = [] := same
    dsimp only
    rw [if_pos nothing, whole]
    exact CString.strlcpy_bytes_of_fits noNul fits
  obtain ⟨cs, fills, isHier⟩ := filled
  refine ⟨nonempty, ?_, base, cs, ?_, isHier⟩
  · rintro rfl
    exact noOpen (by decide)
  · simp only [parseClassSpec, if_neg (Nat.not_le_of_lt fits), read, bind, Except.bind, fills]
    rfl

/-- Classes are found by their hierarchies. -/
structure Named (w : ClassRegistry) (named : List UInt8 → Option ClassRef) : Prop where
  table : w.classTbl.Represents {
      duplicates := false
      values := fun hier => (named hier).toList.map fun cl => initPointer (some cl)
    }
  root : named objectHier = some agClassTree
  rootSuper : w.superOf agClassTree = none
  hier : ∀ hier cl, named hier = some cl ↔ w.hierOf cl = some hier
  wellNamed : ∀ hier cl, named hier = some cl → cl ≠ agClassTree → WellNamed w.namespaceTbl hier
  super : ∀ hier cl, named hier = some cl → cl ≠ agClassTree → match splitLast colon hier with
        | none => w.superOf cl = some agClassTree
        | some (front, _) =>
          ∃ super, named front = some super ∧ super ≠ agClassTree ∧ w.superOf cl = some super

section

variable {w after : ClassRegistry} {named : List UInt8 → Option ClassRef} {p : ClassRef}
  {hier : List UInt8}

/-! ## Listing -/

theorem lookupClass_wellNamed (table : w.classTbl.Represents {
        duplicates := false
        values := fun hier => (named hier).toList.map fun cl => initPointer (some cl)
      }) (wellNamed : WellNamed w.namespaceTbl hier) : w.lookupClass hier = .ok (named hier) := by
  obtain ⟨cs, parsed, readsBack⟩ := wellNamed.readsBack
  have ordinary : ¬ (hier = [] ∨ hier = objectSpec ∨ hier = objectHier) := by
    rw [not_or, not_or]
    exact ⟨wellNamed.nonempty, wellNamed.notObjectSpec, wellNamed.ne_objectHier⟩
  have found := table.lookup hier
  rw [lookupClass, if_neg ordinary, parsed]
  simp only [bind, Except.bind, readsBack, found, TblMultimap.lookup, Multimap.lookup]
  cases named hier <;> rfl

theorem Named.lists (holds : w.Named named) (cl : ClassRef) (registered : named hier = some cl)
    (inner : cl ≠ agClassTree) :
    ∃ classes, List.Forall₂ (fun inSpec cl => w.lookupClass inSpec = .ok (some cl))
          (lineage hier) classes ∧
        classes.map w.hierOf = (lineage hier).map some ∧
        classes.getLast? = some cl ∧ w.SuperChain agClassTree classes := by
  -- by the length of the hierarchy, which is longer than that of its parent
  induction size : hier.length using Nat.strong_induction_on generalizing hier cl with
  | _ length ih =>
    have itself : w.lookupClass hier = .ok (some cl) := by
      rw [lookupClass_wellNamed holds.table (holds.wellNamed hier cl registered inner), registered]
    have itsHier := (holds.hier hier cl).mp registered
    have itsSuper := holds.super hier cl registered inner
    cases parts : splitLast colon hier with
    | none =>
      rw [parts] at itsSuper
      rw [lineage_name (splitLast_eq_none.mp parts)]
      refine ⟨[cl], .cons itself .nil, ?_, rfl, itsSuper, trivial⟩
      rw [List.map_singleton, itsHier, List.map_singleton]
    | some found =>
      obtain ⟨front, name⟩ := found
      rw [parts] at itsSuper
      obtain ⟨super, above, superInner, isSuper⟩ := itsSuper
      obtain ⟨shape, noColon⟩ := splitLast_eq_some parts
      have shorter : front.length < length := by
        rw [← size, shape, List.length_append, List.length_cons]
        omega
      obtain ⟨classes, each, hiers, last, chain⟩ :=
        ih front.length shorter super above superInner rfl
      rw [shape, lineage_append front noColon, ← shape]
      refine ⟨classes ++ [cl], ?_, ?_, List.getLast?_concat, ?_⟩
      · exact List.rel_append each (.cons itself .nil)
      · rw [List.map_append, hiers, List.map_singleton, itsHier,
          List.map_append, List.map_singleton]
      · rw [superChain_concat, last]
        exact ⟨chain, isSuper⟩

theorem Named.allInherit (holds : w.Named named) : w.AllInherit := by
  intro cl inner live
  obtain ⟨node, stored⟩ := Option.isSome_iff_exists.mp live
  have itsHier : w.hierOf cl = some node.cls.hier.bytes := by
    rw [hierOf, stored]
    rfl
  have registered := (holds.hier _ cl).mpr itsHier
  have wellNamed := holds.wellNamed _ cl registered inner
  obtain ⟨classes, each, hiers, last, chain⟩ := holds.lists cl registered inner
  refine ⟨_, classes, itsHier, ?_, hiers, last, chain⟩
  have loaded : w.load cl = .ok node := by rw [load, stored]
  have emptyFront : (lineage node.cls.hier.bytes).map ([] ++ ·) = lineage node.cls.hier.bytes :=
    List.map_id _
  simp only [objectGetInheritHier, loaded, bind, Except.bind, if_neg wellNamed.nonempty]
  rw [inheritFrom_eq, emptyFront]
  exact lookupAll_eq_some.mpr each

/-! ## Registering -/

/-- A class was stored with its hierarchy, below its superclass. -/
structure Stored (w after : ClassRegistry) (p super : ClassRef) (hier : List UInt8)
    (classTbl : Tbl) : Prop where
  namespaceTbl : after.namespaceTbl = w.namespaceTbl
  classTbl : after.classTbl = classTbl
  hierOf : after.hierOf = Function.update w.hierOf p (some hier)
  superOf : after.superOf = Function.update w.superOf p (some super)

theorem insertClass_represents {classTbl : Tbl} (table : classTbl.Represents {
        duplicates := false
        values := fun hier => (named hier).toList.map fun cl => initPointer (some cl)
      }) (absent : named hier = none) (p : ClassRef) :
    (¬ classTbl.Full hier → ∃ tblNew, insertClass classTbl hier p = .ok tblNew) ∧ ∀ tblNew,
        insertClass classTbl hier p = .ok tblNew → ¬ classTbl.Full hier ∧ tblNew.Represents {
              duplicates := false
              values := fun other =>
                (Function.update named hier (some p) other).toList.map
                  fun cl => initPointer (some cl)
            } := by
  obtain ⟨result, tblNew, inserted, outcome⟩ :=
    table.insert_cases hier (initPointer_copyable (some p))
  have noValue : ((named hier).toList.map fun cl => initPointer (some cl)) = [] := by
    rw [absent]
    rfl
  rw [TblMultimap.insert, if_neg (fun present => present.2 noValue)] at outcome
  have values : (Multimap.insert
          (fun hier => (named hier).toList.map fun cl => initPointer (some cl))
          hier (initPointer (some p)) : Multimap TblKey Variable) =
        fun other =>
          (Function.update named hier (some p) other).toList.map
            fun cl => initPointer (some cl) := by
    funext other
    by_cases same : other = hier
    · rw [same, Multimap.insert, Function.update_self, Function.update_self, noValue]
      rfl
    · rw [Multimap.insert, Function.update_of_ne same, Function.update_of_ne same]
  constructor
  · intro room
    rcases outcome with ⟨full, _⟩ | ⟨rfl, _⟩
    · exact absurd full room
    · refine ⟨tblNew, ?_⟩
      simp only [insertClass, inserted, bind, Except.bind]
      rfl
  · intro other done
    have room : ¬ classTbl.Full hier := by
      intro full
      obtain ⟨error, tblFull, refused⟩ := table.insert_full full (initPointer (some p))
      simp only [insertClass, refused, bind, Except.bind] at done
      cases done
    refine ⟨room, ?_⟩
    rcases outcome with ⟨full, _⟩ | ⟨rfl, represents⟩
    · exact absurd full room
    · simp only [insertClass, inserted, bind, Except.bind] at done
      cases done
      rw [← values]
      exact represents

theorem registerClass_eq_ok {cl : ObjectClass} (registered : w.registerClass p cl = .ok after) :
    ∃ cs super classTbl, parseClassSpec w.namespaceTbl cl.hier.bytes = .ok (some cs) ∧
        w.superClass cs.hier.bytes = .ok super ∧
        insertClass w.classTbl cs.hier.bytes p = .ok classTbl ∧
        Stored w after p super cs.hier.bytes classTbl := by
  obtain ⟨parsed, parse, rest⟩ := bind_eq_ok.mp registered
  cases parsed with
  | none => cases rest
  | some cs =>
    obtain ⟨super, isSuper, rest⟩ := bind_eq_ok.mp rest
    obtain ⟨node, loaded, rest⟩ := bind_eq_ok.mp rest
    obtain ⟨classTbl, inserted, result⟩ := bind_eq_ok.mp rest
    cases result
    have sameHier : (initClass cl cs.hier.bytes cs.libs.bytes).hier = cs.hier :=
      CString.strlcpy_bytes cs.hier
    rw [sameHier] at inserted
    obtain ⟨nodeHier, nodeSuper⟩ := load_eq_ok loaded
    refine ⟨cs, super, classTbl, parse, isSuper, inserted, rfl, rfl, ?_, ?_⟩
    · change ClassRegistry.hierOf (ClassRegistry.setNode _ super _) = _
      rw [hierOf_setNode]
      dsimp only
      rw [← nodeHier, Function.update_eq_self, hierOf_setNode, sameHier]
    · change ClassRegistry.superOf (ClassRegistry.setNode _ super _) = _
      rw [superOf_setNode]
      dsimp only
      rw [← nodeSuper, Function.update_eq_self, superOf_setNode]

theorem registerClass_of_found {cl : ObjectClass} {cs : ObjectClassSpec} {super : ClassRef}
    {classTbl : Tbl} (parse : parseClassSpec w.namespaceTbl cl.hier.bytes = .ok (some cs))
    (isSuper : w.superClass cs.hier.bytes = .ok super)
    (live : ∃ superHier, w.hierOf super = some superHier)
    (inserted : insertClass w.classTbl cs.hier.bytes p = .ok classTbl) :
    ∃ after, w.registerClass p cl = .ok after := by
  have sameHier : (initClass cl cs.hier.bytes cs.libs.bytes).hier = cs.hier :=
    CString.strlcpy_bytes cs.hier
  let stored := w.setNode p
    { cls := initClass cl cs.hier.bytes cs.libs.bytes
      super := some super
      sub := [] }
  have liveAfter : ∃ superHier, stored.hierOf super = some superHier := by
    rw [hierOf_setNode]
    by_cases same : super = p
    · rw [same, Function.update_self]
      exact ⟨_, rfl⟩
    · rw [Function.update_of_ne same]
      exact live
  obtain ⟨superHier, itsHier⟩ := liveAfter
  obtain ⟨node, loaded, _⟩ := load_of_hierOf itsHier
  have sameTable : insertClass (stored.setNode super
          { node with sub := node.sub ++ [p] }).classTbl
          (initClass cl cs.hier.bytes cs.libs.bytes).hier.bytes p =
        .ok classTbl := by
    rw [sameHier]
    exact inserted
  refine ⟨{ stored.setNode super { node with sub := node.sub ++ [p] } with
    classTbl := classTbl }, ?_⟩
  unfold registerClass
  rw [parse]
  simp only [bind, Except.bind, isSuper]
  rw [loaded]
  dsimp only
  rw [sameTable]
  rfl

theorem hierOf_fresh (fresh : w.node p = none) : w.hierOf p = none := by
  rw [hierOf, fresh]
  rfl

theorem Named.register {super : ClassRef} {classTbl : Tbl} (holds : w.Named named)
    (stored : Stored w after p super hier classTbl) (table : classTbl.Represents {
        duplicates := false
        values := fun other =>
          (Function.update named hier (some p) other).toList.map fun cl => initPointer (some cl)
      }) (fresh : w.node p = none) (absent : named hier = none)
    (wellNamed : WellNamed w.namespaceTbl hier) (above : match splitLast colon hier with
      | none => super = agClassTree
      | some (front, _) => named front = some super ∧ super ≠ agClassTree) :
    after.Named (Function.update named hier (some p)) := by
  have noHier := hierOf_fresh fresh
  have inUse {other : List UInt8} {cl : ClassRef} (registered : named other = some cl) :
      cl ≠ p := by
    rintro rfl
    have itsHier := (holds.hier other cl).mp registered
    rw [noHier] at itsHier
    cases itsHier
  refine ⟨?_, ?_, ?_, fun other cl => ?_, fun other cl registered inner => ?_,
    fun other cl registered inner => ?_⟩
  · rw [stored.classTbl]
    exact table
  · rw [Function.update_of_ne wellNamed.ne_objectHier.symm]
    exact holds.root
  · rw [stored.superOf, Function.update_of_ne (inUse holds.root)]
    exact holds.rootSuper
  · rw [stored.hierOf]
    by_cases here : other = hier <;> by_cases there : cl = p
    · rw [here, there, Function.update_self, Function.update_self]
      exact ⟨fun _ => rfl, fun _ => rfl⟩
    · rw [here, Function.update_self, Function.update_of_ne there,
        ← holds.hier, absent, Option.some.injEq]
      exact ⟨fun same => absurd same.symm there, nofun⟩
    · rw [there, Function.update_of_ne here, Function.update_self,
        holds.hier, noHier, Option.some.injEq]
      exact ⟨nofun, fun same => absurd same.symm here⟩
    · rw [Function.update_of_ne here, Function.update_of_ne there]
      exact holds.hier other cl
  · rw [stored.namespaceTbl]
    by_cases here : other = hier
    · rw [here]
      exact wellNamed
    · rw [Function.update_of_ne here] at registered
      exact holds.wellNamed other cl registered inner
  · rw [stored.superOf]
    by_cases here : other = hier
    · rw [here, Function.update_self, Option.some.injEq] at registered
      rw [here, ← registered, Function.update_self]
      split
      case h_1 parts =>
        rw [parts] at above
        rw [above]
      case h_2 front name parts =>
        rw [parts] at above
        obtain ⟨found, superInner⟩ := above
        have different : front ≠ hier := by
          rintro rfl
          rw [absent] at found
          cases found
        exact ⟨super, by rw [Function.update_of_ne different, found], superInner, rfl⟩
    · rw [Function.update_of_ne here] at registered
      have old := holds.super other cl registered inner
      rw [Function.update_of_ne (inUse registered)]
      split
      case h_1 parts =>
        rw [parts] at old
        exact old
      case h_2 front name parts =>
        rw [parts] at old
        obtain ⟨itsSuper, found, superInner, isSuper⟩ := old
        have different : front ≠ hier := by
          rintro rfl
          rw [absent] at found
          cases found
        exact ⟨itsSuper, by rw [Function.update_of_ne different, found], superInner, isSuper⟩

/-! ## Calls -/

/--
The class is not in use; its hierarchy is not that of another class; and the
parts of its hierarchy are hierarchies of registered classes.
-/
def Admitted (w : ClassRegistry) (call : ClassRef × ObjectClass) : Prop :=
  w.node call.1 = none ∧ ∀ cs, parseClassSpec w.namespaceTbl call.2.hier.bytes = .ok (some cs) →
        (∀ cl, w.hierOf cl ≠ some cs.hier.bytes) ∧ ∀ front ∈ lineage cs.hier.bytes,
            front ≠ cs.hier.bytes → ∃ cl, w.hierOf cl = some front

/--
The specification is read, without an overflow, as a hierarchy that can be
looked up, and the class table has room for it.
-/
def ReadsWell (w : ClassRegistry) (call : ClassRef × ObjectClass) : Prop :=
  ∃ cs, parseClassSpec w.namespaceTbl call.2.hier.bytes = .ok (some cs) ∧
      WellNamed w.namespaceTbl cs.hier.bytes ∧
      ¬ w.classTbl.Full cs.hier.bytes

/-- Register a class, where that is defined and not fatal. -/
def step (w : ClassRegistry) (call : ClassRef × ObjectClass) : Option ClassRegistry :=
  (w.registerClass call.1 call.2).toOption

theorem Named.superClass (holds : w.Named named) (wellNamed : WellNamed w.namespaceTbl hier)
    (ancestors : ∀ front ∈ lineage hier, front ≠ hier → ∃ cl, w.hierOf cl = some front) :
    ∃ super superHier, w.superClass hier = .ok super ∧ w.hierOf super = some superHier ∧
        match splitLast colon hier with
        | none => super = agClassTree
        | some (front, _) => named front = some super ∧ super ≠ agClassTree := by
  have root := (holds.hier objectHier agClassTree).mp holds.root
  cases parts : splitLast colon hier with
  | none =>
    refine ⟨agClassTree, objectHier, ?_, root, rfl⟩
    rw [ClassRegistry.superClass, parts]
  | some found =>
    obtain ⟨front, name⟩ := found
    obtain ⟨shape, noColon⟩ := splitLast_eq_some parts
    have splits : lineage hier = lineage front ++ [hier] := by
      rw [shape, lineage_append front noColon]
    have isPart : front ∈ lineage hier := by
      rw [splits]
      exact List.mem_append_left _ (List.mem_of_getLast? (getLast?_lineage front))
    have different : front ≠ hier := by
      intro same
      have length := congrArg List.length shape
      rw [List.length_append, List.length_cons, same] at length
      omega
    obtain ⟨super, itsHier⟩ := ancestors front isPart different
    have registered := (holds.hier front super).mpr itsHier
    have inner : super ≠ agClassTree := by
      rintro rfl
      rw [root, Option.some.injEq] at itsHier
      apply wellNamed.base
      rw [splits, ← itsHier]
      rfl
    refine ⟨super, front, ?_, itsHier, registered, inner⟩
    have found := lookupClass_wellNamed holds.table (holds.wellNamed front super registered inner)
    rw [registered] at found
    simp only [ClassRegistry.superClass, parts, found, bind, Except.bind]
    rfl

theorem Named.step {call : ClassRef × ObjectClass} (holds : w.Named named)
    (admitted : w.Admitted call) (readsWell : w.ReadsWell call) :
    ∃ after, w.step call = some after ∧ ∃ namedAfter, after.Named namedAfter := by
  obtain ⟨fresh, domain⟩ := admitted
  obtain ⟨cs, parse, wellNamed, room⟩ := readsWell
  obtain ⟨distinct, ancestors⟩ := domain cs parse
  have absent : named cs.hier.bytes = none := by
    rw [Option.eq_none_iff_forall_ne_some]
    intro cl registered
    exact distinct cl ((holds.hier _ cl).mp registered)
  obtain ⟨super, superHier, isSuper, itsHier, above⟩ := holds.superClass wellNamed ancestors
  obtain ⟨inserts, represents⟩ := insertClass_represents holds.table absent call.1
  obtain ⟨classTbl, inserted⟩ := inserts room
  obtain ⟨after, registered⟩ := registerClass_of_found parse isSuper ⟨superHier, itsHier⟩ inserted
  refine ⟨after, toOption_eq_some.mpr registered,
    Function.update named cs.hier.bytes (some call.1), ?_⟩
  obtain ⟨other, otherSuper, otherTbl, otherParse, otherIsSuper,
    otherInserted, stored⟩ := registerClass_eq_ok registered
  rw [parse] at otherParse
  cases otherParse
  rw [isSuper] at otherIsSuper
  cases otherIsSuper
  rw [inserted] at otherInserted
  cases otherInserted
  exact holds.register stored (represents classTbl inserted).2 fresh absent wellNamed above

theorem Named.readsWell {call : ClassRef × ObjectClass} (holds : w.Named named)
    (admitted : w.Admitted call) (taken : w.step call = some after)
    (allInherit : after.AllInherit) : w.ReadsWell call := by
  obtain ⟨fresh, domain⟩ := admitted
  obtain ⟨cs, super, classTbl, parse, _, inserted, stored⟩ :=
    registerClass_eq_ok (toOption_eq_some.mp taken)
  obtain ⟨distinct, _⟩ := domain cs parse
  have absent : named cs.hier.bytes = none := by
    rw [Option.eq_none_iff_forall_ne_some]
    intro cl registered
    exact distinct cl ((holds.hier _ cl).mp registered)
  obtain ⟨_, represents⟩ := insertClass_represents holds.table absent call.1
  obtain ⟨room, table⟩ := represents classTbl inserted
  have root := (holds.hier objectHier agClassTree).mp holds.root
  have inner : agClassTree ≠ call.1 := by
    intro same
    rw [same, hierOf_fresh fresh] at root
    cases root
  have itsHier : after.hierOf call.1 = some cs.hier.bytes := by
    rw [stored.hierOf, Function.update_self]
  obtain ⟨node, stores, sameHier⟩ := Option.map_eq_some_iff.mp itsHier
  obtain ⟨hier, classes, isHier, listed, _, last, chain⟩ :=
    allInherit call.1 inner.symm (Option.isSome_iff_exists.mpr ⟨node, stores⟩)
  rw [itsHier, Option.some.injEq] at isHier
  subst isHier
  have loaded : after.load call.1 = .ok node := by rw [load, stores]
  have nonempty : cs.hier.bytes ≠ [] := by
    intro empty
    simp only [objectGetInheritHier, loaded, bind, Except.bind, sameHier, if_pos empty] at listed
    cases listed
    cases last
  simp only [objectGetInheritHier, loaded, bind, Except.bind, sameHier, if_neg nonempty] at listed
  have emptyFront : (lineage cs.hier.bytes).map ([] ++ ·) = lineage cs.hier.bytes := List.map_id _
  rw [inheritFrom_eq, emptyFront] at listed
  have each := lookupAll_eq_some.mp listed
  have found : after.lookupClass cs.hier.bytes = .ok (some call.1) :=
    forall₂_getLast? each (getLast?_lineage _) last
  have ordinary : ¬ (cs.hier.bytes = [] ∨ cs.hier.bytes = objectSpec ∨
        cs.hier.bytes = objectHier) := by
    intro special
    rw [lookupClass, if_pos special, Except.ok.injEq, Option.some.injEq] at found
    exact inner found
  rw [lookupClass, if_neg ordinary] at found
  rw [not_or, not_or] at ordinary
  refine ⟨cs, parse, ⟨nonempty, ordinary.2.1, fun base => ?_, ?_⟩, room⟩
  · -- the base class would be `agObjectClass`, which has no superclass
    obtain ⟨first, isFirst, baseFound⟩ := forall₂_head? each base
    rw [lookupClass, if_pos (.inr (.inr rfl)), Except.ok.injEq, Option.some.injEq] at baseFound
    rw [List.head?_eq_some_iff] at isFirst
    obtain ⟨rest, shape⟩ := isFirst
    rw [shape, ← baseFound] at chain
    have rootSuper := chain.1
    rw [stored.superOf, Function.update_of_ne inner, holds.rootSuper] at rootSuper
    cases rootSuper
  · obtain ⟨parsed, reading, rest⟩ := bind_eq_ok.mp found
    cases parsed with
    | none => cases rest
    | some reads =>
      rw [stored.namespaceTbl] at reading
      refine ⟨reads, reading, ?_⟩
      rw [← stored.classTbl] at table
      dsimp only at rest
      rw [table.lookup] at rest
      by_contra different
      simp only [bind, Except.bind, TblMultimap.lookup, Multimap.lookup,
        Function.update_of_ne different] at rest
      cases registered : named reads.hier.bytes with
      | none =>
        rw [registered] at rest
        cases rest
      | some cl =>
        rw [registered] at rest
        cases rest
        have itsOld := (holds.hier _ _).mp registered
        rw [hierOf_fresh fresh] at itsOld
        cases itsOld

end

theorem initClassTbl_named : ∃ w, initClassTbl = .ok w ∧ w.namespaceTbl = [agarNamespace] ∧
        w.hierOf = Function.update (fun _ => none) agClassTree (some objectHier) ∧
        ∀ namespaceTbl, { w with namespaceTbl := namespaceTbl }.Named
            (Function.update (fun _ => none) objectHier (some agClassTree)) := by
  have empty : (tblInit true 256 0).2.Represents {
        duplicates := false
        values := fun hier =>
          ((fun _ => none : List UInt8 → Option ClassRef) hier).toList.map
            fun cl => initPointer (some cl)
      } :=
    tblInit_represents (by decide)
  obtain ⟨inserts, represents⟩ := @insertClass_represents _ objectHier _ empty rfl agClassTree
  obtain ⟨classTbl, inserted⟩ := inserts (by decide +kernel)
  have objectHierarchy : (initClass agObjectClass objectHier []).hier.bytes = objectHier := by
    decide +kernel
  let node : ClassNode :=
    { cls := initClass agObjectClass objectHier []
      super := none
      sub := [] }
  let w : ClassRegistry :=
    { namespaceTbl := [agarNamespace]
      node := Function.update (fun _ => none) agClassTree (some node)
      classTbl := classTbl }
  have hiers : w.hierOf = Function.update (fun _ => none) agClassTree (some objectHier) := by
    funext cl
    by_cases same : cl = agClassTree
    · simp [same, hierOf, w, node, objectHierarchy]
    · simp [same, hierOf, w]
  have onlyRoot {hier : List UInt8} {cl : ClassRef}
      (registered : Function.update (fun _ => none) objectHier (some agClassTree) hier = some cl) :
      cl = agClassTree := by
    by_cases same : hier = objectHier
    · rw [same, Function.update_self] at registered
      exact (Option.some.inj registered).symm
    · rw [Function.update_of_ne same] at registered
      cases registered
  refine ⟨w, ?_, rfl, hiers, fun namespaceTbl => ?_⟩
  · simp only [initClassTbl, inserted, bind, Except.bind]
    rfl
  · refine ⟨(represents classTbl inserted).2, Function.update_self .., ?_, fun hier cl => ?_,
      fun hier cl registered inner => absurd (onlyRoot registered) inner,
      fun hier cl registered inner => absurd (onlyRoot registered) inner⟩
    · simp [superOf, w, node]
    · change _ ↔ w.hierOf cl = some hier
      rw [hiers]
      by_cases here : hier = objectHier <;> by_cases there : cl = agClassTree
      · rw [here, there, Function.update_self, Function.update_self]
        exact ⟨fun _ => rfl, fun _ => rfl⟩
      · rw [here, Function.update_self, Function.update_of_ne there, Option.some.injEq]
        exact ⟨fun same => absurd same.symm there, nofun⟩
      · rw [there, Function.update_of_ne here, Function.update_self, Option.some.injEq]
        exact ⟨nofun, fun same => absurd same.symm here⟩
      · rw [Function.update_of_ne here, Function.update_of_ne there]
        exact ⟨nofun, nofun⟩

end ClassRegistry

/--
After `AG_InitClassTbl`, and with any namespaces, every class lists the classes
that it inherits from, after each call of a sequence, exactly when each
specification reads well.
-/
theorem classes_inherit_iff (others : List ClassNamespace) (calls : List (ClassRef × ObjectClass)) :
    ∃ w, initClassTbl = .ok w ∧ (EachStep ClassRegistry.step ClassRegistry.Admitted
            { w with namespaceTbl := w.namespaceTbl ++ others } calls →
          (RunsWell ClassRegistry.step ClassRegistry.AllInherit
              { w with namespaceTbl := w.namespaceTbl ++ others } calls ↔
            EachStep ClassRegistry.step ClassRegistry.ReadsWell
              { w with namespaceTbl := w.namespaceTbl ++ others }
              calls)) := by
  obtain ⟨w, initialised, _, _, named⟩ := ClassRegistry.initClassTbl_named
  refine ⟨w, initialised, fun admitted => ?_⟩
  refine runsWell_iff_eachStep_of_admitted
    (fun w => ∃ named, w.Named named) ?_ ?_ ?_ ⟨_, named _⟩ admitted
  · rintro state ⟨named, holds⟩
    exact holds.allInherit
  · rintro state call ⟨named, holds⟩ admits readsWell
    exact holds.step admits readsWell
  · rintro state call next ⟨named, holds⟩ admits taken allInherit
    exact holds.readsWell admits taken allInherit

/-! ## Some classes -/

def classOf (spec : List UInt8) : ObjectClass where
  hier := .strlcpy spec
  name := .strlcpy []
  libs := .strlcpy []
  ver := { major := 0, minor := 0 }

def hierOfSpec (namespaceTbl : List ClassNamespace) (spec : List UInt8) : Option (List UInt8) :=
  match parseClassSpec namespaceTbl spec with
  | .ok (some cs) => some cs.hier.bytes
  | _ => none

theorem hierOfSpec_eq_some {namespaceTbl : List ClassNamespace} {spec hier : List UInt8}
    (read : hierOfSpec namespaceTbl spec = some hier) :
    ∃ cs, parseClassSpec namespaceTbl spec = .ok (some cs) ∧ cs.hier.bytes = hier := by
  unfold hierOfSpec at read
  split at read
  case h_1 cs parsed => exact ⟨cs, parsed, Option.some.inj read⟩
  case h_2 => cases read

theorem ClassRegistry.admitted_of_hierOf {w : ClassRegistry} {p : ClassRef} {cl : ObjectClass}
    {hier : List UInt8} (fresh : w.hierOf p = none)
    (read : hierOfSpec w.namespaceTbl cl.hier.bytes = some hier)
    (distinct : ∀ other, w.hierOf other ≠ some hier)
    (ancestors : ∀ front ∈ lineage hier, front ≠ hier → ∃ cl, w.hierOf cl = some front) :
    w.Admitted (p, cl) := by
  obtain ⟨cs, parsed, rfl⟩ := hierOfSpec_eq_some read
  refine ⟨Option.map_eq_none_iff.mp fresh, fun other otherParsed => ?_⟩
  rw [parsed] at otherParsed
  cases otherParsed
  exact ⟨distinct, ancestors⟩

theorem ClassRegistry.hierOf_of_step {w next : ClassRegistry} {call : ClassRef × ObjectClass}
    {hier : List UInt8} (taken : w.step call = some next)
    (read : hierOfSpec w.namespaceTbl call.2.hier.bytes = some hier) :
    next.namespaceTbl = w.namespaceTbl ∧
      next.hierOf = Function.update w.hierOf call.1 (some hier) := by
  obtain ⟨cs, parsed, rfl⟩ := hierOfSpec_eq_some read
  obtain ⟨other, _, _, otherParsed, _, _, stored⟩ :=
    ClassRegistry.registerClass_eq_ok (toOption_eq_some.mp taken)
  rw [parsed] at otherParsed
  cases otherParsed
  exact ⟨stored.namespaceTbl, stored.hierOf⟩

theorem update_ne_some {hiers : ClassRef → Option (List UInt8)} {p : ClassRef}
    {stored hier : List UInt8} (different : stored ≠ hier) (others : ∀ cl, hiers cl ≠ some hier)
    (cl : ClassRef) : Function.update hiers p (some stored) cl ≠ some hier := by
  by_cases same : cl = p
  · rw [same, Function.update_self]
    exact fun equal => different (Option.some.inj equal)
  · rw [Function.update_of_ne same]
    exact others cl

theorem classes_inherit_iff_button : ∃ w, initClassTbl = .ok w ∧
        RunsWell ClassRegistry.step ClassRegistry.AllInherit
          { w with namespaceTbl := w.namespaceTbl ++ [] }
          [(1, classOf (ascii "Agar(Widget)@agar-gui")),
            (2, classOf (ascii "Agar(Widget:Button)@agar-gui"))] := by
  obtain ⟨w, initialised, iff⟩ :=
    classes_inherit_iff []
      [(1, classOf (ascii "Agar(Widget)@agar-gui")),
        (2, classOf (ascii "Agar(Widget:Button)@agar-gui"))]
  obtain ⟨other, otherInitialised, namespaces, hiers, _⟩ := ClassRegistry.initClassTbl_named
  rw [initialised, Except.ok.injEq] at otherInitialised
  subst otherInitialised
  have start : { w with namespaceTbl := w.namespaceTbl ++ [] } = w := by rw [List.append_nil]
  have readWidget : hierOfSpec w.namespaceTbl (classOf (ascii "Agar(Widget)@agar-gui")).hier.bytes =
        some (ascii "AG_Widget") := by
    rw [namespaces]
    decide +kernel
  have readButton : hierOfSpec w.namespaceTbl
          (classOf (ascii "Agar(Widget:Button)@agar-gui")).hier.bytes =
        some (ascii "AG_Widget:AG_Button") := by
    rw [namespaces]
    decide +kernel
  have roomAtFirst : initClassTbl.toOption.all
          (fun w => ¬ w.classTbl.Full (ascii "AG_Widget")) = true := by
    decide +kernel
  have roomLater : (initClassTbl.toOption.bind fun w =>
        w.step (1, classOf (ascii "Agar(Widget)@agar-gui"))).all
          (fun w => ¬ w.classTbl.Full (ascii "AG_Widget:AG_Button")) =
        true := by
    decide +kernel
  rw [initialised] at roomAtFirst roomLater
  refine ⟨w, initialised, (iff ?_).mpr ?_⟩ <;> rw [start]
  · refine ⟨?_, fun next taken => ⟨?_, fun _ _ => trivial⟩⟩
    · apply ClassRegistry.admitted_of_hierOf _ readWidget
      · rw [hiers]
        exact update_ne_some (by decide) nofun
      · have parts : lineage (ascii "AG_Widget") = [ascii "AG_Widget"] := by
          decide
        rw [parts]
        intro front member different
        exact absurd (List.mem_singleton.mp member) different
      · rw [hiers]
        rfl
    · obtain ⟨sameNamespaces, hiersNext⟩ :=
        ClassRegistry.hierOf_of_step taken readWidget
      rw [← sameNamespaces] at readButton
      apply ClassRegistry.admitted_of_hierOf _ readButton
      · rw [hiersNext, hiers]
        exact update_ne_some (by decide) (update_ne_some (by decide) nofun)
      · have parts : lineage (ascii "AG_Widget:AG_Button") =
              [ascii "AG_Widget", ascii "AG_Widget:AG_Button"] := by
          decide
        rw [parts]
        intro front member different
        rcases List.mem_pair.mp member with rfl | rfl
        · exact ⟨1, by rw [hiersNext, Function.update_self]⟩
        · exact absurd rfl different
      · rw [hiersNext, hiers]
        rfl
  · refine ⟨?_, fun next taken => ⟨?_, fun _ _ => trivial⟩⟩
    · obtain ⟨cs, parsed, isWidget⟩ := hierOfSpec_eq_some readWidget
      refine ⟨cs, parsed, ?_, ?_⟩ <;> rw [isWidget]
      · exact ClassRegistry.wellNamed_of_plain _ (by decide)
          (by decide +kernel) (by decide +kernel) (by decide)
      · exact of_decide_eq_true roomAtFirst
    · obtain ⟨sameNamespaces, _⟩ :=
        ClassRegistry.hierOf_of_step taken readWidget
      obtain ⟨cs, parsed, isButton⟩ := hierOfSpec_eq_some readButton
      rw [← sameNamespaces] at parsed
      refine ⟨cs, parsed, ?_, ?_⟩ <;> rw [isButton]
      · exact ClassRegistry.wellNamed_of_plain _ (by decide)
          (by decide +kernel) (by decide +kernel) (by decide)
      · change (w.step _).all _ = true at roomLater
        rw [taken] at roomLater
        exact of_decide_eq_true roomLater

def longNames : List (List UInt8) :=
  [List.replicate 100 65, List.replicate 100 66, List.replicate 47 67]

/-- The specification of the class of some names in the namespace `Agar` -/
def agarSpec (names : List (List UInt8)) : List UInt8 :=
  ascii "Agar(" ++ joined names ++ [closeParen]

theorem long_hierarchy_overflows : ∃ w, initClassTbl = .ok w ∧
        EachStep ClassRegistry.step ClassRegistry.Admitted w
          [(1, classOf (agarSpec (longNames.take 1))), (2, classOf (agarSpec (longNames.take 2))),
            (3, classOf (agarSpec longNames))] ∧
        ¬ RunsWell ClassRegistry.step ClassRegistry.AllInherit w
          [(1, classOf (agarSpec (longNames.take 1))), (2, classOf (agarSpec (longNames.take 2))),
            (3, classOf (agarSpec longNames))] := by
  obtain ⟨w, initialised, namespaces, hiers, _⟩ := ClassRegistry.initClassTbl_named
  have firstRead : hierOfSpec w.namespaceTbl (classOf (agarSpec (longNames.take 1))).hier.bytes =
        some (ascii "AG_" ++ List.replicate 100 65) := by
    rw [namespaces]
    decide +kernel
  have secondRead : hierOfSpec w.namespaceTbl (classOf (agarSpec (longNames.take 2))).hier.bytes =
        some (ascii "AG_" ++ List.replicate 100 65 ++ ascii ":AG_" ++ List.replicate 100 66) := by
    rw [namespaces]
    decide +kernel
  have overflows : parseClassSpec w.namespaceTbl (classOf (agarSpec longNames)).hier.bytes =
        .error .undefined := by
    rw [namespaces]
    decide +kernel
  refine ⟨w, initialised, ?_, ?_⟩
  · refine ⟨?_, fun first taken => ⟨?_, fun second takenToo => ⟨?_, ?_⟩⟩⟩
    · apply ClassRegistry.admitted_of_hierOf _ firstRead
      · rw [hiers]
        exact update_ne_some (by decide +kernel) nofun
      · have parts : lineage (ascii "AG_" ++ List.replicate 100 65) =
              [ascii "AG_" ++ List.replicate 100 65] := by
          decide +kernel
        rw [parts]
        intro front member different
        exact absurd (List.mem_singleton.mp member) different
      · rw [hiers]
        rfl
    · obtain ⟨sameNamespaces, hiersFirst⟩ :=
        ClassRegistry.hierOf_of_step taken firstRead
      rw [← sameNamespaces] at secondRead
      apply ClassRegistry.admitted_of_hierOf _ secondRead
      · rw [hiersFirst, hiers]
        exact update_ne_some (by decide +kernel) (update_ne_some (by decide +kernel) nofun)
      · have parts : lineage (ascii "AG_" ++ List.replicate 100 65 ++
                ascii ":AG_" ++ List.replicate 100 66) =
              [ascii "AG_" ++ List.replicate 100 65, ascii "AG_" ++ List.replicate 100 65 ++
                  ascii ":AG_" ++ List.replicate 100 66] := by
          decide +kernel
        rw [parts]
        intro front member different
        rcases List.mem_pair.mp member with rfl | rfl
        · exact ⟨1, by rw [hiersFirst, Function.update_self]⟩
        · exact absurd rfl different
      · rw [hiersFirst, hiers]
        rfl
    · obtain ⟨sameFirst, hiersFirst⟩ :=
        ClassRegistry.hierOf_of_step taken firstRead
      rw [← sameFirst] at secondRead overflows
      obtain ⟨sameSecond, hiersSecond⟩ := ClassRegistry.hierOf_of_step takenToo secondRead
      have unused : second.hierOf 3 = none := by
        rw [hiersSecond, hiersFirst, hiers]
        rfl
      refine ⟨Option.map_eq_none_iff.mp unused, fun cs parsed => ?_⟩
      rw [sameSecond, overflows] at parsed
      cases parsed
    · exact fun _ _ => trivial
  · rintro ⟨_, first, taken, _, second, takenToo, _, third, last, _⟩
    obtain ⟨sameFirst, _⟩ := ClassRegistry.hierOf_of_step taken firstRead
    rw [← sameFirst] at secondRead overflows
    obtain ⟨sameSecond, _⟩ := ClassRegistry.hierOf_of_step takenToo secondRead
    rw [← sameSecond] at overflows
    obtain ⟨cs, _, _, parsed, _⟩ := ClassRegistry.registerClass_eq_ok (toOption_eq_some.mp last)
    rw [overflows] at parsed
    cases parsed

end Agar.Core
