import Agar.Core.VariableStore
import Agar.Lib.Forest

namespace Agar.Core

open Agar.Lib

/-!
# References between variables

`AG_BindVariable` makes a variable of an object stand for a variable of any
other object, and the lookup of a variable follows such references.  Here the
objects are the elements of a type, and a state gives the variables of each.
What a name of an object refers to is a parent function; the lookup returns
where following it comes to an end.
-/

/-- What a variable holds: a reference, or the value of another type -/
inductive LinkedContent (ω : Type) where
  | reference (tgtObj : ω) (tgtKey : List UInt8)
  | value
    (type : VariableType)
    (data : VariableData)
    (notReference : type ≠ .pVariable)

/-- A variable that may be a reference -/
structure LinkedVariable (ω : Type) where
  name : CString variableNameMax
  content : LinkedContent ω

variable {ω : Type}

namespace LinkedContent

/-- What a reference refers to -/
def target : LinkedContent ω → Option (ω × List UInt8)
  | reference tgtObj tgtKey => some (tgtObj, tgtKey)
  | value _ _ _ => none

/-- `AG_InitVariable` of a type that is not a reference -/
def init (type : VariableType) (notReference : type ≠ .pVariable) : LinkedContent ω :=
  value type (.s 0) notReference

/--
The body of `FN_VARIABLE_SET` behind `AG_FetchVariable`.  Where the variable
holds an address, the value goes there, which is where the target object
begins if it is a reference; the variable stays as it is.
-/
def set (v : VariableData) : LinkedContent ω → Option (LinkedContent ω)
  | reference tgtObj tgtKey => some (reference tgtObj tgtKey)
  | value type data notReference =>
    if (agVariableTypes type).indirLvl > 0 then
      match data.address with
      | some address => if address = 0 then none else some (value type data notReference)
      | none => none
    else some (value type v notReference)

/--
The switch of `AG_SetString` and of `AG_SetStringNODUP`, for a string at an
address
-/
def setString (s : Address) : LinkedContent ω → LinkedContent ω
  | value .pString data notReference => value .pString data notReference
  | _ => value .string (.s s) (by decide)

theorem target_set {v : VariableData} {content changed : LinkedContent ω}
    (stored : content.set v = some changed) : changed.target = content.target := by
  cases content with
  | reference tgtObj tgtKey => rw [← Option.some.inj stored]
  | value type data notReference =>
    rw [set] at stored
    grind [target]

theorem target_setString (s : Address) (content : LinkedContent ω) :
    (content.setString s).target = none := by
  unfold setString
  split <;> rfl

end LinkedContent

theorem SetCall.ntype_ne_pVariable (call : SetCall) : call.ntype ≠ .pVariable := by
  cases call <;> exact nofun

/-- A call for the variable of a name of an object -/
inductive ReferenceCall (ω : Type) where
  /-- `AG_BindVariable` -/
  | bindVariable (tgtObj : ω) (tgtKey : List UInt8)
  /-- `AG_SetFoo` -/
  | set (call : SetCall)
  /-- `AG_SetString` and `AG_SetStringNODUP`, for a string at an address -/
  | setString (s : Address)
  /-- `AG_SetConstString` of a string at an address -/
  | setConstString (s : Address)

namespace ReferenceCall

/-- The content that a call begins with where the variable is new -/
def initial : ReferenceCall ω → LinkedContent ω
  | bindVariable tgtObj tgtKey => .reference tgtObj tgtKey
  | set call => .init call.ntype call.ntype_ne_pVariable
  | setString _ => .init .string (by decide)
  | setConstString _ => .init .constString (by decide)

/-- What a call does to the content of a variable -/
def change : ReferenceCall ω → LinkedContent ω → Option (LinkedContent ω)
  | bindVariable tgtObj tgtKey, _ => some (.reference tgtObj tgtKey)
  | set call, content => content.set call.data
  | setString s, content => some (content.setString s)
  | setConstString s, _ => some (.value .constString (.Cs s) (by decide))

end ReferenceCall

/-- The variables of every object -/
abbrev VariableGraph (ω : Type) := ω → List (LinkedVariable ω)

namespace VariableGraph

/-- Objects without variables -/
def empty : VariableGraph ω := fun _ => []

/-- The variable that a name finds -/
def find (g : VariableGraph ω) (obj : ω) (name : List UInt8) : Option (LinkedVariable ω) :=
  (g obj).find? fun V => V.name.bytes = name

/--
`AG_GetVariableLocked`, which calls itself for the target of a reference; the
number bounds the depth of the calls
-/
def getVariableLocked (g : VariableGraph ω) :
    Nat → ω → List UInt8 → Option (Option (LinkedVariable ω))
  | 0, _, _ => none
  | depth + 1, obj, name =>
    match g.find obj name with
    | none => some none
    | some V =>
      match V.content with
      | .reference tgtObj tgtKey => getVariableLocked g depth tgtObj tgtKey
      | .value _ _ _ => some (some V)

/-- Make a call for the variable of a name of an object. -/
def call [DecidableEq ω] (g : VariableGraph ω) :
    ω × List UInt8 × ReferenceCall ω → Option (VariableGraph ω)
  | (obj, name, call) =>
    match g.find obj name with
    | some V => do
        let content ← call.change V.content
        return Function.update g obj (updateFirst (fun W => W.name.bytes = name)
            (fun W => { W with content := content }) (g obj))
    | none => do
        let content ← call.change call.initial
        return Function.update g obj (g obj ++ [{ name := .strlcpy name, content := content }])

/-! ## Chains of references -/

/-- What the variable of a name refers to -/
def referent (g : VariableGraph ω) (place : ω × List UInt8) : Option (ω × List UInt8) :=
  (g.find place.1 place.2).bind fun V => V.content.target

/--
The lookup of a name ends, however deep its calls may go, at the variable
behind the last reference, which is no reference itself, or at no variable.
-/
def Resolves (g : VariableGraph ω) (place : ω × List UInt8) : Prop :=
  ∃ last, Within g.referent place last ∧ (∃ depth, ∀ more,
      g.getVariableLocked (depth + more) place.1 place.2 = some (g.find last.1 last.2)) ∧
    ∀ V, g.find last.1 last.2 = some V → V.content.target = none

/-- Every lookup ends. -/
def AllResolve (g : VariableGraph ω) : Prop := ∀ place, g.Resolves place

/--
The name under which a call finds the variable that it fetched.  A variable
that is new has its name cut to the buffer; if that is the name of another
one, it is not found under any.
-/
def fetchedName (g : VariableGraph ω) (obj : ω) (name : List UInt8) : Option (List UInt8) :=
  let cut := (CString.strlcpy name : CString variableNameMax).bytes
  if (g.find obj name).isSome then some name
  else if (g.find obj cut).isSome then none
  else some cut

/--
A variable is bound to one from which no references lead to the variable that
is being bound.
-/
def Acyclic (g : VariableGraph ω) : ω × List UInt8 × ReferenceCall ω → Prop
  | (obj, name, .bindVariable tgtObj tgtKey) =>
    ∀ fetched, g.fetchedName obj name = some fetched →
      ¬ Within g.referent (tgtObj, tgtKey) (obj, fetched)
  | _ => True

/-! ## The lookup -/

variable {g : VariableGraph ω}

theorem getVariableLocked_reference {place target : ω × List UInt8}
    (refers : g.referent place = some target) (depth : Nat) :
    g.getVariableLocked (depth + 1) place.1 place.2 =
      g.getVariableLocked depth target.1 target.2 := by
  obtain ⟨V, found, isTarget⟩ := Option.bind_eq_some_iff.mp refers
  rw [getVariableLocked, found]
  cases content : V.content with
  | reference tgtObj tgtKey =>
    rw [content, LinkedContent.target, Option.some.injEq] at isTarget
    rw [← isTarget]
    simp only [content]
  | value type data notReference =>
    rw [content] at isTarget
    cases isTarget

theorem getVariableLocked_value {place : ω × List UInt8} (refersNot : g.referent place = none)
    (depth : Nat) :
    g.getVariableLocked (depth + 1) place.1 place.2 = some (g.find place.1 place.2) := by
  rw [getVariableLocked]
  cases found : g.find place.1 place.2 with
  | none => rfl
  | some V =>
    cases content : V.content with
    | reference tgtObj tgtKey =>
      rw [referent, found, Option.bind_some, content] at refersNot
      cases refersNot
    | value type data notReference => simp only [content]

theorem resolves_iff_top {place : ω × List UInt8} :
    g.Resolves place ↔ ∃ last, Top g.referent place last := by
  constructor
  · rintro ⟨last, within, _, lastIsValue⟩
    refine ⟨last, within, ?_⟩
    rw [referent, Option.bind_eq_none_iff]
    exact lastIsValue
  · rintro ⟨last, within, noReferent⟩
    refine ⟨last, within, ?_, Option.bind_eq_none_iff.mp noReferent⟩
    induction within using Relation.ReflTransGen.head_induction_on with
    | refl =>
      refine ⟨1, fun more => ?_⟩
      rw [Nat.add_comm]
      exact getVariableLocked_value noReferent more
    | head refers _ ih =>
      obtain ⟨depth, enough⟩ := ih
      refine ⟨depth + 1, fun more => ?_⟩
      rw [Nat.add_right_comm, getVariableLocked_reference refers]
      exact enough more

/-! ## What a call does to the references -/

variable [DecidableEq ω] {next : VariableGraph ω} {obj : ω} {name : List UInt8}

theorem referent_update {vars : List (LinkedVariable ω)}
    {referents : ω × List UInt8 → Option (ω × List UInt8)}
    (elsewhere : ∀ place, place.1 ≠ obj → referents place = g.referent place)
    (here : ∀ key, referents (obj, key) =
      (vars.find? fun V => V.name.bytes = key).bind fun V => V.content.target) :
    referent (Function.update g obj vars) = referents := by
  funext ⟨other, key⟩
  by_cases same : other = obj
  · rw [same, here, referent, find, Function.update_self]
  · rw [elsewhere (other, key) same, referent, find, Function.update_of_ne same]
    rfl

theorem referent_changed {V : LinkedVariable ω} (found : g.find obj name = some V)
    (content : LinkedContent ω) :
    referent (Function.update g obj (updateFirst (fun W => W.name.bytes = name)
          (fun W => { W with content := content }) (g obj))) =
      Function.update g.referent (obj, name) content.target := by
  refine referent_update (fun place other => ?_) fun key => ?_
  · exact Function.update_of_ne (fun same => other (congrArg Prod.fst same)) ..
  · by_cases same : key = name
    · have named : V.name.bytes = name := by
        simpa using List.find?_some found
      rw [same, Function.update_self, find?_updateFirst_self found (by simpa using named)]
      rfl
    · rw [Function.update_of_ne (fun other => same (congrArg Prod.snd other)),
        find?_updateFirst_other ?_ same]
      · rfl
      · exact fun _ => rfl

theorem referent_appended (W : LinkedVariable ω) : referent (Function.update g obj (g obj ++ [W])) =
      if (g.find obj W.name.bytes).isSome then g.referent
      else
        Function.update g.referent (obj, W.name.bytes) W.content.target := by
  refine referent_update (fun place other => ?_) fun key => ?_
  · split
    · rfl
    · exact Function.update_of_ne (fun same => other (congrArg Prod.fst same)) ..
  · rw [List.find?_append]
    by_cases same : key = W.name.bytes
    · subst same
      cases found : g.find obj W.name.bytes with
      | some V =>
        rw [if_pos Option.isSome_some, referent, found]
        rw [find] at found
        rw [found]
        rfl
      | none =>
        rw [if_neg nofun, Function.update_self]
        rw [find] at found
        rw [found, Option.none_or, List.find?_cons_of_pos (by simp)]
        rfl
    · have passed : [W].find? (fun V => V.name.bytes = key) = none := by
        simpa using Ne.symm same
      rw [passed, Option.or_none]
      split
      · rfl
      · exact Function.update_of_ne (fun other => same (congrArg Prod.snd other)) ..

theorem referent_call {call : ReferenceCall ω} (called : g.call (obj, name, call) = some next) :
    ∃ content, call.change (((g.find obj name).map (·.content)).getD call.initial) = some content ∧
      next.referent = match g.fetchedName obj name with
        | some fetched => Function.update g.referent (obj, fetched) content.target
        | none => g.referent := by
  rw [VariableGraph.call] at called
  cases found : g.find obj name with
  | some V =>
    rw [found] at called
    obtain ⟨content, changed, stored⟩ := Option.bind_eq_some_iff.mp called
    refine ⟨content, changed, ?_⟩
    rw [fetchedName, found, if_pos Option.isSome_some, ← Option.some.inj stored]
    exact referent_changed found content
  | none =>
    rw [found] at called
    obtain ⟨content, changed, stored⟩ := Option.bind_eq_some_iff.mp called
    refine ⟨content, changed, ?_⟩
    rw [fetchedName, found, if_neg nofun, ← Option.some.inj stored, referent_appended]
    split <;> rfl

theorem referent_set {call : ReferenceCall ω}
    (bindsNot : ∀ tgtObj tgtKey, call ≠ .bindVariable tgtObj tgtKey)
    (called : g.call (obj, name, call) = some next) :
    next.referent = g.referent ∨
      ∃ place, next.referent = Function.update g.referent place none := by
  obtain ⟨content, changed, effect⟩ := referent_call called
  cases fetched : g.fetchedName obj name with
  | none =>
    rw [fetched] at effect
    exact .inl effect
  | some key =>
    rw [fetched] at effect
    by_cases isValue : content.target = none
    · exact .inr ⟨(obj, key), isValue ▸ effect⟩
    · -- only a reference that was there before stays one
      left
      cases call with
      | bindVariable tgtObj tgtKey => exact absurd rfl (bindsNot tgtObj tgtKey)
      | setString s =>
        rw [← Option.some.inj changed, LinkedContent.target_setString] at isValue
        exact absurd rfl isValue
      | setConstString s =>
        rw [← Option.some.inj changed] at isValue
        exact absurd rfl isValue
      | set call =>
        have kept := LinkedContent.target_set changed
        cases found : g.find obj name with
        | none =>
          rw [found] at kept
          exact absurd kept isValue
        | some V =>
          rw [fetchedName, found, if_pos Option.isSome_some, Option.some.injEq] at fetched
          rw [found] at kept
          have same : content.target = g.referent (obj, key) := by
            rw [kept, ← fetched, referent, found]
            rfl
          rw [effect, same]
          exact Function.update_eq_self (obj, key) g.referent

theorem allResolve_call {input : ω × List UInt8 × ReferenceCall ω} (ends : g.AllResolve)
    (called : g.call input = some next) : next.AllResolve ↔ g.Acyclic input := by
  obtain ⟨obj, name, call⟩ := input
  simp only [AllResolve, resolves_iff_top] at ends ⊢
  have kept (bindsNot : ∀ tgtObj tgtKey, call ≠ .bindVariable tgtObj tgtKey)
      (place : ω × List UInt8) :
      ∃ last, Top next.referent place last := by
    rcases referent_set bindsNot called with same | ⟨unbound, cut⟩
    · rw [same]
      exact ends place
    · rw [cut]
      exact exists_top_update_none ends place
  cases call with
  | bindVariable tgtObj tgtKey =>
    obtain ⟨content, changed, effect⟩ := referent_call called
    obtain rfl := Option.some.inj changed
    rw [effect, Acyclic]
    cases g.fetchedName obj name with
    | none => exact ⟨nofun, fun _ => ends⟩
    | some fetched =>
      refine (exists_top_update_iff ends _).trans ?_
      simp only [Option.some.injEq, forall_eq']
  | set | setString | setConstString => exact ⟨fun _ => trivial, fun _ => kept nofun⟩

end VariableGraph

/--
From objects without variables, every lookup ends after every call, at the
variable behind the last reference or at none, exactly if no variable is bound
to one from which references lead back to it.
-/
theorem lookups_end_iff [DecidableEq ω] {calls : List (ω × List UInt8 × ReferenceCall ω)}
    {final : VariableGraph ω} (accepted : run VariableGraph.call .empty calls = some final) :
    AlwaysAlong VariableGraph.call VariableGraph.AllResolve .empty calls ↔
      EachStep VariableGraph.call VariableGraph.Acyclic .empty calls := by
  have emptyResolves : (VariableGraph.empty : VariableGraph ω).AllResolve :=
    fun place => VariableGraph.resolves_iff_top.mpr ⟨place, Top.self rfl⟩
  exact alwaysAlong_iff_eachStep (fun _ => True) (fun _ _ _ _ _ _ => trivial)
    (fun _ _ _ _ ends _ called => VariableGraph.allResolve_call ends called)
    trivial emptyResolves (eachStep_true _ _) accepted

theorem lookups_end_bound : let calls : List (Bool × List UInt8 × ReferenceCall Bool) :=
      [(true, ascii "size", .set (.setInt 5)),
        (false, ascii "width", .bindVariable true (ascii "size"))]
    AlwaysAlong VariableGraph.call VariableGraph.AllResolve .empty calls ↔
      EachStep VariableGraph.call VariableGraph.Acyclic .empty calls :=
  lookups_end_iff rfl

theorem bound_to_itself : ∃ next : VariableGraph Unit, VariableGraph.empty.call
        ((), ascii "a", .bindVariable () (ascii "a")) = some next ∧
      ∀ depth, next.getVariableLocked depth () (ascii "a") = none := by
  refine ⟨_, rfl, fun depth => ?_⟩
  induction depth with
  | zero => rfl
  | succ depth ih => exact ih

end Agar.Core
