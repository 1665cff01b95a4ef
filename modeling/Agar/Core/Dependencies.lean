import Agar.Core.Object
import Agar.Lib.UpdateFirst
import Agar.Lib.Runs

namespace Agar.Core

open Agar.Lib

/-!
# Dependencies

The dependency table of an object counts the references to each object that it
depends on.  A ledger beside it keeps the requests: how many were made and
taken back, and which of the outstanding ones asked for a persistent
dependency.
-/

/-- `AG_OBJECT_DEP_MAX` -/
def objectDepMax : UInt32 := 0xffffffff - 2

/-- `AG_OBJECT_PRESERVE_DEPS` -/
def objectPreserveDeps : UInt32 := 0x00010

namespace Object

/-- The first dependency on an object. -/
def dep? (ob : Object) (depobj : ObjRef) : Option ObjectDep :=
  ob.deps.find? fun dep => dep.obj = some depobj

/-- Change the first dependency on an object. -/
def setDep (ob : Object) (depobj : ObjRef) (change : ObjectDep → ObjectDep) : Object :=
  { ob with deps := updateFirst (fun dep => dep.obj = some depobj) change ob.deps }

/-- `AG_ObjectAddDep`, which leaves the path of a new dependency unset -/
def addDep (ob : Object) (depobj : ObjRef) (persistent : Bool) : Object :=
  match ob.dep? depobj with
  | some _ =>
    ob.setDep depobj fun dep =>
      { dep with
        count :=
          if dep.count + 1 > objectDepMax then objectDepMax else dep.count + 1 }
  | none =>
    { ob with
      deps := ob.deps ++
        [{ persistent := persistent
           path := []
           obj := some depobj
           count := 1 }] }

/-- `AG_ObjectDelDep` -/
def delDep (ob : Object) (depobj : ObjRef) : Except Stop Object :=
  match ob.dep? depobj with
  | none => .ok ob
  | some dep =>
    if dep.count = objectDepMax then
      -- wired
      .ok ob
    else if dep.count - 1 = 0 then
      if ob.flags &&& objectPreserveDeps = 0 then
        .ok { ob with
          deps := ob.deps.eraseP fun dep => dep.obj = some depobj }
      else .ok (ob.setDep depobj fun dep => { dep with count := 0 })
    else if dep.count = 0 then .error .fatal
    else .ok (ob.setDep depobj fun dep => { dep with count := dep.count - 1 })

end Object

/-! ## Requests -/

/--
The requests for a dependency on one object: how many were made and taken
back, and how many of each kind are outstanding.
-/
structure Requests where
  adds : Nat
  deletes : Nat
  persistent : Nat
  ordinary : Nat
  deriving Repr, DecidableEq

namespace Requests

/-- Nothing was requested. -/
def none : Requests where
  adds := 0
  deletes := 0
  persistent := 0
  ordinary := 0

/-- A dependency is asked for. -/
def ask (requests : Requests) (persistent : Bool) : Requests :=
  if persistent then
    { requests with adds := requests.adds + 1, persistent := requests.persistent + 1 }
  else
    { requests with adds := requests.adds + 1, ordinary := requests.ordinary + 1 }

/--
A request is taken back: one of the given kind, or one of the other kind where
none is outstanding.
-/
def cancel (requests : Requests) (persistent : Bool) : Requests :=
  if persistent = true ∧ 0 < requests.persistent ∨ requests.ordinary = 0 then
    { requests with deletes := requests.deletes + 1, persistent := requests.persistent - 1 }
  else
    { requests with deletes := requests.deletes + 1, ordinary := requests.ordinary - 1 }

end Requests

/-- A call of one of the two functions, and the request that it cancels. -/
inductive DepCall where
  | addDep (depobj : ObjRef) (persistent : Bool)
  | delDep (depobj : ObjRef) (cancels : Bool)
  deriving Repr, DecidableEq

/-- An object, with the requests made for each object it may depend on. -/
structure Accounted where
  ob : Object
  requests : ObjRef → Requests

namespace Accounted

/-- Record what a request changes. -/
def record (s : Accounted) (ob : Object) (depobj : ObjRef)
    (change : Requests → Requests) : Accounted where
  ob := ob
  requests := Function.update s.requests depobj (change (s.requests depobj))

/-- One call, if it returns. -/
def step (s : Accounted) : DepCall → Option Accounted
  | .addDep depobj persistent =>
    some (s.record (s.ob.addDep depobj persistent) depobj (·.ask persistent))
  | .delDep depobj cancels =>
    (s.ob.delDep depobj).toOption.map fun ob => s.record ob depobj (·.cancel cancels)

/--
The table is what the requests ask for: a dependency is there while more were
made than taken back, or its counter is saturated; it is persistent while an
outstanding request asked for that; and no counter wraps.
-/
structure Agrees (s : Accounted) : Prop where
  present : ∀ depobj, (s.ob.dep? depobj).isSome ↔
        (s.requests depobj).deletes < (s.requests depobj).adds ∨
          ∃ dep, s.ob.dep? depobj = some dep ∧ dep.count = objectDepMax
  marked : ∀ depobj, 0 < (s.requests depobj).persistent →
        ∃ dep, s.ob.dep? depobj = some dep ∧ dep.persistent = true
  bounded : ∀ dep ∈ s.ob.deps, dep.count ≤ objectDepMax

/--
The calls that the table follows: a dependency that is absent is added when as
many requests were made as taken back, a persistent request for one that is
there finds it persistent already, and an object that preserves its
dependencies does not lose the last reference.
-/
def Proper (s : Accounted) : DepCall → Prop
  | .addDep depobj persistent =>
    match s.ob.dep? depobj with
    | none => (s.requests depobj).adds = (s.requests depobj).deletes
    | some dep => persistent = true → dep.persistent = true
  | .delDep depobj _ =>
    s.ob.flags &&& objectPreserveDeps ≠ 0 → ∀ dep, s.ob.dep? depobj = some dep → dep.count ≠ 1

end Accounted

/-! ## What the two functions change -/

section Changes

variable {ob : Object} {depobj other : ObjRef} {found : ObjectDep}

variable {change : ObjectDep → ObjectDep}

theorem dep?_setDep_self (first : ob.dep? depobj = some found)
    (kept : ∀ dep, (change dep).obj = dep.obj) :
    (ob.setDep depobj change).dep? depobj = some (change found) :=
  find?_updateFirst_self first
    (by rw [kept]; simpa using List.find?_some first)

theorem dep?_setDep_other (kept : ∀ dep, (change dep).obj = dep.obj) (different : other ≠ depobj) :
    (ob.setDep depobj change).dep? other = ob.dep? other :=
  find?_updateFirst_other kept (by simpa using different)

theorem setDep_unique (unique : (ob.deps.map ObjectDep.obj).Nodup)
    (kept : ∀ dep, (change dep).obj = dep.obj) :
    ((ob.setDep depobj change).deps.map ObjectDep.obj).Nodup := by
  rw [Object.setDep, map_updateFirst kept]
  exact unique

theorem setDep_bounded (bounded : ∀ dep ∈ ob.deps, dep.count ≤ objectDepMax)
    (first : ob.dep? depobj = some found) (small : (change found).count ≤ objectDepMax) :
    ∀ dep ∈ (ob.setDep depobj change).deps, dep.count ≤ objectDepMax := by
  intro dep member
  rcases of_mem_updateFirst member with old | ⟨changed, isFirst, rfl⟩
  · exact bounded dep old
  · obtain rfl : found = changed :=
      Option.some.inj (first.symm.trans isFirst)
    exact small

theorem dep?_addDep_again (first : ob.dep? depobj = some found) (persistent : Bool) :
    (ob.addDep depobj persistent).dep? depobj =
      some { found with
        count :=
          if found.count + 1 > objectDepMax then objectDepMax
          else found.count + 1 } := by
  unfold Object.addDep
  rw [first]
  exact dep?_setDep_self first fun _ => rfl

theorem dep?_addDep_first (absent : ob.dep? depobj = none) (persistent : Bool) :
    (ob.addDep depobj persistent).dep? depobj = some
        { persistent := persistent
          path := []
          obj := some depobj
          count := 1 } := by
  unfold Object.addDep
  rw [absent]
  unfold Object.dep? at absent ⊢
  rw [List.find?_append, absent]
  simp

theorem dep?_addDep_other (persistent : Bool) (different : other ≠ depobj) :
    (ob.addDep depobj persistent).dep? other = ob.dep? other := by
  unfold Object.addDep
  cases present : ob.dep? depobj with
  | some dep => exact dep?_setDep_other (fun _ => rfl) different
  | none =>
    have passed :
        [({ persistent := persistent
            path := []
            obj := some depobj
            count := 1 } : ObjectDep)].find?
          (fun dep => dep.obj = some other) = none := by
      simp [Ne.symm different]
    simp only [Object.dep?, List.find?_append, passed, Option.or_none]

theorem addDep_unique (unique : (ob.deps.map ObjectDep.obj).Nodup) (persistent : Bool) :
    ((ob.addDep depobj persistent).deps.map ObjectDep.obj).Nodup := by
  unfold Object.addDep
  cases present : ob.dep? depobj with
  | some dep => exact setDep_unique unique fun _ => rfl
  | none =>
    rw [List.map_append, List.nodup_append]
    refine ⟨unique, List.nodup_singleton _, ?_⟩
    rintro _ member _ new rfl
    obtain ⟨dep, listed, same⟩ := List.mem_map.mp member
    obtain rfl := List.mem_singleton.mp new
    exact List.find?_eq_none.mp present dep listed (by simpa using same)

theorem addDep_bounded (bounded : ∀ dep ∈ ob.deps, dep.count ≤ objectDepMax) (persistent : Bool) :
    ∀ dep ∈ (ob.addDep depobj persistent).deps, dep.count ≤ objectDepMax := by
  unfold Object.addDep
  cases present : ob.dep? depobj with
  | some dep =>
    refine setDep_bounded bounded present ?_
    dsimp only
    split
    · exact Nat.le_refl _
    case isFalse small => exact UInt32.not_lt.mp small
  | none =>
    intro dep member
    rcases List.mem_append.mp member with old | new
    · exact bounded dep old
    · rw [List.mem_singleton.mp new]
      have small : (1 : UInt32) ≤ objectDepMax := by decide
      exact small

theorem delDep_last (first : ob.dep? depobj = some found) (single : found.count = 1)
    (dropped : ob.flags &&& objectPreserveDeps = 0) :
    ob.delDep depobj =
      .ok { ob with
        deps := ob.deps.eraseP fun dep => dep.obj = some depobj } := by
  simp [Object.delDep, first, single, dropped, objectDepMax]

theorem delDep_preserved (first : ob.dep? depobj = some found) (single : found.count = 1)
    (preserves : ob.flags &&& objectPreserveDeps ≠ 0) :
    ob.delDep depobj = .ok (ob.setDep depobj fun dep => { dep with count := 0 }) := by
  simp [Object.delDep, first, single, preserves, objectDepMax]

theorem delDep_several (first : ob.dep? depobj = some found)
    (unsaturated : found.count ≠ objectDepMax) (positive : found.count ≠ 0)
    (several : found.count - 1 ≠ 0) :
    ob.delDep depobj = .ok (ob.setDep depobj fun dep =>
        { dep with count := dep.count - 1 }) := by
  simp only [Object.delDep, first]
  rw [if_neg unsaturated, if_neg several, if_neg positive]

theorem delDep_wired (first : ob.dep? depobj = some found) (wired : found.count = objectDepMax) :
    ob.delDep depobj = .ok ob := by
  simp only [Object.delDep, first]
  rw [if_pos wired]

end Changes

/-! ## The invariant -/

theorem Requests.ask_counts (requests : Requests) (persistent : Bool) :
    (requests.ask persistent).adds = requests.adds + 1 ∧
      (requests.ask persistent).deletes = requests.deletes ∧
      (requests.ask persistent).persistent + (requests.ask persistent).ordinary =
        requests.persistent + requests.ordinary + 1 ∧
      (requests.ask persistent).persistent = requests.persistent + persistent.toNat := by
  cases persistent <;> simp [Requests.ask] <;> omega

theorem Requests.cancel_counts (requests : Requests) (persistent : Bool) :
    (requests.cancel persistent).adds = requests.adds ∧
      (requests.cancel persistent).deletes = requests.deletes + 1 ∧
      (requests.cancel persistent).persistent + (requests.cancel persistent).ordinary =
        requests.persistent + requests.ordinary - 1 ∧
      (requests.cancel persistent).persistent ≤ requests.persistent := by
  unfold Requests.cancel
  split
  case isTrue chosen =>
    refine ⟨rfl, rfl, ?_, Nat.sub_le _ _⟩
    dsimp only
    omega
  case isFalse other =>
    refine ⟨rfl, rfl, ?_, Nat.le_refl _⟩
    dsimp only
    omega

/-- The entry of an object, if any, is what its requests ask for. -/
def Accounts (entry : Option ObjectDep) (requests : Requests) : Prop :=
  match entry with
  | none => requests.persistent = 0 ∧ requests.ordinary = 0 ∧ requests.adds ≤ requests.deletes
  | some dep =>
    (dep.persistent = false → requests.persistent = 0) ∧ (dep.count ≠ objectDepMax →
        1 ≤ dep.count.toNat ∧ dep.count.toNat + requests.deletes = requests.adds ∧
          requests.persistent + requests.ordinary = dep.count.toNat)

/-- Every object's requests are accounted for, by one entry at most. -/
structure Accounted.Balanced (s : Accounted) : Prop where
  unique : (s.ob.deps.map ObjectDep.obj).Nodup
  bounded : ∀ dep ∈ s.ob.deps, dep.count ≤ objectDepMax
  accounts : ∀ depobj, Accounts (s.ob.dep? depobj) (s.requests depobj)

namespace Accounted

variable {s : Accounted} {depobj : ObjRef}

theorem Balanced.agrees (balanced : s.Balanced) : s.Agrees := by
  refine ⟨fun depobj => ?_, fun depobj asked => ?_, balanced.bounded⟩
  · have accounts := balanced.accounts depobj
    cases entry : s.ob.dep? depobj with
    | none =>
      rw [entry] at accounts
      simpa using accounts.2.2
    | some dep =>
      rw [entry] at accounts
      refine iff_of_true rfl ?_
      by_cases saturated : dep.count = objectDepMax
      · exact .inr ⟨dep, rfl, saturated⟩
      · have counted := accounts.2 saturated
        exact .inl (by omega)
  · have accounts := balanced.accounts depobj
    cases entry : s.ob.dep? depobj with
    | none =>
      rw [entry] at accounts
      exact absurd accounts.1 (Nat.ne_of_gt asked)
    | some dep =>
      rw [entry] at accounts
      refine ⟨dep, rfl, ?_⟩
      by_contra ordinary
      exact absurd (accounts.1 (by simpa using ordinary)) (Nat.ne_of_gt asked)

theorem Balanced.record {ob : Object} {change : Requests → Requests} (balanced : s.Balanced)
    (unique : (ob.deps.map ObjectDep.obj).Nodup)
    (bounded : ∀ dep ∈ ob.deps, dep.count ≤ objectDepMax)
    (self : Accounts (ob.dep? depobj) (change (s.requests depobj)))
    (others : ∀ other, other ≠ depobj → ob.dep? other = s.ob.dep? other) :
    (s.record ob depobj change).Balanced where
  unique := unique
  bounded := bounded
  accounts other := by
    by_cases same : other = depobj
    · subst same
      simpa [Accounted.record] using self
    · simpa [Accounted.record, same, others other same] using balanced.accounts other

theorem Balanced.addDep (balanced : s.Balanced) {persistent : Bool}
    (proper : s.Proper (.addDep depobj persistent)) :
    (s.record (s.ob.addDep depobj persistent) depobj (·.ask persistent)).Balanced := by
  refine balanced.record (addDep_unique balanced.unique persistent)
    (addDep_bounded balanced.bounded persistent) ?_
    fun other different => dep?_addDep_other persistent different
  obtain ⟨adds, deletes, outstanding, asked⟩ := (s.requests depobj).ask_counts persistent
  have accounts := balanced.accounts depobj
  cases entry : s.ob.dep? depobj with
  | none =>
    simp only [Proper, entry] at proper
    rw [entry] at accounts
    obtain ⟨noPersistent, noOrdinary, _⟩ := accounts
    rw [dep?_addDep_first entry]
    refine ⟨fun ordinary => ?_, fun _ => ⟨Nat.le_refl 1, ?_, ?_⟩⟩
    · have : persistent = false := ordinary
      rw [asked, noPersistent, this]
      rfl
    · rw [deletes, adds, proper]
      exact Nat.add_comm 1 _
    · rw [outstanding, noPersistent, noOrdinary]
      rfl
  | some dep =>
    simp only [Proper, entry] at proper
    rw [entry] at accounts
    rw [dep?_addDep_again entry]
    refine ⟨fun ordinary => ?_, fun unsaturated => ?_⟩
    · have unmarked : dep.persistent = false := ordinary
      have unasked : persistent = false := by
        by_contra marks
        rw [proper (by simpa using marks)] at unmarked
        cases unmarked
      rw [asked, accounts.1 unmarked, unasked]
      rfl
    · dsimp only at unsaturated ⊢
      split at unsaturated
      case isTrue => exact absurd rfl unsaturated
      case isFalse small =>
        have fresh : dep.count ≠ objectDepMax := by
          intro saturated
          rw [saturated] at small
          exact small (by decide)
        obtain ⟨positive, counted, kinds⟩ := accounts.2 fresh
        have within : dep.count.toNat ≤ objectDepMax.toNat :=
          balanced.bounded dep (List.mem_of_find?_eq_some entry)
        have limit : objectDepMax.toNat = 4294967293 := rfl
        have next : (dep.count + 1).toNat = dep.count.toNat + 1 := by
          rw [UInt32.toNat_add]
          exact Nat.mod_eq_of_lt (by
            have : (1 : UInt32).toNat = 1 := rfl
            omega)
        rw [if_neg small, next]
        refine ⟨by omega, by omega, by omega⟩

theorem Balanced.delDep (balanced : s.Balanced) {cancels : Bool}
    (proper : s.Proper (.delDep depobj cancels)) :
    ∃ ob, s.ob.delDep depobj = .ok ob ∧ (s.record ob depobj (·.cancel cancels)).Balanced := by
  obtain ⟨adds, deletes, outstanding, asked⟩ := (s.requests depobj).cancel_counts cancels
  have accounts := balanced.accounts depobj
  cases entry : s.ob.dep? depobj with
  | none =>
    rw [entry] at accounts
    obtain ⟨noPersistent, noOrdinary, matched⟩ := accounts
    refine ⟨s.ob, by simp [Object.delDep, entry],
      balanced.record balanced.unique balanced.bounded ?_ fun _ _ => rfl⟩
    rw [entry]
    exact ⟨by omega, by omega, by omega⟩
  | some dep =>
    rw [entry] at accounts
    by_cases wired : dep.count = objectDepMax
    · refine ⟨s.ob, delDep_wired entry wired,
        balanced.record balanced.unique balanced.bounded ?_ fun _ _ => rfl⟩
      rw [entry]
      refine ⟨fun ordinary => ?_, fun unsaturated => absurd wired unsaturated⟩
      have := accounts.1 ordinary
      omega
    obtain ⟨positive, counted, kinds⟩ := accounts.2 wired
    by_cases single : dep.count = 1
    · have dropped : s.ob.flags &&& objectPreserveDeps = 0 := by
        by_contra preserves
        exact proper preserves dep entry single
      have one : dep.count.toNat = 1 := by
        rw [single]
        rfl
      refine ⟨_, delDep_last entry single dropped, balanced.record ?_ ?_ ?_ ?_⟩
      · exact balanced.unique.sublist (List.eraseP_sublist.map _)
      · intro other member
        exact balanced.bounded other (List.mem_of_mem_eraseP member)
      · have removed :
            ({ s.ob with
                deps := s.ob.deps.eraseP fun dep =>
                  dep.obj = some depobj } : Object).dep? depobj = none :=
          find?_eraseP_self balanced.unique
        rw [removed]
        exact ⟨by omega, by omega, by omega⟩
      · intro other different
        exact find?_eraseP_other (by simpa using different)
    · have nonzero : dep.count ≠ 0 := by
        intro zero
        rw [zero] at positive
        cases positive
      have several : dep.count - 1 ≠ 0 := sub_ne_zero.mpr single
      have less : (dep.count - 1).toNat = dep.count.toNat - 1 := UInt32.toNat_sub_of_le _ _ positive
      have notOne : dep.count.toNat ≠ 1 := by
        intro one
        exact single (UInt32.toNat_inj.mp one)
      refine ⟨_, delDep_several entry wired nonzero several,
        balanced.record (setDep_unique balanced.unique fun _ => rfl)
          (setDep_bounded balanced.bounded entry ?_) ?_
          fun other different => dep?_setDep_other (fun _ => rfl) different⟩
      · have within : dep.count.toNat ≤ objectDepMax.toNat :=
          balanced.bounded dep (List.mem_of_find?_eq_some entry)
        refine UInt32.le_iff_toNat_le.mpr ?_
        dsimp only
        rw [less]
        omega
      · have lowered : (s.ob.setDep depobj fun dep =>
              { dep with count := dep.count - 1 }).dep? depobj =
              some { dep with count := dep.count - 1 } :=
          dep?_setDep_self entry fun _ => rfl
        rw [lowered]
        refine ⟨fun ordinary => ?_, fun _ => ?_⟩
        · have := accounts.1 ordinary
          omega
        · dsimp only
          rw [less]
          exact ⟨by omega, by omega, by omega⟩

theorem Balanced.proper_of_agrees (balanced : s.Balanced) {call : DepCall} {next : Accounted}
    (taken : s.step call = some next) (agrees : next.Agrees) : s.Proper call := by
  cases call with
  | addDep depobj persistent =>
    obtain ⟨adds, deletes, -, asked⟩ := (s.requests depobj).ask_counts persistent
    have accounts := balanced.accounts depobj
    cases taken
    cases entry : s.ob.dep? depobj with
    | none =>
      simp only [Proper, entry]
      rw [entry] at accounts
      have added := dep?_addDep_first entry persistent
      have there := (agrees.present depobj).mp (by
        simp [Accounted.record, added])
      simp only [Accounted.record, added, Function.update_self, adds, deletes] at there
      rcases there with more | ⟨dep, same, saturated⟩
      · exact Nat.le_antisymm accounts.2.2 (Nat.le_of_lt_succ more)
      · cases same
        cases saturated
    | some dep =>
      simp only [Proper, entry]
      rintro rfl
      have added := dep?_addDep_again entry true
      obtain ⟨found, isFound, marked⟩ := agrees.marked depobj (by
        simp [Accounted.record, asked])
      simp only [Accounted.record, added] at isFound
      cases isFound
      exact marked
  | delDep depobj cancels =>
    intro preserves dep entry single
    obtain ⟨adds, deletes, -, -⟩ := (s.requests depobj).cancel_counts cancels
    have accounts := balanced.accounts depobj
    rw [entry] at accounts
    have counted := accounts.2 (by rw [single]; decide)
    rw [single] at counted
    rw [Accounted.step, delDep_preserved entry single preserves] at taken
    cases taken
    have kept : (s.ob.setDep depobj fun dep => { dep with count := 0 }).dep? depobj =
          some { dep with count := 0 } :=
      dep?_setDep_self entry fun _ => rfl
    have there := (agrees.present depobj).mp (by
      simp [Accounted.record, kept])
    simp only [Accounted.record, kept, Function.update_self, adds, deletes] at there
    have one : (1 : UInt32).toNat = 1 := rfl
    rcases there with more | ⟨found, same, saturated⟩
    · omega
    · cases same
      cases saturated

end Accounted

/-! ## Every sequence of calls -/

/-- An object without dependencies, for which nothing was requested. -/
def Accounted.start (ob : Object) : Accounted where
  ob := { ob with deps := [] }
  requests _ := .none

/--
The dependency table agrees with the requests through a sequence of calls, none
of which ends the program, exactly when every call is proper.
-/
theorem dependencies_agree_iff (ob : Object) (calls : List DepCall) :
    RunsWell Accounted.step Accounted.Agrees (.start ob) calls ↔
      EachStep Accounted.step Accounted.Proper (.start ob) calls := by
  refine runsWell_iff_eachStep Accounted.Balanced (fun _ => Accounted.Balanced.agrees) ?_
    (fun _ _ _ balanced => balanced.proper_of_agrees) ?_ calls
  · intro s call balanced proper
    cases call with
    | addDep depobj persistent => exact ⟨_, rfl, balanced.addDep proper⟩
    | delDep depobj cancels =>
      obtain ⟨after, returned, keeps⟩ := balanced.delDep proper
      exact ⟨_, by rw [Accounted.step, returned]; rfl, keeps⟩
  · refine ⟨List.nodup_nil, nofun, fun depobj => ?_⟩
    exact ⟨rfl, rfl, Nat.le_refl 0⟩

def flaggedObject (flags : UInt32) : Object where
  name := .strlcpy []
  cls := agObjectClass
  flags := flags
  events := []
  vars := []
  deps := []
  parent := none
  root := 0
  children := []
  attachFn := none
  detachFn := none

theorem persistent_request_lost :
    ¬ RunsWell Accounted.step Accounted.Agrees (.start (flaggedObject 0))
      [.addDep 1 false, .addDep 1 true] := by
  rintro ⟨-, first, added, -, second, again, agrees⟩
  cases added
  cases again
  obtain ⟨dep, found, marked⟩ := agrees.marked 1 (by decide)
  cases found
  cases marked

end Agar.Core
