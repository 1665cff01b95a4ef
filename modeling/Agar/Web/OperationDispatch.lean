import Agar.Web.Query

namespace Agar.Web

open Agar.Lib
open Agar.Core

/-!
# Which command a worker runs

A module is a map of commands under a name.  The worker takes the first of its
modules whose name the operation of a query starts with, and looks the
operation up among the commands of that module only.

What the worker puts out around the output of a command is left out.
-/

/-- `WEB_Command` -/
structure WebCommand where
  name : List UInt8
  fn : FnRef
  type : Option (List UInt8)
  deriving DecidableEq

/-- The fields of a `WEB_Module` that the dispatch looks at -/
structure WebModule where
  name : List UInt8
  indexFn : Option FnRef
  commands : List WebCommand
  deriving DecidableEq

/-- `webModules`, and the operation of a query that names none -/
structure WorkerModules where
  webModules : List WebModule
  homeOp : List UInt8
  deriving DecidableEq

/-- What the worker does with a query -/
inductive Executed where
  /-- `WEB_SetCode` of this code, and `goto fail` -/
  | refused (code : List UInt8)
  /-- `WEB_CloseSession` -/
  | loggedOut
  /-- `cmd->fn(q)` -/
  | ran (cmd : WebCommand)
  deriving DecidableEq

namespace WebModule

/-- The operation of which the command is looked for in the module -/
def commandName (mod : WebModule) (op : List UInt8) : List UInt8 :=
  if mod.name = op then
    match mod.indexFn with
    | some indexFn =>
      match mod.commands.find? fun cmd => cmd.fn = indexFn with
      | some cmd => cmd.name
      | none => op
    | none => op
  else op

/-- The command that the module runs for an operation -/
def command (mod : WebModule) (op : List UInt8) : Option WebCommand :=
  mod.commands.find? fun cmd => cmd.name = mod.commandName op

end WebModule

namespace WorkerModules

/-- The operation of a query, or the code of its refusal -/
def operation (app : WorkerModules) (q : WebQuery) : Except (List UInt8) (List UInt8) :=
  match q.args.find? fun arg => arg.key.bytes = ascii "op" with
  | some opArg =>
    if opArg.len ≥ opNameMax then .error (ascii "413 Request too large")
    else if (cString opArg.value).all fun c =>
        isAlnum c || (ascii "_-.").contains c then
      .ok (cString opArg.value)
    else .error (ascii "404 Not Found")
  | none => .ok app.homeOp

/-- `WEB_ExecWorkerQuery` -/
def execWorkerQuery (app : WorkerModules) (q : WebQuery) : Executed :=
  match app.operation q with
  | .error code => .refused code
  | .ok op =>
    if op = ascii "logout" then .loggedOut
    else
      match app.webModules.find? fun mod => mod.name.isPrefixOf op with
      | none => .refused (ascii "404 Not Found")
      | some mod =>
        match mod.command op with
        | none => .refused (ascii "404 Not Found")
        | some cmd => .ran cmd

/-- The operation that a query names, whether or not it is accepted -/
def requested (app : WorkerModules) (q : WebQuery) : List UInt8 :=
  match q.args.find? fun arg => arg.key.bytes = ascii "op" with
  | some opArg => cString opArg.value
  | none => app.homeOp

/--
In every order of the modules, the command that a query names is run, whichever
module it is a command of.
-/
def RunsItsCommand (app : WorkerModules) (q : WebQuery) : Prop :=
  ∀ mod ∈ app.webModules, ∀ cmd ∈ mod.commands, cmd.name = app.requested q →
      ∀ order : List WebModule, order.Perm app.webModules →
          ({ app with webModules := order }).execWorkerQuery q = .ran cmd

/-- The name of the operation is accepted, and it is not the one to log out. -/
structure Admits (app : WorkerModules) (q : WebQuery) : Prop where
  accepted : ∀ opArg, (q.args.find? fun arg => arg.key.bytes = ascii "op") = some opArg →
      opArg.len < opNameMax ∧ ∀ c ∈ cString opArg.value, isAlnum c ∨ c ∈ ascii "_-."
  stays : app.requested q ≠ ascii "logout"

end WorkerModules

/--
The command is the first of its name in the module, and the module does not run
another one for its own name.
-/
structure WebModule.Offers (mod : WebModule) (op : List UInt8) (cmd : WebCommand) : Prop where
  first : (mod.commands.find? fun cmd => cmd.name = op) = some cmd
  index : mod.name = op → ∀ indexFn other, mod.indexFn = some indexFn →
      (mod.commands.find? fun cmd => cmd.fn = indexFn) = some other → other.name = op

/-! ## One module -/

theorem command_eq_some_iff {mod : WebModule} {op : List UInt8} {cmd : WebCommand}
    (named : cmd.name = op) : mod.command op = some cmd ↔ mod.Offers op cmd := by
  have resolved : mod.commandName op = op ↔ (mod.name = op → ∀ indexFn other,
            mod.indexFn = some indexFn →
            (mod.commands.find? fun cmd => cmd.fn = indexFn) = some other → other.name = op) := by
    unfold WebModule.commandName
    by_cases own : mod.name = op
    · cases index : mod.indexFn with
      | none => simp [own]
      | some indexFn =>
        cases found : mod.commands.find? fun cmd => cmd.fn = indexFn with
        | none =>
          simp only [own, if_true, found, true_iff]
          rintro - _ other ⟨⟩ there
          rw [found] at there
          cases there
        | some other =>
          simp only [own, if_true, found]
          constructor
          · rintro named - _ other ⟨⟩ there
            cases found.symm.trans there
            exact named
          · exact fun named => named trivial indexFn other rfl found
    · simp [own]
  constructor
  · intro runs
    have name : cmd.name = mod.commandName op :=
      of_decide_eq_true (List.find?_some (p := fun cmd : WebCommand =>
          cmd.name = mod.commandName op) (show _ = _ from runs))
    have same : mod.commandName op = op := name.symm.trans named
    exact ⟨by rwa [WebModule.command, same] at runs, resolved.mp same⟩
  · intro offers
    rw [WebModule.command, resolved.mpr offers.index]
    exact offers.first

/-! ## All orders -/

theorem find?_perm_iff {α β : Type} {p : α → Bool} {f : α → Option β} {list : List α} {result : β} :
    (∀ order : List α, order.Perm list → (order.find? p).bind f = some result) ↔
      (∃ a ∈ list, p a = true) ∧ ∀ a ∈ list, p a = true → f a = some result := by
  constructor
  · intro always
    constructor
    · obtain ⟨a, found, -⟩ :=
        Option.bind_eq_some_iff.mp (always list (List.Perm.refl _))
      exact ⟨a, List.mem_of_find?_eq_some found, List.find?_some found⟩
    · intro a inside matching
      obtain ⟨before, behind, rfl⟩ := List.append_of_mem inside
      have found := always (a :: (before ++ behind)) List.perm_middle.symm
      rwa [List.find?_cons_of_pos matching, Option.bind_some] at found
  · rintro ⟨⟨a, inside, matching⟩, all⟩ order same
    cases found : order.find? p with
    | none =>
      have missing := List.find?_eq_none.mp found a (same.mem_iff.mpr inside)
      exact absurd matching missing
    | some first =>
      have there := same.mem_iff.mp (List.mem_of_find?_eq_some found)
      exact all first there (List.find?_some found)

namespace WorkerModules

theorem operation_eq_ok_iff {app : WorkerModules} {q : WebQuery} {op : List UInt8} :
    app.operation q = .ok op ↔ op = app.requested q ∧ ∀ opArg,
          (q.args.find? fun arg => arg.key.bytes = ascii "op") = some opArg →
            opArg.len < opNameMax ∧ ∀ c ∈ cString opArg.value, isAlnum c ∨ c ∈ ascii "_-." := by
  unfold operation requested
  cases q.args.find? fun arg => arg.key.bytes = ascii "op" with
  | none => exact ⟨fun same => by cases same; exact ⟨rfl, nofun⟩,
      fun ⟨same, _⟩ => congrArg Except.ok same.symm⟩
  | some opArg =>
    dsimp only
    by_cases long : opArg.len ≥ opNameMax
    · rw [if_pos long]
      refine iff_of_false nofun fun ⟨_, accepted⟩ => ?_
      exact absurd (accepted opArg rfl).1 (Nat.not_lt.mpr long)
    · rw [if_neg long]
      have letters : ((cString opArg.value).all fun c =>
              isAlnum c || (ascii "_-.").contains c) = true ↔
            ∀ c ∈ cString opArg.value, isAlnum c ∨ c ∈ ascii "_-." := by
        simp only [List.all_eq_true, Bool.or_eq_true, List.contains_iff_mem]
      by_cases fine : ((cString opArg.value).all fun c =>
            isAlnum c || (ascii "_-.").contains c) = true
      · rw [if_pos fine]
        constructor
        · rintro ⟨⟩
          refine ⟨rfl, fun _ same => ?_⟩
          cases same
          exact ⟨Nat.not_le.mp long, letters.mp fine⟩
        · exact fun ⟨same, _⟩ => congrArg Except.ok same.symm
      · rw [if_neg fine]
        refine iff_of_false nofun fun ⟨_, accepted⟩ => ?_
        exact fine (letters.mpr (accepted opArg rfl).2)

theorem execWorkerQuery_eq_ran_iff {app : WorkerModules} {q : WebQuery} {cmd : WebCommand} :
    app.execWorkerQuery q = .ran cmd ↔ app.Admits q ∧ (app.webModules.find? fun mod =>
          mod.name.isPrefixOf (app.requested q)).bind
            (fun mod => mod.command (app.requested q)) = some cmd := by
  have admits : app.Admits q ↔ app.operation q = .ok (app.requested q) ∧
          app.requested q ≠ ascii "logout" := by
    rw [operation_eq_ok_iff]
    exact ⟨fun admits => ⟨⟨rfl, admits.accepted⟩, admits.stays⟩,
        fun ⟨⟨_, accepted⟩, stays⟩ => ⟨accepted, stays⟩⟩
  rw [admits]
  unfold execWorkerQuery
  cases operated : app.operation q with
  | error code => simp
  | ok op =>
    obtain ⟨rfl, -⟩ := operation_eq_ok_iff.mp operated
    by_cases leaves : app.requested q = ascii "logout"
    · simp only [leaves, if_true, ne_eq, not_true_eq_false, and_false, false_and, iff_false]
      exact nofun
    · simp only [leaves, if_false, ne_eq, not_false_eq_true, and_self, true_and]
      cases app.webModules.find? fun mod =>
          mod.name.isPrefixOf (app.requested q) with
      | none => exact iff_of_false nofun nofun
      | some mod =>
        dsimp only [Option.bind_some]
        cases mod.command (app.requested q) with
        | none => exact iff_of_false nofun nofun
        | some other => exact ⟨fun same => by cases same; rfl, fun same => by cases same; rfl⟩

/--
The command that a query names is run in every order of the modules exactly
when its name is accepted, some module has a name that it starts with, and all
such modules offer this command.
-/
theorem runsItsCommand_iff (app : WorkerModules) (q : WebQuery) : app.RunsItsCommand q ↔
      ∀ mod ∈ app.webModules, ∀ cmd ∈ mod.commands, cmd.name = app.requested q → app.Admits q ∧
            (∃ other ∈ app.webModules, other.name <+: app.requested q) ∧ ∀ other ∈ app.webModules,
                other.name <+: app.requested q → other.Offers (app.requested q) cmd := by
  refine forall₂_congr fun mod inside => forall₂_congr fun cmd there => ?_
  refine imp_congr_right fun named => ?_
  have everywhere :=
    @find?_perm_iff _ _ (fun mod => mod.name.isPrefixOf (app.requested q))
      (fun mod => mod.command (app.requested q)) app.webModules cmd
  simp only [List.isPrefixOf_iff_prefix, command_eq_some_iff named] at everywhere
  rw [← everywhere]
  constructor
  · intro runs
    refine ⟨?_, fun order same => ?_⟩
    · exact (execWorkerQuery_eq_ran_iff.mp (runs _ (List.Perm.refl _))).1
    · exact (execWorkerQuery_eq_ran_iff.mp (runs order same)).2
  · rintro ⟨admits, found⟩ order same
    exact execWorkerQuery_eq_ran_iff.mpr ⟨⟨admits.accepted, admits.stays⟩, found order same⟩

theorem shorter_name_hides : ¬ RunsItsCommand
        { webModules := [{ name := ascii "user", indexFn := none, commands := [] },
            { name := ascii "users"
              indexFn := none
              commands := [{ name := ascii "users_list", fn := 0, type := none }] }]
          homeOp := ascii "users_list" }
        (queryInit ⟨0, 0⟩ []) := by
  intro runs
  have found :=
    runs _ (List.mem_cons_of_mem _ List.mem_cons_self) _ List.mem_cons_self
      rfl _ (List.Perm.refl _)
  revert found
  decide

end WorkerModules

end Agar.Web
