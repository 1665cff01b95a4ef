import Agar.Web.Variables

namespace Agar.Web

open Agar.Lib
open Agar.Core

/-!
# Template variables as a map of texts

What the variables stand for: every key has at most one text, which setting
it replaces and appending to its variable extends.
-/

/-- A text under a key, with the pointer to its variable. -/
structure TextEntry where
  ref : VarRef
  key : Text
  text : Text

/-- Texts under keys, and the next pointer to a variable. -/
structure TextMap where
  entries : List TextEntry
  next : VarRef

namespace TextMap

/-- The text of a key. -/
def text (ideal : TextMap) (key : Text) : Option Text :=
  (ideal.entries.find? fun E => E.key = key).map (·.text)

/-- Set the text of a key. -/
def assign (ideal : TextMap) (key text : Text) : TextMap × VarRef :=
  match ideal.entries.find? fun E => E.key = key with
  | none =>
    ({
      entries := { ref := ideal.next, key := key, text := text } :: ideal.entries
      next := ideal.next + 1
    }, ideal.next)
  | some E =>
    ({ ideal with
      entries := updateFirst (fun E => E.key = key) (fun E => { E with text := text }) ideal.entries
    }, E.ref)

/-- Forget the text of a key. -/
def unset (ideal : TextMap) (key : Text) : TextMap :=
  { ideal with entries := ideal.entries.eraseP fun E => E.key = key }

/-- Append to the text that a pointer was returned for. -/
def append (ideal : TextMap) (ref : VarRef) (more : Text) : TextMap :=
  { ideal with
    entries := updateFirst (fun E => E.ref = ref)
      (fun E => { E with text := E.text ++ more }) ideal.entries
  }

end TextMap

/-- A call of a function that appends to a variable. -/
inductive Append where
  | cat (text : Text) (formatted : Bool)
  | catS (s : Text)
  | catC (c : UInt8)
  | catN (s : Text)
  | catNNoNUL (s : Text)
  | catSNoHTML (s : Text)
  | catJS (s : Text)

namespace Append

/-- Call the function. -/
def call (fresh : Nat → UInt8) (V : WebVariable) : Append → Except Stop WebVariable
  | cat text formatted => V.cat fresh text formatted
  | catS s => V.catS fresh s
  | catC c => V.catC fresh c
  | catN s => V.catN fresh s
  | catNNoNUL s => V.catNNoNUL fresh s
  | catSNoHTML s => V.catSNoHTML fresh s
  | catJS s => V.catJS fresh s

/-- What the call is to append, escaped where the function says so. -/
def appended : Append → Text
  | cat text _ => text
  | catS s => s
  | catC c => [c]
  | catN s => s
  | catNNoNUL s => s
  | catSNoHTML s => WebVariable.escaped WebVariable.escapeHTML s
  | catJS s => WebVariable.literal s

/-- The text of the call has no NUL. -/
def NoNul : Append → Prop
  | cat text _ => 0 ∉ text
  | catS s => 0 ∉ s
  | catC c => c ≠ 0
  | catN s => 0 ∉ s
  | catNNoNUL s => 0 ∉ s
  | catSNoHTML s => 0 ∉ s
  | catJS s => 0 ∉ s

/--
The call is not to `WEB_VAR_CatN`; one to `WEB_VAR_CatN_NoNUL` finds a NUL
behind its text, and `vasprintf` can format the text of `WEB_VAR_Cat`.
-/
def Served (fresh : Nat → UInt8) (V : WebVariable) : Append → Prop
  | cat text formatted => formatted = true ∨ text = []
  | catN _ => False
  | catNNoNUL s => V.NulBehind fresh s.length
  | _ => True

end Append

/-- A call of one of the functions. -/
inductive VarOp where
  | set (key : Text) (text : Option Text) (formatted : Bool)
  | setS (key : Text) (s : Option Text)
  | setGlobalS (key : Text) (s : Option Text)
  | unset (key : Text)
  | append (ref : VarRef) (call : Append)

/-- A call, with what the memory holds that it allocates. -/
abbrev VarInput := VarOp × (Nat → UInt8)

/-- Call a function. -/
def varStep (app : WebApp) : VarInput → Option (WebApp × Option VarRef)
  | (.set key text formatted, fresh) =>
    let (app, ref) := app.set fresh (some key) text formatted
    some (app, some ref)
  | (.setS key s, fresh) =>
    let (app, ref) := app.setS fresh (some key) s
    some (app, some ref)
  | (.setGlobalS key s, fresh) =>
    let (app, ref) := app.setGlobalS fresh key s
    some (app, some ref)
  | (.unset key, _) => some (app.unset key, none)
  | (.append ref call, fresh) => do
      let app ← (app.onVariable ref fun V => call.call fresh V).toOption
      return (app, none)

/-- What a call means. -/
def textStep (ideal : TextMap) : VarInput → TextMap × Option VarRef
  | (.set key text _, _) | (.setS key text, _) | (.setGlobalS key text, _) =>
    let (ideal, ref) := ideal.assign key (text.getD [])
    (ideal, some ref)
  | (.unset key, _) => (ideal.unset key, none)
  | (.append ref call, _) => (ideal.append ref call.appended, none)

/-- The keys and texts of a call have no NUL. -/
def VarNoNul : VarInput → Prop
  | (.set key text _, _) | (.setS key text, _) | (.setGlobalS key text, _) =>
    0 ∉ key ∧ 0 ∉ text.getD []
  | (.unset key, _) => 0 ∉ key
  | (.append _ call, _) => call.NoNul

/-- A key is not empty, and short enough for a variable. -/
def ValidKey (key : Text) : Prop := key ≠ [] ∧ key.length < varNameMax

/--
A text is set under a valid key, and `vasprintf` can format it; what appends
to a variable is served.
-/
def VarServed (app : WebApp) : VarInput → Prop
  | (.set key text formatted, _) => ValidKey key ∧ (formatted = true ∨ text = none)
  | (.setS key _, _) | (.setGlobalS key _, _) => ValidKey key
  | (.unset _, _) => True
  | (.append ref call, fresh) => ∃ V, app.vars.find? (·.ref = ref) = some V ∧ call.Served fresh V

/--
A key has at most one variable, the value of a key is its text in full, and
every value is terminated at its length inside its buffer.
-/
def VarsRefine (app : WebApp) (ideal : TextMap) : Prop :=
  (app.vars.map fun V => V.key.bytes).Nodup ∧ (∀ key, (app.get key).map cString = ideal.text key) ∧
      ∀ V ∈ app.vars, V.Terminated

/-- A variable holds the text of an entry, under its key. -/
structure VarHolds (V : WebVariable) (E : TextEntry) : Prop where
  ref : V.ref = E.ref
  key : V.key.bytes = E.key
  nonempty : E.key ≠ []
  contains : V.Contains E.text

/-- The variables hold the texts, one after the other. -/
structure VarsKept (app : WebApp) (ideal : TextMap) : Prop where
  next : app.next = ideal.next
  holds : List.Forall₂ VarHolds app.vars ideal.entries
  unique : (ideal.entries.map (·.key)).Nodup

/-! ## Setting and forgetting -/

/-- A variable with a content holds a text. -/
def Content.Contains (content : Content) (text : Text) : Prop :=
  ∀ V : WebVariable, V.value = content.value → V.len = content.len → V.bufSize = content.bufSize →
    V.Contains text

theorem Content.ofString_contains {s : Text} (noNul : 0 ∉ s) : (Content.ofString s).Contains s := by
  intro V value len bufSize
  refine ⟨noNul, len, s ++ [0], value, ?_, ?_, ?_⟩
  · rw [bufSize, List.length_append, List.length_singleton]
    rfl
  · rw [Nat.zero_add]
  · intro index _
    rw [Nat.zero_add]

theorem Content.initial_contains (fresh : Nat → UInt8) : (Content.initial fresh).Contains [] := by
  intro V value len bufSize
  have inside : 0 + [(0 : UInt8)].length ≤ (resize fresh varBufInit []).length := by
    rw [length_resize]
    decide
  refine ⟨List.not_mem_nil, len, _, value, ?_, segmentAt_splice inside⟩
  rw [length_splice inside, length_resize, bufSize]
  rfl

theorem strlcpy_validKey {key : Text} (valid : ValidKey key) (noNul : 0 ∉ key) :
    (CString.strlcpy key : CString varNameMax).bytes = key :=
  CString.strlcpy_bytes_of_fits noNul valid.2

section

variable {app : WebApp} {ideal : TextMap} {key : Text}

theorem VarsKept.find (kept : VarsKept app ideal) (key : Text) : app.find key = none ∧
        ideal.entries.find? (fun E => E.key = key) = none ∨
      ∃ V E, app.find key = some V ∧ ideal.entries.find? (fun E => E.key = key) = some E ∧
            VarHolds V E := by
  apply forall₂_find? kept.holds
  intro V E holds
  rw [holds.key]

theorem VarsKept.find_get (kept : VarsKept app ideal) (key : Text) : app.vars.find? (fun V =>
          decide (V.key.bytes ≠ [] ∧ V.key.bytes = key)) = none ∧
        ideal.entries.find? (fun E => E.key = key) = none ∨
      ∃ V E, app.vars.find? (fun V =>
            decide (V.key.bytes ≠ [] ∧ V.key.bytes = key)) = some V ∧
          ideal.entries.find? (fun E => E.key = key) = some E ∧ VarHolds V E := by
  apply forall₂_find? kept.holds
  intro V E holds
  rw [holds.key, decide_eq_decide]
  exact and_iff_right holds.nonempty

theorem VarsKept.assign (kept : VarsKept app ideal) (valid : ValidKey key) (noNul : 0 ∉ key)
    {content : Content} {text : Text} (contains : content.Contains text) (global : Bool) :
    (app.assign (some key) content global).2 = (ideal.assign key text).2 ∧
      VarsKept (app.assign (some key) content global).1 (ideal.assign key text).1 := by
  have looked : (some key).bind app.find = app.find key := rfl
  rcases kept.find key with ⟨absent, noEntry⟩ | ⟨V, E, found, entry, holds⟩
  · simp only [WebApp.assign, TextMap.assign, looked, absent, noEntry]
    refine ⟨kept.next, by rw [kept.next], .cons ?_ kept.holds, ?_⟩
    · exact {
        ref := kept.next
        key := strlcpy_validKey valid noNul
        nonempty := valid.1
        contains := contains _ rfl rfl rfl
      }
    · rw [List.map_cons, List.nodup_cons]
      refine ⟨?_, kept.unique⟩
      intro member
      obtain ⟨E, listed, same⟩ := List.mem_map.mp member
      have other := List.find?_eq_none.mp noEntry E listed
      exact other (decide_eq_true same)
  · simp only [WebApp.assign, TextMap.assign, looked, found, entry]
    refine ⟨holds.ref, kept.next, ?_, ?_⟩
    · apply forall₂_updateFirst kept.holds
      · intro W E holds
        rw [holds.key, WebApp.key_of_find found]
      · intro W E _ holds
        exact {
          ref := holds.ref
          key := holds.key
          nonempty := holds.nonempty
          contains := contains _ rfl rfl rfl
        }
    · have keys : (updateFirst (fun E => E.key = key)
            (fun E => { E with text := text }) ideal.entries).map (·.key) =
              ideal.entries.map (·.key) := by
        apply map_updateFirst
        intro E
        rfl
      exact keys ▸ kept.unique

theorem VarsKept.unset (kept : VarsKept app ideal) (key : Text) :
    VarsKept (app.unset key) (ideal.unset key) := by
  have unique : ((ideal.unset key).entries.map (·.key)).Nodup :=
    kept.unique.sublist (List.eraseP_sublist.map _)
  have erased : List.Forall₂ VarHolds (app.vars.eraseP (·.key.bytes = key))
        (ideal.unset key).entries := by
    apply forall₂_eraseP kept.holds
    intro V E holds
    rw [holds.key]
  rw [WebApp.unset]
  rcases kept.find key with ⟨absent, _⟩ | ⟨V, E, found, _⟩
  · rw [absent]
    have same : app.vars.eraseP (·.key.bytes = key) = app.vars :=
      List.eraseP_of_forall_not (List.find?_eq_none.mp absent)
    rw [same] at erased
    exact ⟨kept.next, erased, unique⟩
  · rw [found]
    exact ⟨kept.next, erased, unique⟩

theorem VarsKept.refine (kept : VarsKept app ideal) : VarsRefine app ideal := by
  refine ⟨?_, ?_, ?_⟩
  · rw [forall₂_map_eq kept.holds fun V E holds => holds.key]
    exact kept.unique
  · intro key
    have found := kept.find_get key
    rw [WebApp.get, TextMap.text]
    rcases found with ⟨absent, noEntry⟩ | ⟨V, E, found, entry, holds⟩
    · rw [absent, noEntry]
      rfl
    · rw [found, entry]
      exact holds.contains.starts.cString_value holds.contains.noNul
  · intro V member
    obtain ⟨E, _, holds⟩ := forall₂_mem kept.holds member
    exact holds.contains.terminated

/-! ## Appending -/

variable {fresh : Nat → UInt8} {call : Append}

theorem Append.call_becomes {V : WebVariable} {text : Text} (contains : V.Contains text)
    (noNul : call.NoNul) (served : call.Served fresh V) :
    ∃ W, call.call fresh V = .ok W ∧ V.Becomes W (text ++ call.appended) := by
  cases call with
  | cat more formatted =>
    by_cases formats : formatted = true
    · subst formats
      exact WebVariable.catS_becomes fresh contains noNul
    · have empty : more = [] := served.resolve_left formats
      subst empty
      refine ⟨V, if_neg formats, rfl, rfl, ?_⟩
      rwa [Append.appended, List.append_nil]
  | catS s => exact WebVariable.catS_becomes fresh contains noNul
  | catC c => exact WebVariable.catC_becomes fresh contains noNul
  | catN s => exact served.elim
  | catNNoNUL s =>
    obtain ⟨W, called, _, becomes, _⟩ := WebVariable.catNNoNUL_spec fresh contains noNul
    exact ⟨W, called, becomes served⟩
  | catSNoHTML s => exact WebVariable.catSNoHTML_becomes fresh contains noNul
  | catJS s => exact WebVariable.catJS_becomes fresh contains noNul

theorem Append.served_of_result {V W : WebVariable} {text : Text} (contains : V.Contains text)
    (noNul : call.NoNul) (called : call.call fresh V = .ok W) (terminated : W.Terminated)
    (value : W.value.map cString = some (text ++ call.appended)) : call.Served fresh V := by
  cases call with
  | cat more formatted =>
    by_cases formats : formatted = true
    · exact .inl formats
    · right
      have same : V = W := Except.ok.inj ((if_neg formats).symm.trans called)
      rw [← same, contains.starts.cString_value contains.noNul,
        Option.some.injEq, List.self_eq_append_right] at value
      exact value
  | catN s =>
    obtain ⟨_, shorter, less, holds⟩ := WebVariable.catN_spec contains noNul called
    rw [holds, Option.some.injEq] at value
    rw [value] at less
    exact absurd less (lt_irrefl _)
  | catNNoNUL s =>
    obtain ⟨X, appended, _, _, behind⟩ := WebVariable.catNNoNUL_spec fresh contains noNul
    have same : X = W := Except.ok.inj (appended.symm.trans called)
    exact behind (same ▸ terminated)
  | catS s => exact trivial
  | catC c => exact trivial
  | catSNoHTML s => exact trivial
  | catJS s => exact trivial

theorem Append.call_key {V W : WebVariable} {text : Text} (contains : V.Contains text)
    (noNul : call.NoNul) (called : call.call fresh V = .ok W) : W.key = V.key := by
  have becomes (served : call.Served fresh V) : W.key = V.key := by
    obtain ⟨X, again, becomes⟩ := call_becomes contains noNul served
    obtain rfl : X = W := Except.ok.inj (again.symm.trans called)
    exact becomes.key
  cases call with
  | cat more formatted =>
    by_cases formats : formatted = true
    · exact becomes (.inl formats)
    · have same : V = W := Except.ok.inj ((if_neg formats).symm.trans called)
      rw [same]
  | catN s => exact (WebVariable.catN_spec contains noNul called).1
  | catNNoNUL s =>
    obtain ⟨X, again, key, _⟩ := WebVariable.catNNoNUL_spec fresh contains noNul
    obtain rfl : X = W := Except.ok.inj (again.symm.trans called)
    exact key
  | catS s => exact becomes trivial
  | catC c => exact becomes trivial
  | catSNoHTML s => exact becomes trivial
  | catJS s => exact becomes trivial

theorem VarsKept.findRef (kept : VarsKept app ideal) (ref : VarRef) :
    app.vars.find? (·.ref = ref) = none ∧ ideal.entries.find? (·.ref = ref) = none ∨ ∃ V E,
        app.vars.find? (·.ref = ref) = some V ∧
          ideal.entries.find? (·.ref = ref) = some E ∧ VarHolds V E := by
  apply forall₂_find? kept.holds
  intro V E holds
  rw [holds.ref]

theorem onVariable_eq_ok {ref : VarRef} {f : WebVariable → Except Stop WebVariable}
    {next : WebApp} :
    app.onVariable ref f = .ok next ↔ ∃ V W, app.vars.find? (·.ref = ref) = some V ∧ f V = .ok W ∧
            { app with
              vars := updateFirst (·.ref = ref) (fun _ => W) app.vars
            } = next := by
  unfold WebApp.onVariable
  cases found : app.vars.find? (·.ref = ref) with
  | none => simp
  | some V =>
    simp only [bind_eq_ok, pure_eq_ok, Option.some.injEq, exists_eq_left', exists_and_left]

omit app in
theorem keys_append (ref : VarRef) (more : Text) : (ideal.append ref more).entries.map (·.key) =
      ideal.entries.map (·.key) := by
  apply map_updateFirst
  intro E
  rfl

theorem VarsKept.append (kept : VarsKept app ideal) {ref : VarRef} {V W : WebVariable} {more : Text}
    (found : app.vars.find? (·.ref = ref) = some V)
    (becomes : ∀ text, V.Contains text → V.Becomes W (text ++ more)) :
    VarsKept
      { app with
        vars := updateFirst (·.ref = ref) (fun _ => W) app.vars
      }
      (ideal.append ref more) where
  next := kept.next
  holds := by
    apply forall₂_updateFirst kept.holds
    · intro V E holds
      rw [holds.ref]
    · intro other E first holds
      obtain rfl : V = other := Option.some.inj (found.symm.trans first)
      have appended := becomes E.text holds.contains
      exact {
        ref := appended.ref.trans holds.ref
        key := by
          rw [appended.key]
          exact holds.key
        nonempty := holds.nonempty
        contains := appended.contains
      }
  unique := by
    rw [keys_append]
    exact kept.unique

theorem varStep_serves {input : VarInput} (kept : VarsKept app ideal) (noNul : VarNoNul input)
    (served : VarServed app input) :
    ∃ next, varStep app input = some (next, (textStep ideal input).2) ∧
        VarsKept next (textStep ideal input).1 := by
  have assigned {key : Text} {content : Content} {text : Text} (valid : ValidKey key)
      (keyNoNul : 0 ∉ key)
      (contains : content.Contains text)
      (global : Bool) :
      ∃ next, some ((app.assign (some key) content global).1,
            some (app.assign (some key) content global).2) =
              some (next, some (ideal.assign key text).2) ∧
          VarsKept next (ideal.assign key text).1 := by
    obtain ⟨ref, keptNext⟩ := kept.assign valid keyNoNul contains global
    exact ⟨_, by rw [ref], keptNext⟩
  have plain (fresh : Nat → UInt8) {s : Option Text} (textNoNul : 0 ∉ s.getD []) :
      (s.elim (Content.initial fresh) .ofString).Contains (s.getD []) := by
    cases s with
    | none => exact Content.initial_contains fresh
    | some s => exact Content.ofString_contains textNoNul
  obtain ⟨op, fresh⟩ := input
  cases op with
  | set key text formatted =>
    obtain ⟨valid, formats⟩ := served
    cases text with
    | none => exact assigned valid noNul.1 (Content.initial_contains fresh) false
    | some s =>
      have formats : formatted = true := formats.resolve_right (Option.some_ne_none s)
      subst formats
      exact assigned valid noNul.1 (Content.ofString_contains noNul.2) false
  | setS key s => exact assigned served noNul.1 (plain fresh noNul.2) false
  | setGlobalS key s => exact assigned served noNul.1 (plain fresh noNul.2) true
  | unset key => exact ⟨_, rfl, kept.unset key⟩
  | append ref call =>
    obtain ⟨V, found, callServed⟩ := served
    rcases kept.findRef ref with ⟨absent, _⟩ | ⟨other, E, first, _, holds⟩
    · rw [absent] at found
      cases found
    obtain rfl : V = other := Option.some.inj (found.symm.trans first)
    obtain ⟨W, called, _⟩ := Append.call_becomes holds.contains noNul callServed
    have stepped : app.onVariable ref (fun V => call.call fresh V) = .ok _ :=
      onVariable_eq_ok.mpr ⟨V, W, found, called, rfl⟩
    refine ⟨{ app with
      vars := updateFirst (·.ref = ref) (fun _ => W) app.vars
    }, ?_, kept.append found ?_⟩
    · simp only [varStep, stepped]
      rfl
    · intro text contains
      obtain ⟨X, calledAgain, becomes⟩ := Append.call_becomes contains noNul callServed
      obtain rfl : W = X := Except.ok.inj (called.symm.trans calledAgain)
      exact becomes

/-! ## What does not refine the texts -/

omit ideal in
theorem get_of_not_valid (invalid : ¬ ValidKey key) : app.get key = none := by
  have absent : app.vars.find? (fun V =>
        decide (V.key.bytes ≠ [] ∧ V.key.bytes = key)) = none := by
    rw [List.find?_eq_none]
    intro V _ found
    obtain ⟨nonempty, same⟩ := of_decide_eq_true found
    apply invalid
    rw [← same]
    exact ⟨nonempty, V.key.fits⟩
  rw [WebApp.get, absent]
  rfl

omit ideal in
theorem get_eq_find (nonempty : key ≠ []) : app.get key = (app.find key).bind (·.value) := by
  have same : (fun V : WebVariable =>
          decide (V.key.bytes ≠ [] ∧ V.key.bytes = key)) =
        fun V => decide (V.key.bytes = key) := by
    funext V
    rw [decide_eq_decide]
    constructor
    · exact And.right
    · intro found
      exact ⟨found ▸ nonempty, found⟩
  rw [WebApp.get, same, WebApp.find]

omit ideal in
theorem get_assign (valid : ValidKey key) (noNul : 0 ∉ key) (content : Content) (global : Bool) :
    (app.assign (some key) content global).1.get key = content.value := by
  rw [get_eq_find valid.1]
  have looked : (some key).bind app.find = app.find key := rfl
  cases found : app.find key with
  | none =>
    rw [WebApp.assign, looked, found, WebApp.find, List.find?_cons, Option.getD_some,
      decide_eq_true (strlcpy_validKey valid noNul)]
    rfl
  | some V =>
    have here := WebApp.key_of_find found
    rw [WebApp.assign, looked, found, WebApp.find]
    rw [WebApp.find] at found
    dsimp only
    rw [here]
    rw [find?_updateFirst_self found (decide_eq_true here)]
    rfl

omit app in
theorem text_assign (key text : Text) : (ideal.assign key text).1.text key = some text := by
  rw [TextMap.assign, TextMap.text]
  cases found : ideal.entries.find? fun E => E.key = key with
  | none =>
    rw [List.find?_cons, decide_eq_true rfl]
    rfl
  | some E =>
    have selected := List.find?_some found
    have here : E.key = key := of_decide_eq_true selected
    dsimp only
    rw [find?_updateFirst_self found (decide_eq_true here)]
    rfl

theorem validKey_of_refine {text : Text} {content : Content} {global : Bool}
    (refine : VarsRefine (app.assign (some key) content global).1 (ideal.assign key text).1) :
    ValidKey key := by
  by_contra invalid
  have same := refine.2.1 key
  rw [get_of_not_valid invalid, text_assign] at same
  cases same

theorem served_of_refine (kept : VarsKept app ideal) {ref : VarRef} (noNul : call.NoNul)
    {next : WebApp} (called : app.onVariable ref (fun V => call.call fresh V) = .ok next)
    (refine : VarsRefine next (ideal.append ref call.appended)) :
    VarServed app (.append ref call, fresh) := by
  obtain ⟨V, W, found, becomes, rfl⟩ := onVariable_eq_ok.mp called
  rcases kept.findRef ref with ⟨absent, _⟩ | ⟨other, E, first, entry, holds⟩
  · rw [absent] at found
    cases found
  obtain rfl : V = other := Option.some.inj (found.symm.trans first)
  obtain ⟨unique, same, terminated⟩ := refine
  have key := Append.call_key holds.contains noNul becomes
  have member : W ∈ updateFirst (fun V => V.ref = ref) (fun _ => W) app.vars :=
    mem_updateFirst found
  have keyW : W.key.bytes = E.key := by
    rw [key]
    exact holds.key
  have foundW := find?_of_nodup unique member
  have uniqueText : ((ideal.append ref call.appended).entries.map (·.key)).Nodup := by
    rw [keys_append]
    exact kept.unique
  have entryAppended : { E with text := E.text ++ call.appended } ∈
        (ideal.append ref call.appended).entries :=
    mem_updateFirst entry
  have foundText := find?_of_nodup uniqueText entryAppended
  have value := same E.key
  rw [get_eq_find holds.nonempty, WebApp.find, ← keyW, foundW, keyW,
    TextMap.text, foundText] at value
  exact ⟨V, found, Append.served_of_result holds.contains noNul becomes (terminated W member) value⟩

theorem varServed_of_refine {input : VarInput} (kept : VarsKept app ideal) (noNul : VarNoNul input)
    {next : WebApp} (stepped : varStep app input = some (next, (textStep ideal input).2))
    (refine : VarsRefine next (textStep ideal input).1) : VarServed app input := by
  obtain ⟨op, fresh⟩ := input
  cases op with
  | set key text formatted =>
    have same : (app.set fresh (some key) text formatted).1 = next :=
      congrArg Prod.fst (Option.some.inj stepped)
    rw [← same] at refine
    have valid := validKey_of_refine refine
    apply And.intro valid
    cases text with
    | none => exact .inr rfl
    | some s =>
      by_contra fails
      have fails : formatted = false := by simpa using fails
      subst fails
      have value : ((app.assign (some key) .failed false).1.get key).map cString =
            (ideal.assign key s).1.text key :=
        refine.2.1 key
      rw [get_assign valid noNul.1, text_assign] at value
      cases value
  | setS key s =>
    have same : (app.setS fresh (some key) s).1 = next :=
      congrArg Prod.fst (Option.some.inj stepped)
    rw [← same] at refine
    exact validKey_of_refine refine
  | setGlobalS key s =>
    have same : (app.setGlobalS fresh key s).1 = next := congrArg Prod.fst (Option.some.inj stepped)
    rw [← same] at refine
    exact validKey_of_refine refine
  | unset key => exact trivial
  | append ref call =>
    simp only [varStep, Option.bind_eq_bind, Option.bind_eq_some_iff,
      toOption_eq_some, pure, Option.some.injEq, Prod.mk.injEq] at stepped
    obtain ⟨after, called, same, _⟩ := stepped
    rw [← same] at refine
    exact served_of_refine kept noNul called refine

end

/-- Before anything is set, there are no variables. -/
def WebApp.initial : WebApp where
  vars := []
  next := 0

/-- Before anything is set, no key has a text. -/
def TextMap.initial : TextMap where
  entries := []
  next := 0

/--
The variables refine the texts throughout a run exactly when every call of the
run is served.
-/
theorem vars_refine_texts_iff (inputs : List VarInput) (noNul : ∀ input ∈ inputs, VarNoNul input) :
    Follows varStep textStep VarsRefine .initial .initial inputs ↔
      EachInput varStep VarServed .initial inputs := by
  apply follows_iff_eachInput VarsKept
  · intro app ideal kept
    exact kept.refine
  · intro app ideal input kept noNul served
    exact varStep_serves kept noNul served
  · intro app ideal input next kept noNul stepped refine
    exact varServed_of_refine kept noNul stepped refine
  · exact {
      next := rfl
      holds := .nil
      unique := List.nodup_nil
    }
  · exact noNul

theorem vars_refine_texts_short : Follows varStep textStep VarsRefine .initial .initial
      [(.setS [97] (some [98]), fun _ => 0), (.append 0 (.catS [99]), fun _ => 0)] := by
  rw [vars_refine_texts_iff]
  · refine .cons rfl ⟨List.cons_ne_nil 97 [], by decide⟩ ?_
    exact ⟨⟨_, rfl, trivial⟩, fun _ _ _ => trivial⟩
  · intro input member
    simp only [List.mem_cons, List.not_mem_nil, or_false] at member
    rcases member with rfl | rfl
    · exact ⟨by decide, by decide⟩
    · exact (by decide : (0 : UInt8) ∉ [99])

theorem long_key_is_lost : ¬ ∀ inputs : List VarInput, (∀ input ∈ inputs, VarNoNul input) →
        Follows varStep textStep VarsRefine .initial .initial inputs := by
  intro follows
  have noNul : ∀ input ∈ [((.setS (List.replicate 32 97) (some [98]) : VarOp),
          fun _ : Nat => (0 : UInt8))],
        VarNoNul input := by
    intro input member
    obtain rfl := List.mem_singleton.mp member
    exact ⟨by decide, by decide⟩
  obtain ⟨_, next, stepped, refine⟩ := follows _ noNul
  have same : (WebApp.initial.assign (some (List.replicate 32 97))
        (.ofString [98]) false).1 = next :=
    congrArg Prod.fst (Option.some.inj stepped)
  have refine : VarsRefine next
        (TextMap.initial.assign (List.replicate 32 97) [98]).1 :=
    refine.initially
  rw [← same] at refine
  have valid : ValidKey (List.replicate 32 97) := validKey_of_refine refine
  exact absurd valid.2 (by decide)

end Agar.Web
