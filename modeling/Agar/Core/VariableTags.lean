import Agar.Core.VariableStore

namespace Agar.Core

open Agar.Lib

/-!
# Types of variables and what they own

When the type of a variable says which member of its union was stored, when a
string variable owns its string, and when a reference has the target that it
was bound to: exactly as long as no value of another type is stored in a
variable, nor more bytes than there are through a reference.
-/

namespace StoredVariable

/--
The type says which member was stored last, and a string is one that the
variable is to free.
-/
structure Tagged (V : StoredVariable) : Prop where
  member : V.data.member = V.type.member
  string : V.type = .string → V.info = 0 ∧ V.data.address ≠ some 0

/-- The string of a string variable that is to free it. -/
def texts (V : StoredVariable) : List Address :=
  if V.type = .string ∧ V.info = 0 then V.data.address.toList.filter (· ≠ 0) else []

/-- The key of a reference to a variable. -/
def keys (V : StoredVariable) : List Address :=
  if V.type = .pVariable ∧ V.info ≠ 0 then [V.info] else []

/-- What is freed with a variable. -/
def held (V : StoredVariable) : List Address := V.texts ++ V.keys

/-- A string variable has the address of a string in its union. -/
def Readable (V : StoredVariable) : Prop := V.type = .string → V.data.address ≠ none

variable {V : StoredVariable}

theorem Tagged.readable (tagged : V.Tagged) : V.Readable := by
  intro isString none
  have member := tagged.member
  rw [isString] at member
  cases data : V.data with
  | s address =>
    rw [data] at none
    cases none
  | _ =>
    rw [data] at member
    cases member

theorem init_readable (name : CString variableNameMax) (type : VariableType) :
    (init name type).Readable := by
  intro _ none
  cases none

theorem texts_of_type (other : V.type ≠ .string) : V.texts = [] :=
  if_neg fun both => other both.1

theorem keys_of_type (other : V.type ≠ .pVariable) : V.keys = [] :=
  if_neg fun both => other both.1

theorem init_holds_nothing (name : CString variableNameMax) (type : VariableType) :
    (init name type).texts = [] ∧ (init name type).keys = [] := by
  constructor
  · unfold texts
    split <;> rfl
  · unfold keys
    split
    case isTrue both => exact absurd rfl both.2
    case isFalse => rfl

end StoredVariable

/--
Beside some other addresses, what variables hold was allocated for each of
them alone, and the strings that were given to variables and not freed are
those that string variables hold.
-/
structure Owns (vars : List StoredVariable) (beside : List Address)
    (m : VariableMemory) : Prop where
  owned : m.heap.Owned (fun block => block.malloced = true)
      (beside ++ vars.flatMap StoredVariable.held)
  strings : m.strings.Perm (vars.flatMap StoredVariable.texts)

section

variable {V W : StoredVariable} {vars others : List StoredVariable} {beside : List Address}
  {m : VariableMemory}

theorem Owns.perm (owns : Owns vars beside m) (same : vars.Perm others) : Owns others beside m where
  owned := owns.owned.perm ((same.flatMap_right _).append_left _)
  strings := owns.strings.trans (same.flatMap_right _)

variable {address : Address}

theorem Owns.forget (owns : Owns vars (address :: beside) m) : Owns vars beside m where
  owned := owns.owned.sublist (List.sublist_cons_self _ _)
  strings := owns.strings

theorem Owns.init (owns : Owns vars beside m) (name : CString variableNameMax)
    (type : VariableType) : Owns (.init name type :: vars) beside m := by
  obtain ⟨texts, keys⟩ := StoredVariable.init_holds_nothing name type
  constructor
  · rw [List.flatMap_cons, StoredVariable.held, texts, keys]
    exact owns.owned
  · rw [List.flatMap_cons, texts]
    exact owns.strings

theorem Owns.drop (owns : Owns (V :: others) beside m) (noTexts : V.texts = [])
    (noKeys : V.keys = []) : Owns others beside m := by
  obtain ⟨owned, strings⟩ := owns
  rw [List.flatMap_cons, StoredVariable.held, noTexts, noKeys] at owned
  rw [List.flatMap_cons, noTexts] at strings
  exact ⟨owned, strings⟩

theorem Owns.strdup (owns : Owns vars beside m) (s : List UInt8) :
    Owns vars (m.heap.next :: beside) (m.strdup s) where
  owned := owns.owned.alloc rfl
  strings := owns.strings

theorem Owns.write (owns : Owns vars beside m) {bytes : List UInt8} {next : VariableMemory}
    (written : m.write address bytes = .ok next) : Owns vars beside next := by
  unfold VariableMemory.write at written
  split at written
  · split at written
    · obtain rfl := Except.ok.inj written
      exact ⟨owns.owned.modify fun _ malloced => malloced, owns.strings⟩
    · cases written
  · cases written

theorem free_eq (owned : m.heap.Owned (fun block => block.malloced = true) (address :: beside)) :
    m.free address = .ok {
        heap := m.heap.free address
        strings := m.strings.erase address
      } := by
  obtain ⟨block, found, malloced⟩ := owned.allocated address List.mem_cons_self
  have nonzero : address ≠ 0 := by
    rintro rfl
    rw [m.heap.null] at found
    cases found
  rw [VariableMemory.free, if_neg nonzero, found]
  exact if_pos malloced

theorem Owns.replace (owns : Owns (V :: others) beside m) (texts : W.texts = V.texts)
    (keys : W.keys = V.keys) : Owns (W :: others) beside m := by
  obtain ⟨owned, strings⟩ := owns
  rw [List.flatMap_cons, StoredVariable.held, ← texts, ← keys,
    ← StoredVariable.held, ← List.flatMap_cons] at owned
  rw [List.flatMap_cons, ← texts, ← List.flatMap_cons] at strings
  exact ⟨owned, strings⟩

theorem Owns.first (owns : Owns (V :: others) beside m) :
    m.heap.Owned (fun block => block.malloced = true)
      (V.held ++ (beside ++ others.flatMap StoredVariable.held)) := by
  apply owns.owned.perm
  rw [List.flatMap_cons, ← List.append_assoc, ← List.append_assoc]
  exact List.perm_append_comm.append_right _

theorem texts_subset_held (member : address ∈ others.flatMap StoredVariable.texts) :
    address ∈ others.flatMap StoredVariable.held := by
  obtain ⟨W, listed, inTexts⟩ := List.mem_flatMap.mp member
  exact List.mem_flatMap.mpr ⟨W, listed, List.mem_append_left _ inTexts⟩

theorem Owns.freeHeld (owns : Owns (V :: others) beside m) (held : V.held = [address])
    (texts : W.texts = []) (keys : W.keys = []) :
    Owns (W :: others) beside {
      heap := m.heap.free address
      strings := m.strings.erase address
    } := by
  have owned := owns.first
  rw [held, List.singleton_append] at owned
  constructor
  · rw [List.flatMap_cons, StoredVariable.held, texts, keys]
    exact owned.free
  · rw [List.flatMap_cons, texts, List.nil_append]
    have strings := owns.strings.erase address
    rw [List.flatMap_cons] at strings
    apply strings.trans
    have fresh := (List.nodup_cons.mp owned.once).1
    have notOther : address ∉ others.flatMap StoredVariable.texts := by
      intro member
      exact fresh (List.mem_append_right _ (texts_subset_held member))
    have one : V.texts = [address] ∨ V.texts = [] := by
      have whole : V.texts ++ V.keys = [address] := held
      rcases List.append_eq_singleton_iff.mp whole with none | one
      · exact .inr none.1
      · exact .inl one.1
    rcases one with one | none
    · rw [one, List.singleton_append, List.erase_cons_head]
    · rw [none, List.nil_append, List.erase_of_not_mem notOther]

theorem Owns.free (owns : Owns (V :: others) beside m) (readable : V.Readable) : ∃ next,
      V.free m = .ok next ∧ ∀ W : StoredVariable, W.texts = [] → W.keys = [] →
          Owns (W :: others) beside next := by
  have nothing (noTexts : V.texts = []) (noKeys : V.keys = []) (W : StoredVariable)
      (texts : W.texts = [])
      (keys : W.keys = []) :
      Owns (W :: others) beside m :=
    owns.replace (texts.trans noTexts.symm) (keys.trans noKeys.symm)
  have something {address : Address} (held : V.held = [address]) :
      ∃ next, m.free address = .ok next ∧ ∀ W : StoredVariable, W.texts = [] → W.keys = [] →
            Owns (W :: others) beside next := by
    have owned := owns.first
    rw [held, List.singleton_append] at owned
    exact ⟨_, free_eq owned, fun W => owns.freeHeld held⟩
  by_cases isString : V.type = .string
  · have noKeys : V.keys = [] :=
      StoredVariable.keys_of_type (by rw [isString]; decide)
    obtain ⟨address, data⟩ := Option.ne_none_iff_exists'.mp (readable isString)
    by_cases ours : V.info = 0
    · have freed : V.free m = m.free address := by
        simp only [StoredVariable.free, isString, ours, data, if_true]
      have texts : V.texts = [address].filter (· ≠ 0) := by
        rw [StoredVariable.texts, if_pos ⟨isString, ours⟩, data]
        rfl
      rw [freed]
      by_cases null : address = 0
      · subst null
        exact ⟨m, if_pos rfl, nothing texts noKeys⟩
      · apply something
        rw [StoredVariable.held, noKeys, texts]
        simp [null]
    · have texts : V.texts = [] := if_neg fun both => ours both.2
      refine ⟨m, ?_, nothing texts noKeys⟩
      simp only [StoredVariable.free, isString, ours, if_false]
  · have noTexts := StoredVariable.texts_of_type isString
    by_cases isReference : V.type = .pVariable
    · have freed : V.free m = m.free V.info := by
        simp only [StoredVariable.free, isReference]
      rw [freed]
      by_cases null : V.info = 0
      · have noKeys : V.keys = [] := if_neg fun both => both.2 null
        exact ⟨m, if_pos null, nothing noTexts noKeys⟩
      · apply something
        rw [StoredVariable.held, noTexts, StoredVariable.keys, if_pos ⟨isReference, null⟩]
        rfl
    · refine ⟨m, ?_, nothing noTexts (StoredVariable.keys_of_type isReference)⟩
      unfold StoredVariable.free
      split
      · contradiction
      · contradiction
      · rfl

/-! ## Changes of one variable -/

theorem Owns.ofType (owns : Owns (V :: others) beside m) (readable : V.Readable)
    (type : VariableType) :
    ∃ X next, V.ofType type m = .ok (X, next) ∧
        X.type = type ∧ X.name = V.name ∧ Owns (X :: others) beside next := by
  unfold StoredVariable.ofType
  by_cases same : V.type = type
  · exact ⟨V, m, if_neg fun different => different same, same, rfl, owns⟩
  · obtain ⟨next, freed, owned⟩ := owns.free readable
    obtain ⟨texts, keys⟩ := StoredVariable.init_holds_nothing V.name type
    refine ⟨.init V.name type, next, ?_, rfl, rfl, owned _ texts keys⟩
    rw [if_pos same, freed]
    rfl

theorem Owns.bind (owns : Owns (V :: others) beside m) (readable : V.Readable) {type : VariableType}
    (notString : type ≠ .string) (notVariable : type ≠ .pVariable) (data : VariableData)
    (info : Option Nat) :
    ∃ X next, V.bind type data info m = .ok (X, next) ∧
        X.type = type ∧ X.data = data ∧ X.name = V.name ∧ Owns (X :: others) beside next := by
  obtain ⟨Y, next, fetched, isType, name, owned⟩ := owns.ofType readable type
  refine ⟨{ Y with data := data, info := info.getD Y.info }, next, ?_, isType, rfl, name, ?_⟩
  · rw [StoredVariable.bind, fetched]
    rfl
  · have texts (X : StoredVariable) (same : X.type = type) : X.texts = [] :=
      StoredVariable.texts_of_type (same ▸ notString)
    have keys (X : StoredVariable) (same : X.type = type) : X.keys = [] :=
      StoredVariable.keys_of_type (same ▸ notVariable)
    apply owned.replace
    · rw [texts Y isType]
      exact texts _ isType
    · rw [keys Y isType]
      exact keys _ isType

theorem Owns.bindVariable (owns : Owns (V :: others) beside m) (readable : V.Readable)
    (tgtObj : Address) (tgtKey : List UInt8) :
    ∃ X next, V.bindVariable tgtObj tgtKey m = .ok (X, next) ∧
        X.type = .pVariable ∧ X.data = .p tgtObj ∧ X.name = V.name ∧
          Owns (X :: others) beside next := by
  obtain ⟨Y, next, fetched, isType, name, owned⟩ := (owns.strdup tgtKey).ofType readable .pVariable
  have noTexts : Y.texts = [] := StoredVariable.texts_of_type (by rw [isType]; decide)
  refine ⟨{ Y with data := .p tgtObj, info := m.heap.next }, next, ?_, isType, rfl, name, ?_⟩
  · rw [StoredVariable.bindVariable, fetched]
    rfl
  · have texts : StoredVariable.texts
            { Y with data := .p tgtObj, info := m.heap.next } = [] :=
      StoredVariable.texts_of_type (by dsimp only; rw [isType]; decide)
    have keys : StoredVariable.keys
            { Y with data := .p tgtObj, info := m.heap.next } =
          [m.heap.next] :=
      if_pos ⟨isType, Nat.ne_of_gt m.heap.positive⟩
    constructor
    · apply (owned.first.sublist (List.sublist_append_right _ _)).perm
      rw [List.flatMap_cons, StoredVariable.held, texts, keys]
      exact List.perm_middle.symm
    · have strings := owned.strings
      rw [List.flatMap_cons, noTexts] at strings
      rwa [List.flatMap_cons, texts]

theorem Owns.give (owns : Owns (V :: others) (address :: beside) m) (noTexts : V.texts = [])
    (noKeys : V.keys = []) (texts : W.texts = [address]) (keys : W.keys = []) :
    Owns (W :: others) beside (m.give address) := by
  constructor
  · apply owns.owned.perm
    rw [List.flatMap_cons, List.flatMap_cons, StoredVariable.held,
      StoredVariable.held, noTexts, noKeys, texts, keys]
    exact List.perm_middle.symm
  · have strings := owns.strings
    rw [List.flatMap_cons, noTexts] at strings
    rw [List.flatMap_cons, texts]
    exact strings.cons address

theorem texts_of_given (nonzero : address ≠ 0) (isString : W.type = .string) (ours : W.info = 0)
    (data : W.data = .s address) : W.texts = [address] := by
  have kept : [address].filter (· ≠ 0) = [address] := by simp [nonzero]
  rw [StoredVariable.texts, if_pos ⟨isString, ours⟩, data]
  exact kept

theorem Owns.setText (owns : Owns (V :: others) (address :: beside) m) (nonzero : address ≠ 0)
    (readable : V.Readable) (notBuffer : V.type ≠ .pString) (s : List UInt8) :
    ∃ X next, V.setText address s m = .ok (X, next) ∧
        X.type = .string ∧ X.info = 0 ∧ X.data = .s address ∧
          X.name = V.name ∧ Owns (X :: others) beside next := by
  obtain ⟨next, freed, owned⟩ := owns.free readable
  have given (X : StoredVariable) (isString : X.type = .string) (ours : X.info = 0)
      (data : X.data = .s address) :
      Owns (X :: others) beside (next.give address) := by
    obtain ⟨noTexts, noKeys⟩ := StoredVariable.init_holds_nothing V.name .string
    apply (owned _ noTexts noKeys).give noTexts noKeys
    · exact texts_of_given nonzero isString ours data
    · exact StoredVariable.keys_of_type (by rw [isString]; decide)
  by_cases isString : V.type = .string
  · obtain ⟨old, data⟩ :=
      Option.ne_none_iff_exists'.mp (readable isString)
    have same : V.freeText old m = .ok next := by
      rw [← freed]
      simp only [StoredVariable.freeText, StoredVariable.free, isString, data]
      by_cases ours : V.info = 0
      · by_cases null : old = 0
        · rw [if_neg fun both => both.1 null, if_pos ours]
          exact (if_pos null).symm
        · rw [if_pos ⟨null, ours⟩, if_pos ours]
      · rw [if_neg fun both => ours both.2, if_neg ours]
    refine ⟨{ V with data := .s address, info := 0 }, next.give address, ?_,
      isString, rfl, rfl, rfl, given _ isString rfl rfl⟩
    simp only [StoredVariable.setText, isString, data, same]
    rfl
  · refine ⟨{ StoredVariable.init V.name .string with data := .s address },
      next.give address, ?_, rfl, rfl, rfl, rfl, given _ rfl rfl rfl⟩
    unfold StoredVariable.setText
    split
    · contradiction
    · contradiction
    · rw [freed]
      rfl

end

/-! ## Calls -/

namespace VariableState

/-- The variable that a call for a name changes. -/
def target (σ : VariableState) (name : List UInt8) (type : VariableType) : StoredVariable :=
  (σ.vars.find? fun V => V.name.bytes = name).getD (.init (.strlcpy name) type)

/--
The types of the variables say what they hold, what they hold is theirs and
will be freed once, and the one variable of the name, where it is a reference,
has the target that it was last bound to.
-/
structure Sound (σ : VariableState) (name : List UInt8) : Prop where
  tagged : ∀ V ∈ σ.vars, V.Tagged
  owns : Owns σ.vars [] σ.memory
  unique : (σ.vars.filter fun V => V.name.bytes = name).length ≤ 1
  bound : ∀ V, (σ.vars.find? fun V => V.name.bytes = name) = some V →
      (agVariableTypes V.type).indirLvl > 0 →
      V.data.address = some σ.bound

/-- There is room for some bytes at the address in a variable. -/
def Room (σ : VariableState) (V : StoredVariable) (count : Nat) : Prop :=
  ∃ address block, V.data.address = some address ∧ σ.memory.heap.cells address = some block ∧
        count ≤ block.bytes.length

/-- A string fits the buffer that a variable references, truncated to it. -/
def Fits (σ : VariableState) (V : StoredVariable) (s : List UInt8) : Prop :=
  V.type = .pString → V.info ≠ 0 → σ.Room V (s.take (V.info - 1) ++ [0]).length

/--
A value is stored in a variable whose type has it in the same member, or
through a reference to an object at least as large; a string that is copied to
a buffer fits in it, truncated to the size it was bound with.
-/
def Meets (σ : VariableState) (name : List UInt8) : VariableCall → Prop
  | .set call =>
    let V := σ.target name call.ntype
    if (agVariableTypes V.type).indirLvl > 0 then σ.Room V call.data.bytes.length
    else call.data.member = V.type.member
  | .setString s => σ.Fits (σ.target name .string) s
  | .setStringNODUP s => { σ with memory := σ.memory.strdup s }.Fits (σ.target name .string) s
  | _ => True

variable {σ : VariableState} {name : List UInt8}

theorem Sound.target_readable (sound : σ.Sound name) (type : VariableType) :
    (σ.target name type).Readable := by
  unfold target
  cases found : σ.vars.find? fun V => V.name.bytes = name with
  | none => exact StoredVariable.init_readable _ _
  | some V => exact (sound.tagged V (List.mem_of_find?_eq_some found)).readable

theorem empty_sound : empty.Sound name where
  tagged V member := absurd member List.not_mem_nil
  owns := ⟨Heap.owned_nil, .refl _⟩
  unique := Nat.zero_le 1
  bound := by
    intro V found
    cases found

variable {V : StoredVariable}

theorem others_of_unique {others : List StoredVariable}
    (unique : (σ.vars.filter fun V => V.name.bytes = name).length ≤ 1)
    (around : σ.vars.Perm (V :: others)) (selected : decide (V.name.bytes = name) = true)
    (W : StoredVariable) (member : W ∈ others) : W.name.bytes ≠ name := by
  intro same
  have count := (around.filter fun V => V.name.bytes = name).length_eq
  rw [List.filter_cons, if_pos selected, List.length_cons] at count
  have one : 0 < (others.filter fun V => V.name.bytes = name).length :=
    List.length_pos_of_mem (List.mem_filter.mpr ⟨member, decide_eq_true same⟩)
  omega

theorem fetch_split (unique : (σ.vars.filter fun V => V.name.bytes = name).length ≤ 1)
    (type : VariableType) :
    ∃ (others : List StoredVariable) (place : StoredVariable → List StoredVariable),
      (∀ V ∈ others, V ∈ σ.vars ∧ V.name.bytes ≠ name) ∧
      (∀ m, Owns σ.vars [] m → Owns (σ.target name type :: others) [] m) ∧
      (∀ change, σ.fetchVariable name type change = do
          let (V, m) ← change (σ.target name type) σ.memory
          return { σ with vars := place V, memory := m }) ∧
      ∀ V, (place V).Perm (V :: others) := by
  cases found : σ.vars.find? fun V => V.name.bytes = name with
  | none =>
    have target : σ.target name type = .init (.strlcpy name) type := by
      rw [VariableState.target, found]
      rfl
    refine ⟨σ.vars, fun V => σ.vars ++ [V], ?_, ?_, ?_, ?_⟩
    · intro V member
      apply And.intro member
      intro same
      exact List.find?_eq_none.mp found V member (decide_eq_true same)
    · intro m owns
      rw [target]
      exact owns.init _ _
    · intro change
      rw [target, fetchVariable, found]
    · intro V
      exact List.perm_append_singleton V σ.vars
  | some old =>
    have target : σ.target name type = old := by
      rw [VariableState.target, found]
      rfl
    obtain ⟨front, back, whole, updated, _, _⟩ := split_first found
    have selected := List.find?_some found
    have around : σ.vars.Perm (old :: (front ++ back)) := by
      rw [whole]
      exact List.perm_middle
    refine ⟨front ++ back, fun V => front ++ V :: back, ?_, ?_, ?_, ?_⟩
    · intro V member
      apply And.intro (around.mem_iff.mpr (List.mem_cons_of_mem _ member))
      exact others_of_unique unique around selected V member
    · intro m owns
      rw [target]
      exact owns.perm around
    · intro change
      rw [target, fetchVariable, found]
      simp only [updated]
    · intro V
      exact List.perm_middle

variable {change : StoredVariable.Change}

theorem Sound.fetch (sound : σ.Sound name) (type : VariableType) (b : Address)
    (changed : ∀ others, Owns (σ.target name type :: others) [] σ.memory → ∃ V m,
          change (σ.target name type) σ.memory = .ok (V, m) ∧ V.name = (σ.target name type).name ∧
              V.Tagged ∧ ((agVariableTypes V.type).indirLvl > 0 → V.data.address = some b) ∧
                  Owns (V :: others) [] m) :
    ∃ next, { σ with bound := b }.fetchVariable name type change = .ok next ∧ next.Sound name := by
  obtain ⟨others, place, apart, owns, fetched, around⟩ :=
    fetch_split (σ := { σ with bound := b }) sound.unique type
  obtain ⟨V, m, taken, named, tagged, bound, owned⟩ := changed others (owns _ sound.owns)
  have taken : change (VariableState.target { σ with bound := b } name type)
        σ.memory = .ok (V, m) :=
    taken
  refine ⟨{ vars := place V, memory := m, bound := b }, ?_, ?_⟩
  · rw [fetched, taken]
    rfl
  · exact {
      tagged := by
        intro W member
        rcases List.mem_cons.mp ((around V).mem_iff.mp member) with rfl | other
        · exact tagged
        · exact sound.tagged W (apart W other).1
      owns := owned.perm (around V).symm
      unique := by
        have count := ((around V).filter fun V => V.name.bytes = name).length_eq
        have none : (others.filter fun V => V.name.bytes = name) = [] := by
          rw [List.filter_eq_nil_iff]
          intro W other
          simpa using (apart W other).2
        rw [List.filter_cons, none] at count
        dsimp only
        rw [count]
        split <;> simp
      bound := by
        intro W found isReference
        have member := List.mem_of_find?_eq_some found
        have selected := List.find?_some found
        rcases List.mem_cons.mp ((around V).mem_iff.mp member) with rfl | other
        · exact bound isReference
        · exact absurd (of_decide_eq_true selected) (apart W other).2
    }

variable {type : VariableType}

theorem fetch_fails {failure : Stop}
    (failed : change (σ.target name type) σ.memory = .error failure) :
    ¬ ∃ next, σ.fetchVariable name type change = .ok next ∧ next.Sound name := by
  intro result
  obtain ⟨next, taken, _⟩ := result
  unfold fetchVariable at taken
  unfold target at failed
  cases found : σ.vars.find? fun V => V.name.bytes = name with
  | none =>
    rw [found] at taken failed
    obtain ⟨_, changed, _⟩ := bind_eq_ok.mp taken
    cases failed.symm.trans changed
  | some V =>
    rw [found] at taken failed
    obtain ⟨_, changed, _⟩ := bind_eq_ok.mp taken
    cases failed.symm.trans changed

theorem fetch_mistags {m : VariableMemory}
    (unique : (σ.vars.filter fun V => V.name.bytes = name).length ≤ 1)
    (changed : change (σ.target name type) σ.memory = .ok (V, m)) (mistagged : ¬ V.Tagged) :
    ¬ ∃ next, σ.fetchVariable name type change = .ok next ∧ next.Sound name := by
  intro result
  obtain ⟨next, taken, sound⟩ := result
  obtain ⟨_, place, _, _, fetched, around⟩ := fetch_split unique type
  rw [fetched, changed] at taken
  obtain rfl := Except.ok.inj taken
  exact mistagged (sound.tagged V ((around V).mem_iff.mpr List.mem_cons_self))

theorem Sound.target_cases (sound : σ.Sound name) (type : VariableType) :
    (σ.target name type).Tagged ∧ ((agVariableTypes (σ.target name type).type).indirLvl > 0 →
          (σ.target name type).data.address = some σ.bound) ∨
      σ.target name type = .init (.strlcpy name) type := by
  cases found : σ.vars.find? fun V => V.name.bytes = name with
  | none =>
    right
    rw [VariableState.target, found]
    rfl
  | some V =>
    left
    have target : σ.target name type = V := by
      rw [VariableState.target, found]
      rfl
    rw [target]
    exact ⟨sound.tagged V (List.mem_of_find?_eq_some found), sound.bound V found⟩

theorem room_iff {bytes : List UInt8} : σ.Room V bytes.length ↔ ∃ address next,
        V.data.address = some address ∧ σ.memory.write address bytes = .ok next := by
  constructor
  · intro room
    obtain ⟨address, block, data, found, fits⟩ := room
    refine ⟨address, { σ.memory with
      heap := σ.memory.heap.modify address fun block =>
        { block with bytes := splice block.bytes 0 bytes }
    }, data, ?_⟩
    rw [VariableMemory.write, found]
    exact if_pos fits
  · intro written
    obtain ⟨address, next, data, written⟩ := written
    unfold VariableMemory.write at written
    split at written
    case h_1 block found =>
      split at written
      case isTrue fits => exact ⟨address, block, data, found, fits⟩
      case isFalse => cases written
    case h_2 => cases written

theorem setCall_member_ne_s (call : SetCall) : call.data.member ≠ .s := by
  cases call <;> exact UnionMember.noConfusion

theorem set_reference (isReference : (agVariableTypes V.type).indirLvl > 0) (v : VariableData) :
    σ.Room V v.bytes.length ∧ (∃ m, V.set v σ.memory = .ok (V, m) ∧
            ∀ vars, Owns vars [] σ.memory → Owns vars [] m) ∨
      ¬ σ.Room V v.bytes.length ∧ V.set v σ.memory = .error .undefined := by
  unfold StoredVariable.set
  rw [if_pos isReference]
  cases data : V.data.address with
  | none =>
    right
    refine ⟨?_, rfl⟩
    intro room
    obtain ⟨address, _, there, _⟩ := room
    rw [data] at there
    cases there
  | some address =>
    cases written : σ.memory.write address v.bytes with
    | ok m =>
      left
      refine ⟨room_iff.mpr ⟨address, m, data, written⟩, m, ?_, fun vars owns => owns.write written⟩
      simp only [written]
      rfl
    | error failure =>
      right
      constructor
      · intro room
        obtain ⟨other, m, there, stored⟩ := room_iff.mp room
        rw [data] at there
        obtain rfl := Option.some.inj there
        rw [written] at stored
        cases stored
      · have isUndefined : failure = .undefined := by
          unfold VariableMemory.write at written
          split at written
          · split at written
            · cases written
            · exact (Except.error.inj written).symm
          · exact (Except.error.inj written).symm
        simp only [written, isUndefined]
        rfl

theorem Sound.set_iff (sound : σ.Sound name) (call : SetCall) : (∃ next,
        σ.fetchVariable name call.ntype (StoredVariable.set call.data) =
          .ok next ∧ next.Sound name) ↔
      σ.Meets name (.set call) := by
  have found := sound.target_cases call.ntype
  dsimp only [Meets]
  split
  case isTrue isReference =>
    rcases set_reference isReference call.data with
      ⟨room, m, stored, kept⟩ | ⟨noRoom, failed⟩
    · refine iff_of_true ?_ room
      apply sound.fetch call.ntype σ.bound
      intro others owns
      refine ⟨_, m, stored, rfl, ?_⟩
      rcases found with ⟨tagged, bound⟩ | new
      · exact ⟨tagged, bound, kept _ owns⟩
      · obtain ⟨address, block, data, there, _⟩ := room
        rw [new] at data
        obtain rfl := Option.some.inj data
        rw [σ.memory.heap.null] at there
        cases there
    · exact iff_of_false (fetch_fails failed) noRoom
  case isFalse isValue =>
    have stored : (σ.target name call.ntype).set call.data σ.memory =
          .ok ({ σ.target name call.ntype with data := call.data }, σ.memory) :=
      if_neg isValue
    constructor
    · intro result
      by_contra mismatch
      refine fetch_mistags sound.unique stored ?_ result
      intro tagged
      exact mismatch tagged.member
    · intro same
      have notString : (σ.target name call.ntype).type ≠ .string := by
        intro isString
        rw [isString] at same
        exact setCall_member_ne_s call same
      have notVariable : (σ.target name call.ntype).type ≠ .pVariable := by
        intro isVariable
        rw [isVariable] at isValue
        exact isValue Nat.zero_lt_one
      apply sound.fetch call.ntype σ.bound
      intro others owns
      refine ⟨_, _, stored, rfl, ⟨same, fun isString => ?_⟩,
        fun isReference => absurd isReference isValue, ?_⟩
      · exact absurd isString notString
      · apply owns.replace
        · rw [StoredVariable.texts_of_type notString]
          exact StoredVariable.texts_of_type notString
        · rw [StoredVariable.keys_of_type notVariable]
          exact StoredVariable.keys_of_type notVariable

theorem Sound.bind (sound : σ.Sound name) (notString : type ≠ .string)
    (notVariable : type ≠ .pVariable) {data : VariableData} (info : Option Nat) {b : Address}
    (member : data.member = type.member)
    (target : (agVariableTypes type).indirLvl > 0 → data.address = some b) :
    ∃ next, { σ with bound := b }.fetchVariable name type
          (StoredVariable.bind type data info) = .ok next ∧
        next.Sound name := by
  apply sound.fetch type b
  intro others owns
  obtain ⟨V, m, bound, isType, isData, named, owned⟩ :=
    owns.bind (sound.target_readable type) notString notVariable data info
  refine ⟨V, m, bound, named, ⟨?_, ?_⟩, ?_, owned⟩
  · rw [isType, isData]
    exact member
  · intro isString
    exact absurd (isType.symm.trans isString) notString
  · intro isReference
    rw [isType] at isReference
    rw [isData]
    exact target isReference

theorem bindCall_spec (call : BindCall) : call.ntype ≠ .string ∧ call.ntype ≠ .pVariable ∧
        call.data.member = call.ntype.member ∧ call.data.address = some call.target := by
  cases call <;>
    exact ⟨VariableType.noConfusion, VariableType.noConfusion, rfl, rfl⟩

theorem Sound.bindVariable (sound : σ.Sound name) (tgtObj : Address) (tgtKey : List UInt8) : ∃ next,
      { σ with bound := tgtObj }.fetchVariable name .pVariable
          (StoredVariable.bindVariable tgtObj tgtKey) = .ok next ∧
        next.Sound name := by
  apply sound.fetch .pVariable tgtObj
  intro others owns
  obtain ⟨V, m, bound, isType, isData, named, owned⟩ :=
    owns.bindVariable (sound.target_readable .pVariable) tgtObj tgtKey
  refine ⟨V, m, bound, named, ⟨?_, ?_⟩, ?_, owned⟩
  · rw [isType, isData]
    rfl
  · intro isString
    rw [isType] at isString
    cases isString
  · intro _
    rw [isData]
    rfl

theorem setText_buffer {buffer : Address} (isBuffer : V.type = .pString)
    (data : V.data.address = some buffer) (address : Address) (s : List UInt8) :
    σ.Fits V s ∧ (∃ m, V.setText address s σ.memory = .ok (V, m) ∧
            ∀ vars, Owns vars [] σ.memory → Owns vars [] m) ∨
      ¬ σ.Fits V s ∧ ∃ failure, V.setText address s σ.memory = .error failure := by
  have copied : V.setText address s σ.memory = do
        let m ← σ.memory.strlcpy buffer s V.info
        return (V, m) := by
    simp only [StoredVariable.setText, isBuffer, data]
  rw [copied, VariableMemory.strlcpy]
  by_cases empty : V.info = 0
  · left
    refine ⟨fun _ sized => absurd empty sized, σ.memory, ?_, fun _ owns => owns⟩
    rw [if_pos empty]
    rfl
  · rw [if_neg empty]
    cases written : σ.memory.write buffer (s.take (V.info - 1) ++ [0]) with
    | ok m =>
      left
      refine ⟨fun _ _ => room_iff.mpr ⟨buffer, m, data, written⟩, m, rfl,
        fun _ owns => owns.write written⟩
    | error failure =>
      right
      refine ⟨?_, failure, rfl⟩
      intro fits
      obtain ⟨other, m, there, stored⟩ := room_iff.mp (fits isBuffer empty)
      rw [data] at there
      obtain rfl := Option.some.inj there
      rw [written] at stored
      cases stored

theorem fits_of_type (notBuffer : V.type ≠ .pString) (s : List UInt8) : σ.Fits V s :=
  fun isBuffer => absurd isBuffer notBuffer

theorem Sound.buffer (sound : σ.Sound name) (isBuffer : (σ.target name .string).type = .pString) :
    (σ.target name .string).Tagged ∧ (σ.target name .string).data.address = some σ.bound := by
  rcases sound.target_cases .string with ⟨tagged, bound⟩ | new
  · apply And.intro tagged
    apply bound
    rw [isBuffer]
    exact Nat.zero_lt_one
  · rw [new] at isBuffer
    cases isBuffer

theorem Sound.setText (sound : σ.Sound name) (notBuffer : (σ.target name .string).type ≠ .pString)
    (s : List UInt8) (changes : change (σ.target name .string) σ.memory =
        (σ.target name .string).setText σ.memory.heap.next s (σ.memory.strdup s)) :
    ∃ next, σ.fetchVariable name .string change = .ok next ∧ next.Sound name := by
  apply sound.fetch .string σ.bound
  intro others owns
  have nonzero : σ.memory.heap.next ≠ 0 := Nat.ne_of_gt σ.memory.heap.positive
  obtain ⟨V, m, changed, isString, ours, data, named, owned⟩ :=
    (owns.strdup s).setText nonzero (sound.target_readable .string) notBuffer s
  refine ⟨V, m, changes.trans changed, named, ⟨?_, ?_⟩, ?_, owned⟩
  · rw [isString, data]
    rfl
  · intro _
    apply And.intro ours
    rw [data]
    exact fun null => nonzero (Option.some.inj null)
  · intro isReference
    rw [isString] at isReference
    exact absurd isReference (Nat.lt_irrefl 0)

theorem Sound.setString_iff (sound : σ.Sound name) (s : List UInt8) : (∃ next,
        σ.fetchVariable name .string (StoredVariable.setString s) = .ok next ∧ next.Sound name) ↔
      σ.Fits (σ.target name .string) s := by
  by_cases isBuffer : (σ.target name .string).type = .pString
  · obtain ⟨tagged, data⟩ := sound.buffer isBuffer
    have changes : StoredVariable.setString s (σ.target name .string) σ.memory =
          (σ.target name .string).setText 0 s σ.memory :=
      if_pos isBuffer
    rcases setText_buffer isBuffer data 0 s with
      ⟨fits, m, copied, kept⟩ | ⟨noFit, failure, failed⟩
    · refine iff_of_true ?_ fits
      apply sound.fetch .string σ.bound
      intro others owns
      exact ⟨_, m, changes.trans copied, rfl, tagged, fun _ => data, kept _ owns⟩
    · exact iff_of_false (fetch_fails (changes.trans failed)) noFit
  · refine iff_of_true ?_ (fits_of_type isBuffer s)
    exact sound.setText isBuffer s (if_neg isBuffer)

theorem Sound.setStringNODUP_iff (sound : σ.Sound name) (s : List UInt8) : (∃ next,
        σ.fetchVariable name .string (StoredVariable.setStringNODUP s) =
          .ok next ∧ next.Sound name) ↔
      { σ with memory := σ.memory.strdup s }.Fits (σ.target name .string) s := by
  by_cases isBuffer : (σ.target name .string).type = .pString
  · obtain ⟨tagged, data⟩ := sound.buffer isBuffer
    -- Nothing frees the string that was passed; it stays where it is.
    rcases setText_buffer (σ := { σ with memory := σ.memory.strdup s })
        isBuffer data σ.memory.heap.next s with
      ⟨fits, m, copied, kept⟩ | ⟨noFit, failure, failed⟩
    · refine iff_of_true ?_ fits
      apply sound.fetch .string σ.bound
      intro others owns
      exact ⟨_, m, copied, rfl, tagged, fun _ => data, kept _ (owns.strdup s).forget⟩
    · exact iff_of_false (fetch_fails failed) noFit
  · refine iff_of_true ?_ (fits_of_type isBuffer s)
    exact sound.setText isBuffer s rfl

theorem Sound.unset (sound : σ.Sound name) : ∃ next, σ.unset name = .ok next ∧ next.Sound name := by
  unfold VariableState.unset
  cases found : σ.vars.find? fun V => V.name.bytes = name with
  | none => exact ⟨σ, rfl, sound⟩
  | some V =>
    obtain ⟨front, back, whole, _, erased, _⟩ := split_first found
    have selected := List.find?_some found
    have around : σ.vars.Perm (V :: (front ++ back)) := by
      rw [whole]
      exact List.perm_middle
    have apart : ∀ W ∈ front ++ back, W ∈ σ.vars ∧ W.name.bytes ≠ name := by
      intro W member
      apply And.intro (around.mem_iff.mpr (List.mem_cons_of_mem _ member))
      exact others_of_unique sound.unique around selected W member
    have readable := (sound.tagged V (List.mem_of_find?_eq_some found)).readable
    obtain ⟨m, freed, owned⟩ := (sound.owns.perm around).free readable
    refine ⟨{ σ with vars := front ++ back, memory := m }, ?_, ?_⟩
    · dsimp only
      rw [freed, erased]
      rfl
    · obtain ⟨noTexts, noKeys⟩ :=
        StoredVariable.init_holds_nothing V.name V.type
      have none : (front ++ back).filter (fun W => W.name.bytes = name) = [] := by
        rw [List.filter_eq_nil_iff]
        intro W member
        simpa using (apart W member).2
      exact {
        tagged := fun W member => sound.tagged W (apart W member).1
        owns := (owned _ noTexts noKeys).drop noTexts noKeys
        unique := by
          dsimp only
          rw [none]
          exact Nat.zero_le 1
        bound := by
          intro W there
          have member := List.mem_of_find?_eq_some there
          have same := List.find?_some there
          exact absurd (of_decide_eq_true same) (apart W member).2
      }

theorem Sound.call_iff (sound : σ.Sound name) (call : VariableCall) :
    (∃ next, σ.call name call = .ok next ∧ next.Sound name) ↔ σ.Meets name call := by
  cases call with
  | set call => exact sound.set_iff call
  | bind call =>
    obtain ⟨notString, notVariable, member, target⟩ := bindCall_spec call
    exact iff_of_true (sound.bind notString notVariable call.info member fun _ => target)
      trivial
  | bindVariable tgtObj tgtKey => exact iff_of_true (sound.bindVariable tgtObj tgtKey) trivial
  | setString s => exact sound.setString_iff s
  | setStringNODUP s => exact sound.setStringNODUP_iff s
  | setConstString v length =>
    refine iff_of_true ?_ trivial
    refine sound.bind (b := σ.bound) ?_ ?_ (some (length + 1)) rfl ?_
    · exact VariableType.noConfusion
    · exact VariableType.noConfusion
    · intro isReference
      exact absurd isReference (Nat.lt_irrefl 0)
  | unset => exact iff_of_true sound.unset trivial

/-- One call for the variable of a name, until one has no defined result. -/
def step (name : List UInt8) (state : Except Stop VariableState)
    (call : VariableCall) : Option (Except Stop VariableState) :=
  some (state >>= fun σ => σ.call name call)

/-- The calls made so far all had a defined result, and it is sound. -/
def KeptSound (name : List UInt8) (state : Except Stop VariableState) : Prop :=
  ∃ σ, state = .ok σ ∧ σ.Sound name

/-- What a call is to meet in the state that it is made in. -/
def CallMeets (name : List UInt8) (state : Except Stop VariableState)
    (call : VariableCall) : Prop :=
  ∃ σ, state = .ok σ ∧ σ.Meets name call

theorem step_completes (state : Except Stop VariableState) (calls : List VariableCall) :
    ∃ final, run (step name) state calls = some final := by
  induction calls generalizing state with
  | nil => exact ⟨state, rfl⟩
  | cons call rest ih =>
    obtain ⟨final, completes⟩ := ih (state >>= fun σ => σ.call name call)
    exact ⟨final, run_cons_some.mpr ⟨_, rfl, completes⟩⟩

/--
From any sound state and over any sequence of calls for one name, the type of
every variable says what it holds, its string is freed once, and a reference
has the target that it was bound to, exactly when each call stores a value in
a variable of its type, and writes through a reference what fits there.
-/
theorem tags_hold_iff (sound : σ.Sound name) (calls : List VariableCall) :
    AlwaysAlong (step name) (KeptSound name) (.ok σ) calls ↔
      EachStep (step name) (CallMeets name) (.ok σ) calls := by
  obtain ⟨final, completes⟩ : ∃ final, run (step name) (.ok σ) calls = some final :=
    step_completes (.ok σ) calls
  refine alwaysAlong_iff_eachStep (fun _ => True) (fun _ _ _ _ _ _ => trivial)
    ?_ trivial ⟨σ, rfl, sound⟩ (eachStep_true _ _) completes
  intro state call next _ kept _ taken
  obtain ⟨before, rfl, sound⟩ := kept
  obtain rfl := Option.some.inj taken
  constructor
  · intro kept
    exact ⟨before, rfl, (sound.call_iff call).mp kept⟩
  · intro met
    obtain ⟨other, same, meets⟩ := met
    obtain rfl := Except.ok.inj same
    exact (sound.call_iff call).mpr meets

theorem tags_hold_iff_replaced : AlwaysAlong (step [97]) (KeptSound [97]) (.ok empty)
      [.set (.setInt 7), .setString [104, 105], .unset] := by
  refine (tags_hold_iff empty_sound _).mpr ?_
  refine ⟨⟨_, rfl, rfl⟩, fun assigned taken => ?_⟩
  cases taken
  refine ⟨⟨_, rfl, fits_of_type VariableType.noConfusion _⟩, fun replaced taken => ?_⟩
  cases taken
  exact ⟨⟨_, rfl, trivial⟩, fun _ _ => trivial⟩

theorem integer_tagged_as_string : ¬ AlwaysAlong (step [97]) (KeptSound [97]) (.ok empty)
        [.setString [104, 105], .set (.setInt 7)] := by
  intro along
  obtain ⟨σ, same, sound⟩ := (along.2 _ rfl).2 _ rfl
  obtain rfl := Except.ok.inj same
  exact absurd (sound.tagged _ List.mem_cons_self).member (by decide)

end VariableState

end Agar.Core
