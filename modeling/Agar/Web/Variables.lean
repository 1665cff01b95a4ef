import Agar.Core.DataSource
import Agar.Lib.CString
import Agar.Lib.Outcome
import Agar.Lib.Runs
import Agar.Lib.UpdateFirst

namespace Agar.Web

open Agar.Lib
open Agar.Core

/-!
# Template variables

The application has a list of variables, the texts that the variables of a
template are replaced by.  A variable is found by its key; the functions that
append to it take a pointer to it.

An access outside the buffer of a value has no defined result.  A function
that is refused memory ends the program, but for `vasprintf`, of which a call
says whether it could format its text.
-/

/-- A `WEB_Variable *` -/
abbrev VarRef := Nat

/-- A string, without its terminator -/
abbrev Text := List UInt8

/-- `WEB_VAR_NAME_MAX` -/
abbrev varNameMax : Nat := 32

instance : NeZero varNameMax := ⟨by decide⟩

/-- `WEB_VAR_BUF_INIT` -/
def varBufInit : Nat := 128

/-- `WEB_VAR_BUF_GROW` -/
def varBufGrow : Nat := 1024

/-- `struct web_variable`; a value that is `NULL` has no cells -/
structure WebVariable where
  ref : VarRef
  key : CString varNameMax
  value : Option (List UInt8)
  len : Nat
  bufSize : Nat
  global : Bool
  deriving DecidableEq

/-- The variables of the application, and the next pointer to one. -/
structure WebApp where
  vars : List WebVariable
  next : VarRef
  deriving DecidableEq

namespace WebVariable

/-- `memcpy(&V->value[start], bytes, …)` -/
def write (V : WebVariable) (start : Int) (bytes : List UInt8) : Except Stop WebVariable := do
  let value ← memWrite (V.value.getD []) start bytes
  return { V with value := some value }

/-- `WEB_VAR_Grow` -/
def grow (fresh : Nat → UInt8) (V : WebVariable) (len : Nat) : WebVariable :=
  if V.len + len ≥ V.bufSize then
    let bufSize := V.len + len + varBufGrow
    { V with
      bufSize := bufSize
      value := some (resize fresh bufSize (V.value.getD []))
    }
  else V

/-- `WEB_VAR_CatC` -/
def catC (fresh : Nat → UInt8) (V : WebVariable) (c : UInt8) : Except Stop WebVariable := do
  let V := V.grow fresh 1
  let V ← V.write V.len [c]
  let V ← V.write (V.len + 1) [0]
  return { V with len := V.len + 1 }

/-- `WEB_VAR_CatS` -/
def catS (fresh : Nat → UInt8) (V : WebVariable) (s : Text) : Except Stop WebVariable := do
  let V := V.grow fresh (s.length + 1)
  let V ← V.write V.len (s ++ [0])
  return { V with len := V.len + s.length }

/-- `WEB_VAR_Cat` of a text, where `vasprintf` could format it -/
def cat (fresh : Nat → UInt8) (V : WebVariable) (text : Text)
    (formatted : Bool) : Except Stop WebVariable :=
  if formatted then V.catS fresh text else .ok V

/-- Append a character, or the string that stands for it. -/
def catChar (escape : UInt8 → Option Text) (fresh : Nat → UInt8) (V : WebVariable)
    (c : UInt8) : Except Stop WebVariable :=
  match escape c with
  | some s => V.catS fresh s
  | none => V.catC fresh c

/--
The loop of `WEB_VAR_CatS_NoHTML` and of `WEB_VAR_CatJS`, which append some
characters as other strings
-/
def catChars (escape : UInt8 → Option Text) (fresh : Nat → UInt8)
    (V : WebVariable) : Text → Except Stop WebVariable
  | [] => return V
  | c :: rest => do
      let V ← V.catChar escape fresh c
      V.catChars escape fresh rest

/-- The strings of `WEB_VAR_CatS_NoHTML` -/
def escapeHTML (c : UInt8) : Option Text :=
  if c = 34 then some (ascii "&quot;")
  else if c = 38 then some (ascii "&amp;")
  else if c = 60 then some (ascii "&lt;")
  else if c = 62 then some (ascii "&gt;")
  else none

/-- The strings of `WEB_VAR_CatJS` -/
def escapeJS (c : UInt8) : Option Text :=
  if c = 92 then some [92, 92]
  else if c = 34 then some [92, 34]
  else none

/-- `WEB_VAR_CatS_NoHTML` -/
def catSNoHTML (fresh : Nat → UInt8) (V : WebVariable) (s : Text) : Except Stop WebVariable :=
  (V.grow fresh s.length).catChars escapeHTML fresh s

/-- `WEB_VAR_CatJS` -/
def catJS (fresh : Nat → UInt8) (V : WebVariable) (s : Text) : Except Stop WebVariable := do
  let V ← (V.grow fresh (s.length + 3)).catC fresh 34
  let V ← V.catChars escapeJS fresh s
  V.catS fresh [34, 44]

/-- `WEB_VAR_CatN` of all bytes of a text -/
def catN (fresh : Nat → UInt8) (V : WebVariable) (s : Text) : Except Stop WebVariable := do
  let V := V.grow fresh (s.length + 1)
  let V ← V.write V.len s
  let V ← V.write (V.len + s.length - 1) [0]
  return { V with len := V.len + s.length }

/-- `WEB_VAR_CatN_NoNUL` of all bytes of a text -/
def catNNoNUL (fresh : Nat → UInt8) (V : WebVariable) (s : Text) : Except Stop WebVariable := do
  let V := V.grow fresh (s.length + 1)
  let V ← V.write V.len s
  return { V with len := V.len + s.length }

end WebVariable

/-- The value that a variable is set to, with its length and its size. -/
structure Content where
  value : Option (List UInt8)
  len : Nat
  bufSize : Nat

/-- The value of a variable that is set to `NULL` -/
def Content.initial (fresh : Nat → UInt8) : Content where
  value := some (splice (resize fresh varBufInit []) 0 [0])
  len := 0
  bufSize := varBufInit

/-- A string that is allocated to its length. -/
def Content.ofString (s : Text) : Content where
  value := some (s ++ [0])
  len := s.length
  bufSize := s.length + 1

/-- The value where `vasprintf` fails -/
def Content.failed : Content where
  value := none
  len := 0
  bufSize := 0

namespace WebApp

/-- The loop that looks a key up -/
def find (app : WebApp) (key : Text) : Option WebVariable :=
  app.vars.find? fun V => V.key.bytes = key

theorem key_of_find {app : WebApp} {key : Text} {V : WebVariable} (found : app.find key = some V) :
    V.key.bytes = key := by
  unfold find at found
  have selected := List.find?_some found
  exact of_decide_eq_true selected

/-- `WEB_VAR_Get`: the value of the variable -/
def get (app : WebApp) (key : Text) : Option (List UInt8) :=
  (app.vars.find? fun V => decide (V.key.bytes ≠ [] ∧ V.key.bytes = key)).bind (·.value)

/-- What the functions that set a variable share; a key may be `NULL`. -/
def assign (app : WebApp) (key : Option Text) (content : Content)
    (global : Bool) : WebApp × VarRef :=
  match key.bind app.find with
  | none =>
    let V : WebVariable := {
      ref := app.next
      key := .strlcpy (key.getD [])
      value := content.value
      len := content.len
      bufSize := content.bufSize
      global := global
    }
    ({ vars := V :: app.vars, next := app.next + 1 }, app.next)
  | some V =>
    ({ app with
      -- `V` is the first variable of its key
      vars := updateFirst (fun W => W.key.bytes = V.key.bytes)
        (fun W => { W with
          value := content.value
          len := content.len
          bufSize := content.bufSize
          global := global
        })
        app.vars
    }, V.ref)

/-- `WEB_VAR_Set`, where `vasprintf` could format the text -/
def set (app : WebApp) (fresh : Nat → UInt8) (key : Option Text) (text : Option Text)
    (formatted : Bool) : WebApp × VarRef :=
  let content :=
    match text with
    | some s => if formatted then Content.ofString s else .failed
    | none => .initial fresh
  app.assign key content false

/-- `WEB_VAR_SetS` -/
def setS (app : WebApp) (fresh : Nat → UInt8) (key : Option Text)
    (s : Option Text) : WebApp × VarRef :=
  app.assign key (s.elim (.initial fresh) .ofString) false

/-- `WEB_VAR_SetGlobalS` -/
def setGlobalS (app : WebApp) (fresh : Nat → UInt8) (key : Text)
    (s : Option Text) : WebApp × VarRef :=
  app.assign (some key) (s.elim (.initial fresh) .ofString) true

/--
`WEB_VAR_Unset`; removing the variable from the list a second time, in
`WEB_VAR_Free`, stores the same links again
-/
def unset (app : WebApp) (key : Text) : WebApp :=
  match app.find key with
  | none => app
  | some _ => { app with vars := app.vars.eraseP (·.key.bytes = key) }

/-- Call a function on the variable that a pointer leads to. -/
def onVariable (app : WebApp) (ref : VarRef)
    (f : WebVariable → Except Stop WebVariable) : Except Stop WebApp :=
  match app.vars.find? (·.ref = ref) with
  | none => .error .undefined
  | some V => do
      let V ← f V
      return { app with
        vars := updateFirst (·.ref = ref) (fun _ => V) app.vars
      }

end WebApp

/-! ## Values -/

/-- The buffer of a variable has its size, and starts with some bytes. -/
def WebVariable.Starts (V : WebVariable) (bytes : List UInt8) : Prop :=
  ∃ cells, V.value = some cells ∧ cells.length = V.bufSize ∧ SegmentAt cells 0 bytes

/-- A variable holds a text, terminated inside its buffer. -/
structure WebVariable.Contains (V : WebVariable) (text : Text) : Prop where
  noNul : 0 ∉ text
  len : V.len = text.length
  starts : V.Starts (text ++ [0])

/-- A variable under the same key and pointer holds a text. -/
structure WebVariable.Becomes (V W : WebVariable) (text : Text) : Prop where
  ref : W.ref = V.ref
  key : W.key = V.key
  contains : W.Contains text

namespace WebVariable

variable {fresh : Nat → UInt8} {V W : WebVariable} {text : Text}

theorem Becomes.trans {X : WebVariable} {later : Text} (first : V.Becomes W text)
    (second : W.Becomes X later) : V.Becomes X later where
  ref := second.ref.trans first.ref
  key := second.key.trans first.key
  contains := second.contains

theorem Starts.before {bytes more : List UInt8} (starts : V.Starts (bytes ++ more)) :
    V.Starts bytes := by
  obtain ⟨cells, value, size, segment⟩ := starts
  exact ⟨cells, value, size, (segmentAt_append.mp segment).1⟩

theorem write_starts {bytes : List UInt8} (starts : V.Starts bytes) (more : List UInt8)
    (room : bytes.length + more.length ≤ V.bufSize) :
    ∃ cells, V.write bytes.length more = .ok { V with value := some cells } ∧
        Starts { V with value := some cells } (bytes ++ more) := by
  obtain ⟨cells, value, size, segment⟩ := starts
  have inside : bytes.length + more.length ≤ cells.length := by
    rw [size]
    exact room
  have stored : memWrite cells bytes.length more = .ok (splice cells bytes.length more) := by
    rw [memWrite_eq_ok, Int.toNat_natCast]
    exact ⟨⟨Int.natCast_nonneg _, by exact_mod_cast inside⟩, rfl⟩
  refine ⟨splice cells bytes.length more, ?_, _, rfl, ?_, ?_⟩
  · rw [write, value, Option.getD_some, stored]
    rfl
  · rw [length_splice inside, size]
  · rw [segmentAt_append, Nat.zero_add]
    refine ⟨segment.splice inside (.inl ?_), segmentAt_splice inside⟩
    rw [Nat.zero_add]

theorem grow_becomes (fresh : Nat → UInt8) (contains : V.Contains text) (len : Nat) :
    V.Becomes (V.grow fresh len) text ∧ text.length + len < (V.grow fresh len).bufSize := by
  obtain ⟨noNul, length, starts⟩ := contains
  unfold grow
  split
  case isTrue full =>
    obtain ⟨cells, value, size, segment⟩ := starts
    refine ⟨⟨rfl, rfl, noNul, length, _, rfl, ?_, ?_⟩, ?_⟩
    · exact length_resize fresh _ _
    · rw [value, Option.getD_some]
      apply segment.resize
      rw [List.length_append, List.length_singleton, length, varBufGrow]
      omega
    · dsimp only
      rw [length, varBufGrow]
      omega
  case isFalse room =>
    refine ⟨⟨rfl, rfl, noNul, length, starts⟩, ?_⟩
    rw [← length]
    exact Nat.lt_of_not_ge room

theorem catS_becomes (fresh : Nat → UInt8) (contains : V.Contains text) {more : Text}
    (noNul : 0 ∉ more) : ∃ W, V.catS fresh more = .ok W ∧ V.Becomes W (text ++ more) := by
  obtain ⟨grown, room⟩ := grow_becomes fresh contains (more.length + 1)
  obtain ⟨textNoNul, length, starts⟩ := grown.contains
  obtain ⟨cells, written, stored⟩ :=
    write_starts starts.before (more ++ [0])
      (by rw [List.length_append, List.length_singleton]; exact room.le)
  rw [← length] at written
  refine ⟨{ V.grow fresh (more.length + 1) with
    value := some cells
    len := (V.grow fresh (more.length + 1)).len + more.length
  }, ?_, grown.ref, grown.key, ?_, ?_, ?_⟩
  · simp only [catS, written, bind, Except.bind, pure, Except.pure]
  · intro inside
    rcases List.mem_append.mp inside with first | second
    · exact textNoNul first
    · exact noNul second
  · rw [List.length_append, length]
  · rw [List.append_assoc]
    exact stored

theorem catC_becomes (fresh : Nat → UInt8) (contains : V.Contains text) {c : UInt8}
    (nonzero : c ≠ 0) : ∃ W, V.catC fresh c = .ok W ∧ V.Becomes W (text ++ [c]) := by
  obtain ⟨grown, room⟩ := grow_becomes fresh contains 1
  obtain ⟨textNoNul, length, starts⟩ := grown.contains
  obtain ⟨cells, written, stored⟩ := write_starts starts.before [c] room.le
  obtain ⟨terminated, writtenNul, storedNul⟩ :=
    write_starts stored [0] (by
      rw [List.length_append, List.length_singleton, List.length_singleton]
      exact room)
  rw [← length] at written
  rw [List.length_append, ← length, List.length_singleton] at writtenNul
  refine ⟨{ V.grow fresh 1 with
    value := some terminated
    len := (V.grow fresh 1).len + 1
  }, ?_, grown.ref, grown.key, ?_, ?_, storedNul⟩
  · push_cast at writtenNul
    simp only [catC, written, bind, Except.bind, writtenNul, pure, Except.pure]
  · intro inside
    rcases List.mem_append.mp inside with first | second
    · exact textNoNul first
    · exact nonzero (List.mem_singleton.mp second).symm
  · rw [List.length_append, List.length_singleton, length]

/-- A text with some characters replaced by strings. -/
def escaped (escape : UInt8 → Option Text) : Text → Text :=
  List.flatMap fun c => (escape c).getD [c]

theorem catChars_becomes (fresh : Nat → UInt8) {escape : UInt8 → Option Text}
    (escapeNoNul : ∀ c s, escape c = some s → 0 ∉ s) (contains : V.Contains text) {s : Text}
    (noNul : 0 ∉ s) :
    ∃ W, V.catChars escape fresh s = .ok W ∧ V.Becomes W (text ++ escaped escape s) := by
  induction s generalizing V text with
  | nil =>
    refine ⟨V, rfl, rfl, rfl, ?_⟩
    rwa [escaped, List.flatMap_nil, List.append_nil]
  | cons c rest ih =>
    obtain ⟨nonzero, restNoNul⟩ : 0 ≠ c ∧ 0 ∉ rest := by simpa using noNul
    have first : ∃ W, V.catChar escape fresh c = .ok W ∧
            V.Becomes W (text ++ (escape c).getD [c]) := by
      unfold catChar
      cases replaced : escape c with
      | none => exact catC_becomes fresh contains nonzero.symm
      | some string => exact catS_becomes fresh contains (escapeNoNul c string replaced)
    obtain ⟨W, appended, becomes⟩ := first
    obtain ⟨X, later, becomesLater⟩ := ih becomes.contains restNoNul
    refine ⟨X, ?_, ?_⟩
    · rw [catChars, appended]
      exact later
    · rw [escaped, List.flatMap_cons, ← List.append_assoc]
      exact becomes.trans becomesLater

theorem escapeHTML_noNul (c : UInt8) (s : Text) (replaced : escapeHTML c = some s) : 0 ∉ s := by
  unfold escapeHTML at replaced
  split_ifs at replaced <;> (obtain rfl := Option.some.inj replaced; decide)

theorem escapeJS_noNul (c : UInt8) (s : Text) (replaced : escapeJS c = some s) : 0 ∉ s := by
  unfold escapeJS at replaced
  split_ifs at replaced <;> (obtain rfl := Option.some.inj replaced; decide)

theorem catSNoHTML_becomes (fresh : Nat → UInt8) (contains : V.Contains text) {s : Text}
    (noNul : 0 ∉ s) :
    ∃ W, V.catSNoHTML fresh s = .ok W ∧ V.Becomes W (text ++ escaped escapeHTML s) := by
  obtain ⟨grown, _⟩ := grow_becomes fresh contains s.length
  obtain ⟨W, appended, becomes⟩ := catChars_becomes fresh escapeHTML_noNul grown.contains noNul
  exact ⟨W, appended, grown.trans becomes⟩

/-- A text as a string literal, with a comma behind. -/
def literal (s : Text) : Text := [34] ++ escaped escapeJS s ++ [34, 44]

theorem catJS_becomes (fresh : Nat → UInt8) (contains : V.Contains text) {s : Text}
    (noNul : 0 ∉ s) : ∃ W, V.catJS fresh s = .ok W ∧ V.Becomes W (text ++ literal s) := by
  obtain ⟨grown, _⟩ := grow_becomes fresh contains (s.length + 3)
  obtain ⟨opened, wasOpened, opens⟩ :=
    catC_becomes fresh grown.contains (show (34 : UInt8) ≠ 0 by decide)
  obtain ⟨quoted, wasQuoted, quotes⟩ := catChars_becomes fresh escapeJS_noNul opens.contains noNul
  obtain ⟨W, wasClosed, closes⟩ := catS_becomes fresh quotes.contains (show 0 ∉ [34, 44] by decide)
  refine ⟨W, ?_, ?_⟩
  · simp only [catJS, wasOpened, wasQuoted, bind, Except.bind]
    exact wasClosed
  · have becomes :=
      grown.trans (opens.trans (quotes.trans closes))
    rwa [List.append_assoc, List.append_assoc, ← List.append_assoc [34]] at becomes

/-- The byte behind `len` more bytes is a NUL, where the buffer has grown. -/
def NulBehind (fresh : Nat → UInt8) (V : WebVariable) (len : Nat) : Prop :=
  ((V.grow fresh (len + 1)).value.getD [])[V.len + len]? = some 0

/-- The length is inside the buffer, and there is a terminator at it. -/
def Terminated (V : WebVariable) : Prop :=
  V.len < V.bufSize ∧ ∃ cells, V.value = some cells ∧ cells.length = V.bufSize ∧
          cells[V.len]? = some 0

theorem Contains.terminated (contains : V.Contains text) : V.Terminated := by
  obtain ⟨_, length, cells, value, size, segment⟩ := contains
  have inside := segment.inside
  rw [List.length_append, List.length_singleton, size] at inside
  refine ⟨by omega, cells, value, size, ?_⟩
  have terminator := (segmentAt_append.mp segment).2.holds 0 Nat.zero_lt_one
  rw [length]
  simpa using terminator

theorem Starts.cString_value (starts : V.Starts (text ++ [0])) (noNul : 0 ∉ text) :
    V.value.map cString = some text := by
  obtain ⟨cells, value, _, segment⟩ := starts
  have front := segment.read
  rw [List.drop_zero] at front
  rw [value, Option.map_some, ← List.take_append_drop (text ++ [0]).length cells,
    front, List.append_assoc, List.singleton_append,
    cString_terminated noNul]

theorem write_behind {start index : Nat} {bytes : List UInt8}
    (written : V.write start bytes = .ok W) (behind : start + bytes.length ≤ index) :
    (W.value.getD [])[index]? = (V.value.getD [])[index]? := by
  obtain ⟨value, stored, same⟩ := bind_eq_ok.mp written
  obtain ⟨⟨_, inside⟩, rfl⟩ := memWrite_eq_ok.mp stored
  rw [Int.toNat_natCast] at same
  rw [pure_eq_ok] at same
  rw [← same, Option.getD_some, getElem?_splice (by exact_mod_cast inside), if_neg (by omega)]

theorem starts_terminated_iff {bytes : List UInt8} : V.Starts (bytes ++ [0]) ↔
      V.Starts bytes ∧ (V.value.getD [])[bytes.length]? = some 0 := by
  constructor
  · intro starts
    obtain ⟨cells, value, size, segment⟩ := starts
    obtain ⟨front, terminator⟩ := segmentAt_append.mp segment
    refine ⟨⟨cells, value, size, front⟩, ?_⟩
    rw [value, Option.getD_some]
    simpa using terminator.holds 0 Nat.zero_lt_one
  · intro both
    obtain ⟨⟨cells, value, size, front⟩, terminator⟩ := both
    rw [value, Option.getD_some] at terminator
    refine ⟨cells, value, size, segmentAt_append.mpr ⟨front, ?_, ?_⟩⟩
    · rw [List.length_singleton, Nat.zero_add]
      exact (List.getElem?_eq_some_iff.mp terminator).1
    · intro index within
      obtain rfl : index = 0 := Nat.lt_one_iff.mp within
      rw [Nat.zero_add, Nat.add_zero]
      exact terminator

theorem catNNoNUL_spec (fresh : Nat → UInt8) (contains : V.Contains text) {s : Text}
    (noNul : 0 ∉ s) :
    ∃ W, V.catNNoNUL fresh s = .ok W ∧ W.key = V.key ∧
        (V.NulBehind fresh s.length → V.Becomes W (text ++ s)) ∧
          (W.Terminated → V.NulBehind fresh s.length) := by
  obtain ⟨grown, room⟩ := grow_becomes fresh contains (s.length + 1)
  obtain ⟨textNoNul, length, starts⟩ := grown.contains
  obtain ⟨cells, written, stored⟩ := write_starts starts.before s (by omega)
  have behind : (_ : List UInt8)[text.length + s.length]? = _ := write_behind written le_rfl
  rw [← contains.len] at behind
  rw [← length] at written
  refine ⟨{ V.grow fresh (s.length + 1) with
    value := some cells
    len := (V.grow fresh (s.length + 1)).len + s.length
  }, ?_, grown.key, ?_, ?_⟩
  · simp only [catNNoNUL, written, bind, Except.bind, pure, Except.pure]
  · intro nul
    refine ⟨grown.ref, grown.key, ?_, ?_, ?_⟩
    · intro inside
      rcases List.mem_append.mp inside with first | second
      · exact textNoNul first
      · exact noNul second
    · rw [List.length_append, length]
    · rw [starts_terminated_iff]
      refine ⟨stored, ?_⟩
      rw [List.length_append, ← contains.len]
      exact behind.trans nul
  · intro terminated
    obtain ⟨_, other, value, _, terminator⟩ := terminated
    unfold NulBehind
    rw [← behind, Option.getD_some]
    obtain rfl := Option.some.inj value
    rw [contains.len, ← length]
    exact terminator

theorem catN_spec (contains : V.Contains text) {s : Text} (noNul : 0 ∉ s)
    (appended : V.catN fresh s = .ok W) :
    W.key = V.key ∧ ∃ shorter, shorter.length < (text ++ s).length ∧
          W.value.map cString = some shorter := by
  obtain ⟨grown, room⟩ := grow_becomes fresh contains (s.length + 1)
  obtain ⟨textNoNul, length, starts⟩ := grown.contains
  obtain ⟨cells, written, stored⟩ := write_starts starts.before s (by omega)
  rw [← length] at written
  obtain ⟨first, wasWritten, rest⟩ := bind_eq_ok.mp appended
  rw [written] at wasWritten
  obtain rfl := Except.ok.inj wasWritten
  obtain ⟨second, ended, result⟩ := bind_eq_ok.mp rest
  rw [pure_eq_ok] at result
  dsimp only at ended
  rcases List.eq_nil_or_concat' (text ++ s) with empty | ⟨shorter, last, whole⟩
  · obtain ⟨noText, noMore⟩ := List.append_eq_nil_iff.mp empty
    rw [length, noText, noMore] at ended
    obtain ⟨_, outside, _⟩ := bind_eq_ok.mp ended
    have inside := (memWrite_eq_ok.mp outside).1.1
    exact absurd inside (by decide)
  · have count : text.length + s.length = shorter.length + 1 := by
      rw [← List.length_append, whole, List.length_append, List.length_singleton]
    rw [whole] at stored
    obtain ⟨terminated, writtenNul, storedNul⟩ :=
      write_starts stored.before [0] (by
        have full := count
        rw [List.length_singleton]
        dsimp only
        omega)
    have place : (((V.grow fresh (s.length + 1)).len : Int) + s.length - 1) = shorter.length := by
      rw [length]
      omega
    rw [place, writtenNul] at ended
    obtain rfl := Except.ok.inj ended
    rw [← result]
    have shorterNoNul : 0 ∉ shorter := by
      intro inside
      have member : 0 ∈ text ++ s := by
        rw [whole]
        exact List.mem_append_left _ inside
      rcases List.mem_append.mp member with inText | inMore
      · exact textNoNul inText
      · exact noNul inMore
    refine ⟨grown.key, shorter, ?_, ?_⟩
    · rw [whole, List.length_append, List.length_singleton]
      exact Nat.lt_succ_self _
    · have ends : WebVariable.Starts _ (shorter ++ [0]) := storedNul
      exact ends.cString_value shorterNoNul

end WebVariable

end Agar.Web
