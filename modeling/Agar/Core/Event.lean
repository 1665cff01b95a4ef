import Agar.Core.Variable
import Agar.Lib.Outcome

namespace Agar.Core

open Agar.Lib

/-!
# Events

An `AG_Event` is a handler function with an array of arguments: the object
itself, the arguments given when the handler was set, those given when the
event is posted, and, behind them, the sender.

Arguments are given by a format string and a `va_list`.  The array has room
for sixteen; only debug builds check for it before they store an argument.
-/

/-- `AG_EVENT_ARGS_MAX` -/
abbrev eventArgsMax : Nat := 16

/-- `AG_EVENT_NAME_MAX` -/
abbrev eventNameMax : Nat := 32

instance : NeZero eventNameMax := ⟨by decide⟩

/-- `AG_EVENT_ASYNC` -/
def eventAsync : UInt32 := 0x01

/-- `AG_EVENT_PROPAGATE` -/
def eventPropagate : UInt32 := 0x02

/-- The build options `AG_THREADS` and `AG_DEBUG` -/
structure Build where
  threads : Bool
  debug : Bool
  deriving Repr, DecidableEq

/-- `struct ag_event`: its first argument is the object -/
structure Event where
  name : CString eventNameMax
  flags : UInt32
  fn : Option FnRef
  argc : Nat
  argc0 : Nat
  argv : Vector Variable eventArgsMax
  hasSelf : 0 < argc
  fits : argc ≤ eventArgsMax
  deriving DecidableEq

/-- One entry of a `va_list`. -/
inductive VaArg where
  | pointer (value : Pointer)
  | string (value : Option (List UInt8))
  | int (value : Int32)
  | long (value : UInt64)
  | double (value : UInt64)
  deriving Repr, DecidableEq

/-- What an argument is for a handler: its name, its type and its value. -/
@[ext] structure Arg where
  name : CString variableNameMax
  type : VariableType
  data : Data
  deriving DecidableEq

/-- The argument in an element of the array. -/
def Variable.arg (V : Variable) : Arg := ⟨V.name, V.type, V.data⟩

/-- Conversion from `double` to `float` -/
def doubleToFloat (value : UInt64) : UInt32 := (Float.ofBits value).toFloat32.toBits

/-- What `strcmp` is given for an absent name and any other. -/
abbrev emptyName {size : Nat} [NeZero size] : CString size := .strlcpy []

namespace Event

/-- The event asks for its own thread, in a build that has threads. -/
def async (build : Build) (ev : Event) : Bool := build.threads && ev.flags &&& eventAsync ≠ 0

/-- The event is forwarded to the children of the receiver. -/
def propagate (ev : Event) : Bool := ev.flags &&& eventPropagate ≠ 0

/-- Store an argument in an element of the array. -/
def setArg (ev : Event) (index : Nat) (inside : index < eventArgsMax) (arg : Arg) : Event :=
  { ev with
    argv := ev.argv.set index
      { ev.argv[index] with name := arg.name, type := arg.type, fn := none, data := arg.data } }

/-- `InitPointerArg` on an element of the array -/
def initPointerArg (ev : Event) (index : Nat) (p : Pointer) : Except Stop Event :=
  if inside : index < eventArgsMax then .ok (ev.setArg index inside ⟨emptyName, .pointer, .p p⟩)
  else .error .undefined

/-- `InitEvent` -/
def initEvent (ev : Event) (ob : Pointer) : Except Stop Event :=
  { ev with
    flags := 0
    argc := 1
    argc0 := 1
    fn := none
    hasSelf := Nat.one_pos
    fits := by decide }.initPointerArg 0 ob

/-- `ev->argv[0]`, what `AG_SELF` reads -/
abbrev self (ev : Event) : Variable := ev.argv[0]

/-- `ev->argv[0].data.p = ob` -/
def setSelf (ev : Event) (ob : Pointer) : Event :=
  { ev with argv := ev.argv.set 0 { ev.self with data := .p ob } }

/-! ## Arguments -/

/-- `AG_EVENT_INS_ARG`, with the name that follows it in the format -/
def pushArg (build : Build) (ev : Event) (arg : Arg) : Except Stop Event :=
  if build.debug ∧ ev.argc ≥ eventArgsMax - 1 then .error .fatal
  else if inside : ev.argc < eventArgsMax then
    .ok { ev.setArg ev.argc inside arg with
      argc := ev.argc + 1
      hasSelf := Nat.succ_pos ev.argc
      fits := inside }
  else .error .undefined

/-- `va_arg(ap, void *)` -/
def vaPointer : List VaArg → Except Stop (Pointer × List VaArg)
  | .pointer value :: ap => .ok (value, ap)
  | _ => .error .undefined

/-- `va_arg(ap, char *)` -/
def vaString : List VaArg → Except Stop (Option (List UInt8) × List VaArg)
  | .string value :: ap => .ok (value, ap)
  | _ => .error .undefined

/-- `va_arg(ap, int)` -/
def vaInt : List VaArg → Except Stop (Int32 × List VaArg)
  | .int value :: ap => .ok (value, ap)
  | _ => .error .undefined

/-- `va_arg(ap, long)` -/
def vaLong : List VaArg → Except Stop (UInt64 × List VaArg)
  | .long value :: ap => .ok (value, ap)
  | _ => .error .undefined

/-- `va_arg(ap, double)` -/
def vaDouble : List VaArg → Except Stop (UInt64 × List VaArg)
  | .double value :: ap => .ok (value, ap)
  | _ => .error .undefined

/-- What `AG_EVENT_PUSH_ARG` does at a specifier. -/
inductive Conversion where
  | p
  | i
  | u
  | f
  | d
  | s
  | li
  | lu
  | Cs
  | Cp
  /-- Nothing: the specifier is a separator. -/
  | skip
  deriving Repr, DecidableEq

/-- The cases of the `switch` of `AG_EVENT_PUSH_ARG` -/
def conversions : List (List UInt8 × Conversion) :=
  [ (ascii "p", .p), (ascii "i", .i), (ascii "u", .u), (ascii "f", .f),
    (ascii "d", .d), (ascii "s", .s), (ascii "li", .li), (ascii "lu", .lu),
    (ascii "Cs", .Cs), (ascii "Cp", .Cp), (ascii " ", .skip),
    (ascii ",", .skip), (ascii "%", .skip) ]

/-- Take an argument from the `va_list`. -/
def Conversion.fetch (ap : List VaArg) :
    Conversion → Except Stop (Option (VariableType × Data) × List VaArg)
  | .p => do
      let (value, ap) ← vaPointer ap
      return (some (.pointer, .p value), ap)
  | .i => do
      let (value, ap) ← vaInt ap
      return (some (.int, .i value), ap)
  | .u => do
      let (value, ap) ← vaInt ap
      return (some (.uint, .i value), ap)
  | .f => do
      let (value, ap) ← vaDouble ap
      return (some (.float, .flt (doubleToFloat value)), ap)
  | .d => do
      let (value, ap) ← vaDouble ap
      return (some (.double, .dbl value), ap)
  | .s => do
      let (value, ap) ← vaString ap
      return (some (.string, .s value), ap)
  | .li => do
      let (value, ap) ← vaLong ap
      return (some (.sint32, .s32 value.toUInt32.toInt32), ap)
  | .lu => do
      let (value, ap) ← vaLong ap
      return (some (.uint32, .u32 value.toUInt32), ap)
  | .Cs => do
      let (value, ap) ← vaString ap
      return (some (.constString, .Cs value), ap)
  | .Cp => do
      let (value, ap) ← vaPointer ap
      return (some (.constPointer, .Cp value), ap)
  | .skip => return (none, ap)

/-- The specifier that a format starts with, and the rest of the format. -/
def nextConversion (fmt : List UInt8) : Option (Conversion × List UInt8) :=
  (conversions.find? fun row => row.1.isPrefixOf fmt).map fun row => (row.2, fmt.drop row.1.length)

/--
The name in parentheses that may follow a specifier.  Where no parenthesis
closes within the buffer for the name, the format goes on at the last byte
that was copied.
-/
def nextName (fmt : List UInt8) : CString variableNameMax × List UInt8 :=
  match fmt with
  | 40 :: first :: rest =>
    let copied : CString variableNameMax := .strlcpy (first :: rest)
    let name := copied.bytes.takeWhile (· ≠ 41)
    if 41 ∈ copied.bytes then (.strlcpy name, fmt.drop (name.length + 2))
    else (copied, fmt.drop copied.bytes.length)
  | _ => (emptyName, fmt)

theorem nextConversion_shorter {fmt rest : List UInt8} {conversion : Conversion}
    (found : nextConversion fmt = some (conversion, rest)) : rest.length < fmt.length := by
  obtain ⟨row, entry, consumed⟩ := Option.map_eq_some_iff.mp found
  have allNonempty : ∀ row ∈ conversions, 0 < row.1.length := by decide
  have nonempty := allNonempty row (List.mem_of_find?_eq_some entry)
  have starts := List.find?_some entry
  have fits := (List.isPrefixOf_iff_prefix.mp starts).length_le
  cases consumed
  rw [List.length_drop]
  omega

theorem nextName_length_le (fmt : List UInt8) : (nextName fmt).2.length ≤ fmt.length := by
  unfold nextName
  split
  · dsimp only
    split
    · rw [List.length_drop]
      exact Nat.sub_le _ _
    · rw [List.length_drop]
      exact Nat.sub_le _ _
  · exact Nat.le_refl _

/-- The loop of `AG_EVENT_GET_ARGS` -/
def getArgsFrom (build : Build) (ev : Event) (fmt : List UInt8)
    (ap : List VaArg) : Except Stop Event :=
  match fmt with
  | [] => .ok ev
  | first :: more =>
    match _ : nextConversion (first :: more) with
    | none => .error .fatal
    | some (conversion, rest) => do
        match ← conversion.fetch ap with
        | (none, ap) => ev.getArgsFrom build rest ap
        | (some (type, data), ap) => do
            let pushed ← ev.pushArg build ⟨(nextName rest).1, type, data⟩
            pushed.getArgsFrom build (nextName rest).2 ap
termination_by fmt.length
decreasing_by
  · exact nextConversion_shorter ‹_›
  · exact Nat.lt_of_le_of_lt (nextName_length_le rest) (nextConversion_shorter ‹_›)

/-- `AG_EVENT_GET_ARGS` -/
def getArgs (build : Build) (ev : Event) (fmt : Option (List UInt8))
    (ap : List VaArg) : Except Stop Event :=
  match fmt with
  | none => .ok ev
  | some fmt => ev.getArgsFrom build fmt ap

/-- The arguments of a handler, without the object and the sender. -/
def args (ev : Event) : List Arg := ((ev.argv.toList.take ev.argc).drop 1).map Variable.arg

/-- The arguments that a format and a `va_list` describe. -/
def describedFrom (fmt : List UInt8) (ap : List VaArg) : Except Stop (List Arg) :=
  match fmt with
  | [] => .ok []
  | first :: more =>
    match _ : nextConversion (first :: more) with
    | none => .error .fatal
    | some (conversion, rest) => do
        match ← conversion.fetch ap with
        | (none, ap) => describedFrom rest ap
        | (some (type, data), ap) => do
            let later ← describedFrom (nextName rest).2 ap
            return ⟨(nextName rest).1, type, data⟩ :: later
termination_by fmt.length
decreasing_by
  · exact nextConversion_shorter ‹_›
  · exact Nat.lt_of_le_of_lt (nextName_length_le rest) (nextConversion_shorter ‹_›)

/-- The arguments that are given along with an event. -/
def described (fmt : Option (List UInt8)) (ap : List VaArg) : Except Stop (List Arg) :=
  match fmt with
  | none => .ok []
  | some fmt => describedFrom fmt ap

/--
An event has been given more arguments: they follow those that it had, and
nothing else has changed.
-/
structure Given (before : Event) (given : List Arg) (after : Event) : Prop where
  name : after.name = before.name
  flags : after.flags = before.flags
  fn : after.fn = before.fn
  argc : after.argc = before.argc + given.length
  kept : ∀ index, index < before.argc ∨ before.argc + given.length ≤ index →
      after.argv[index]? = before.argv[index]?
  added : ∀ index, index < given.length →
      (after.argv[before.argc + index]?).map Variable.arg = given[index]?

theorem Given.none (ev : Event) : ev.Given [] ev where
  name := rfl
  flags := rfl
  fn := rfl
  argc := rfl
  kept _ _ := rfl
  added _ inside := nomatch inside

variable {build : Build}

theorem Given.push {before after : Event} {arg : Arg}
    (pushed : before.pushArg build arg = .ok after) : before.Given [arg] after := by
  unfold pushArg at pushed
  split at pushed
  · cases pushed
  · split at pushed
    case isTrue inside =>
      cases pushed
      refine ⟨rfl, rfl, rfl, rfl, ?_, ?_⟩
      · intro index outside
        have different : before.argc ≠ index := by
          rintro rfl
          simp at outside
        simp [setArg, different]
      · intro index single
        obtain rfl : index = 0 := by simpa using single
        simp [setArg, Variable.arg]
    case isFalse => cases pushed

theorem Given.trans {before middle after : Event} {first later : List Arg}
    (given : before.Given first middle) (more : middle.Given later after) :
    before.Given (first ++ later) after where
  name := more.name.trans given.name
  flags := more.flags.trans given.flags
  fn := more.fn.trans given.fn
  argc := by rw [more.argc, given.argc, List.length_append, Nat.add_assoc]
  kept index outside := by
    rw [List.length_append] at outside
    have argc := given.argc
    rw [more.kept index (by omega), given.kept index (by omega)]
  added index inside := by
    rw [List.length_append] at inside
    have argc := given.argc
    by_cases early : index < first.length
    · rw [more.kept _ (by omega), given.added index early, List.getElem?_append_left early]
    · have later := more.added (index - first.length) (by omega)
      rw [List.getElem?_append_right (by omega), ← later]
      congr 2
      omega

theorem args_getElem? (ev : Event) (index : Nat) : ev.args[index]? = if index + 1 < ev.argc then
        (ev.argv[index + 1]?).map Variable.arg
      else
        none := by
  simp only [args, List.getElem?_map, List.getElem?_drop, List.getElem?_take,
    Vector.getElem?_toList, Nat.add_comm 1 index]
  split
  · rfl
  · rfl

theorem Given.args {before after : Event} {given : List Arg} (pushed : before.Given given after) :
    after.args = before.args ++ given := by
  have argc := pushed.argc
  have hasSelf := before.hasSelf
  have length : before.args.length + 1 = before.argc := by
    have fits := before.fits
    simp [Event.args]
    omega
  refine List.ext_getElem? fun index => ?_
  rw [args_getElem?]
  by_cases early : index + 1 < before.argc
  · rw [if_pos (by omega), pushed.kept _ (.inl early),
      List.getElem?_append_left (by omega), args_getElem?, if_pos early]
  · rw [List.getElem?_append_right (by omega)]
    by_cases inside : index + 1 < after.argc
    · have added := pushed.added (index - before.args.length) (by omega)
      rw [if_pos inside, ← added]
      congr 2
      omega
    · rw [if_neg inside, List.getElem?_eq_none (by omega)]

theorem getArgsFrom_cons {first : UInt8} {more rest : List UInt8} {conversion : Conversion}
    (found : nextConversion (first :: more) = some (conversion, rest)) (build : Build) (ev : Event)
    (ap : List VaArg) :
    ev.getArgsFrom build (first :: more) ap = (do
        match ← conversion.fetch ap with
        | (none, ap) => ev.getArgsFrom build rest ap
        | (some (type, data), ap) => do
            let pushed ← ev.pushArg build ⟨(nextName rest).1, type, data⟩
            pushed.getArgsFrom build (nextName rest).2 ap) := by
  rw [getArgsFrom]
  split
  · simp_all
  case h_2 same =>
    cases found.symm.trans same
    rfl

theorem describedFrom_cons {first : UInt8} {more rest : List UInt8} {conversion : Conversion}
    (found : nextConversion (first :: more) = some (conversion, rest)) (ap : List VaArg) :
    describedFrom (first :: more) ap = (do
        match ← conversion.fetch ap with
        | (none, ap) => describedFrom rest ap
        | (some (type, data), ap) => do
            let later ← describedFrom (nextName rest).2 ap
            return ⟨(nextName rest).1, type, data⟩ :: later) := by
  rw [describedFrom]
  split
  · simp_all
  case h_2 same =>
    cases found.symm.trans same
    rfl

variable {ap : List VaArg}

private theorem getArgsFrom_given {before after : Event} {fmt : List UInt8}
    (pushed : before.getArgsFrom build fmt ap = .ok after) :
    ∃ given, describedFrom fmt ap = .ok given ∧ before.Given given after := by
  induction before, fmt, ap using getArgsFrom.induct generalizing after with
  | case1 ev ap =>
    rw [getArgsFrom] at pushed
    cases pushed
    exact ⟨[], by rw [describedFrom], .none ev⟩
  | case2 ev ap first more unknown =>
    rw [getArgsFrom] at pushed
    split at pushed
    · cases pushed
    · simp_all
  | case3 ev ap first more conversion rest found skipped named =>
    rw [getArgsFrom_cons found] at pushed
    rw [describedFrom_cons found]
    obtain ⟨⟨arg, ap⟩, fetched, pushed⟩ := bind_eq_ok.mp pushed
    rw [fetched]
    cases arg with
    | none => exact skipped ap pushed
    | some arg =>
      obtain ⟨next, stored, pushed⟩ := bind_eq_ok.mp pushed
      obtain ⟨given, later, more⟩ := named ap next pushed
      refine ⟨_, ?_, (Given.push stored).trans more⟩
      exact bind_eq_ok.mpr ⟨_, rfl, bind_eq_ok.mpr ⟨given, later, rfl⟩⟩

private theorem getArgsFrom_of_described_nil {fmt : List UInt8}
    (nothing : describedFrom fmt ap = .ok []) (build : Build) (ev : Event) :
    ev.getArgsFrom build fmt ap = .ok ev := by
  induction fmt, ap using describedFrom.induct with
  | case1 ap => rw [getArgsFrom]
  | case2 ap first more unknown =>
    rw [describedFrom] at nothing
    split at nothing
    · cases nothing
    · simp_all
  | case3 ap first more conversion rest found skipped named =>
    rw [describedFrom_cons found] at nothing
    rw [getArgsFrom_cons found]
    obtain ⟨⟨arg, ap⟩, fetched, nothing⟩ := bind_eq_ok.mp nothing
    rw [fetched]
    cases arg with
    | none => exact skipped ap nothing
    | some arg =>
      obtain ⟨given, later, nothing⟩ := bind_eq_ok.mp nothing
      cases nothing

theorem described_int (value : Int32) : described (some (ascii "i")) [.int value] =
      .ok [⟨emptyName, .int, .i value⟩] := by
  have oneInt : nextConversion (ascii "i") = some (.i, []) := by decide
  have none : describedFrom [] [] = .ok [] := by rw [describedFrom]
  exact (describedFrom_cons oneInt [.int value]).trans
    (bind_eq_ok.mpr ⟨_, rfl, bind_eq_ok.mpr ⟨_, none, rfl⟩⟩)

variable {fmt : Option (List UInt8)}

theorem getArgs_given {before after : Event} (pushed : before.getArgs build fmt ap = .ok after) :
    ∃ given, described fmt ap = .ok given ∧ before.Given given after := by
  cases fmt with
  | none =>
    cases pushed
    exact ⟨[], rfl, .none before⟩
  | some fmt => exact getArgsFrom_given pushed

theorem getArgs_of_described_nil (nothing : described fmt ap = .ok []) (build : Build)
    (ev : Event) : ev.getArgs build fmt ap = .ok ev := by
  cases fmt with
  | none => rfl
  | some fmt => exact getArgsFrom_of_described_nil nothing build ev

variable {ev : Event}

theorem pushArg_of_fits (build : Build) (arg : Arg) (fit : ev.argc + 1 < eventArgsMax) :
    ∃ pushed, ev.pushArg build arg = .ok pushed ∧ pushed.argc = ev.argc + 1 := by
  unfold pushArg
  rw [if_neg (by omega), dif_pos (Nat.lt_of_succ_lt fit)]
  exact ⟨_, rfl, rfl⟩

theorem getArgs_of_fits {given : List Arg} (isDescribed : described fmt ap = .ok given)
    (build : Build) (fit : ev.argc + given.length < eventArgsMax) :
    ∃ after, ev.getArgs build fmt ap = .ok after := by
  cases fmt with
  | none => exact ⟨ev, rfl⟩
  | some fmt =>
    change describedFrom fmt ap = .ok given at isDescribed
    change ∃ after, ev.getArgsFrom build fmt ap = .ok after
    induction ev, fmt, ap using getArgsFrom.induct generalizing given with
    | case1 ev ap => exact ⟨ev, by rw [getArgsFrom]⟩
    | case2 ev ap first more unknown =>
      rw [describedFrom] at isDescribed
      split at isDescribed
      · cases isDescribed
      · simp_all
    | case3 ev ap first more conversion rest found skipped named =>
      rw [describedFrom_cons found] at isDescribed
      rw [getArgsFrom_cons found]
      obtain ⟨⟨arg, ap⟩, fetched, afterFetch⟩ := bind_eq_ok.mp isDescribed
      rw [fetched]
      cases arg with
      | none => exact skipped ap fit afterFetch
      | some arg =>
        obtain ⟨later, isLater, joined⟩ := bind_eq_ok.mp afterFetch
        cases joined
        rw [List.length_cons] at fit
        obtain ⟨pushed, stored, argc⟩ := pushArg_of_fits build
          (⟨(nextName rest).1, arg.1, arg.2⟩ : Arg)
          (show ev.argc + 1 < eventArgsMax by omega)
        obtain ⟨after, isAfter⟩ := named ap pushed (by omega) isLater
        exact ⟨after, bind_eq_ok.mpr ⟨_, rfl, bind_eq_ok.mpr ⟨pushed, stored, isAfter⟩⟩⟩

theorem args_setArg {index : Nat} (outside : index = 0 ∨ ev.argc ≤ index)
    (inside : index < eventArgsMax) (arg : Arg) : (ev.setArg index inside arg).args = ev.args := by
  refine List.ext_getElem? fun place => ?_
  rw [args_getElem?, args_getElem?]
  by_cases early : place + 1 < ev.argc
  · have different : index ≠ place + 1 := by
      omega
    simp [setArg, early, different]
  · simp [setArg, early]

variable {p : Pointer}

theorem initPointerArg_eq_ok {stored : Event} {index : Nat} :
    ev.initPointerArg index p = .ok stored ↔
      ∃ inside, ev.setArg index inside ⟨emptyName, .pointer, .p p⟩ = stored := by
  unfold initPointerArg
  split
  case isTrue inside => simp [inside]
  case isFalse outside => simp [outside]

theorem initPointerArg_of_inside {index : Nat} (inside : index < eventArgsMax) (ev : Event)
    (p : Pointer) :
    ev.initPointerArg index p = .ok (ev.setArg index inside ⟨emptyName, .pointer, .p p⟩) :=
  initPointerArg_eq_ok.mpr ⟨inside, rfl⟩

theorem initEvent_eq_ok {stored : Event} (initialised : ev.initEvent p = .ok stored) :
    stored.argc = 1 ∧ stored.self.arg = ⟨emptyName, .pointer, .p p⟩ ∧
      ∀ index, 0 < index → stored.argv[index]? = ev.argv[index]? := by
  obtain ⟨_, rfl⟩ := initPointerArg_eq_ok.mp initialised
  refine ⟨rfl, by simp [self, setArg, Variable.arg], fun index positive => ?_⟩
  simp [setArg, Nat.ne_of_lt positive]

theorem exists_initEvent (ev : Event) (p : Pointer) : ∃ stored, ev.initEvent p = .ok stored :=
  ⟨_, initPointerArg_of_inside (by decide) _ p⟩

theorem setSelf_argv (ev : Event) (ob : Pointer) :
    (ev.setSelf ob).self.arg = { ev.self.arg with data := .p ob } ∧
      ∀ index, 0 < index → (ev.setSelf ob).argv[index]? = ev.argv[index]? := by
  refine ⟨by simp [self, setSelf, Variable.arg], fun index positive => ?_⟩
  simp [setSelf, Nat.ne_of_lt positive]

/-- Two events that differ in the object and the sender only. -/
structure Readdressed (before after : Event) : Prop where
  name : after.name = before.name
  flags : after.flags = before.flags
  fn : after.fn = before.fn
  argc : after.argc = before.argc
  args : after.args = before.args

theorem Readdressed.trans {before middle after : Event} (first : before.Readdressed middle)
    (second : middle.Readdressed after) : before.Readdressed after where
  name := second.name.trans first.name
  flags := second.flags.trans first.flags
  fn := second.fn.trans first.fn
  argc := second.argc.trans first.argc
  args := second.args.trans first.args

theorem readdressed_setArg {index : Nat} (outside : index = 0 ∨ ev.argc ≤ index)
    (inside : index < eventArgsMax) (arg : Arg) : ev.Readdressed (ev.setArg index inside arg) where
  name := rfl
  flags := rfl
  fn := rfl
  argc := rfl
  args := args_setArg outside inside arg

theorem initPointerArg_sender {stored : Event} (sender : ev.initPointerArg ev.argc p = .ok stored) :
    ev.Readdressed stored ∧ stored.self = ev.self := by
  obtain ⟨inside, rfl⟩ := initPointerArg_eq_ok.mp sender
  have hasSelf := ev.hasSelf
  refine ⟨readdressed_setArg (.inr (Nat.le_refl _)) inside _, ?_⟩
  simp [self, setArg, Nat.ne_of_gt hasSelf]

end Event

end Agar.Core
