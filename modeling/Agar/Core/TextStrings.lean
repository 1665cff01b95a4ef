import Agar.Core.Text
import Agar.Lib.Runs
import Agar.Lib.UpdateFirst

namespace Agar.Core

open Agar.Lib

/-!
# Internationalised texts as arrays of strings

What a text stands for: an active language, and a string or nothing for every
language.  `AG_TextSet` refuses every string, and `AS_StringCatBytes` leaves
the terminator to what new memory happens to hold; everything else does to the
strings what it says.
-/

/-- An active language, and the string of each language that has one. -/
structure LanguageStrings where
  lang : Language
  strings : Language → Option (List UInt8)

namespace LanguageStrings

/-- Set the string of a language. -/
def assign (ideal : LanguageStrings) (lang : Language)
    (s : Option (List UInt8)) : LanguageStrings :=
  { ideal with strings := Function.update ideal.strings lang s }

@[simp] theorem assign_self (ideal : LanguageStrings) (lang : Language) (s : Option (List UInt8)) :
    (ideal.assign lang s).strings lang = s :=
  Function.update_self ..

theorem assign_other (ideal : LanguageStrings) {lang other : Language} (different : other ≠ lang)
    (s : Option (List UInt8)) : (ideal.assign lang s).strings other = ideal.strings other :=
  Function.update_of_ne different ..

/-- Append to the string of the active language. -/
def append (ideal : LanguageStrings) (s : List UInt8) : LanguageStrings :=
  ideal.assign ideal.lang (some ((ideal.strings ideal.lang).getD [] ++ s))

end LanguageStrings

/-- A call for a text. -/
inductive TextCall where
  | set (s : Option (List UInt8))
  | setEnt (lang : Language) (s : List UInt8)
  | setS (s : Option (List UInt8))
  | setEntS (lang : Language) (s : Option (List UInt8))
  | catS (s : List UInt8)
  | catBytes (s : List UInt8)
  | setLang (lang : Language)
  | clear

namespace TextCall

/-- Make the call; the functions that return nothing have status 0. -/
def call (txt : AgText) (fresh : Nat → UInt8) : TextCall → Except Stop (AgText × Int)
  | .set s => .ok (txt.set s)
  | .setEnt lang s => .ok (txt.setEntF lang s)
  | .setS s => .ok (txt.setS s)
  | .setEntS lang s => .ok (txt.setEntS lang s)
  | .catS s => txt.catS fresh s
  | .catBytes s => txt.catBytes fresh s
  | .setLang lang => .ok (txt.setLang lang, 0)
  | .clear => .ok (txt.clear, 0)

/-- What the call means. -/
def meaning (ideal : LanguageStrings) : TextCall → LanguageStrings
  | .set s | .setS s => ideal.assign ideal.lang s
  | .setEnt lang s => ideal.assign lang (some s)
  | .setEntS lang s => ideal.assign lang s
  | .catS s | .catBytes s => ideal.append s
  | .setLang lang => { ideal with lang := lang }
  | .clear => { ideal with strings := fun _ => none }

/-- The strings of the call have no NUL. -/
def NoNul : TextCall → Prop
  | .set s | .setS s | .setEntS _ s => 0 ∉ s.getD []
  | .setEnt _ s | .catS s | .catBytes s => 0 ∉ s
  | .setLang _ | .clear => True

/--
`AG_TextSet` is given `NULL`; behind the bytes that `AS_StringCatBytes`
appends there is a NUL: the one that was there where nothing is appended, or
what new memory holds.
-/
def Served (txt : AgText) (fresh : Nat → UInt8) : TextCall → Prop
  | .set s => s = none
  | .catBytes s =>
    s = [] ∧ (txt.ent txt.lang).buf ≠ none ∨ fresh ((txt.ent txt.lang).len + s.length) = 0
  | _ => True

end TextCall

/-- An operation on the texts of a program, which numbers them. -/
inductive TextOp where
  | new (maxLen : Nat)
  | dup (number : Nat)
  | call (number : Nat) (call : TextCall)

/-- An operation, with what the memory holds that it allocates. -/
abbrev TextInput := TextOp × (Nat → UInt8)

/-- Carry an operation out; one on a text that there is not does nothing. -/
def textStep (texts : List AgText) : TextInput → Option (List AgText × Int)
  | (.new maxLen, _) => some (texts ++ [.init maxLen], texts.length)
  | (.dup number, _) =>
    match texts[number]? with
    | some txt => do
        let copy ← txt.dup.toOption
        return (texts ++ [copy], texts.length)
    | none => some (texts, 0)
  | (.call number call, fresh) =>
    match texts[number]? with
    | some txt => do
        let (txt, status) ← (call.call txt fresh).toOption
        return (texts.set number txt, status)
    | none => some (texts, 0)

/-- What an operation means; all of them succeed. -/
def stringsStep (ideal : List LanguageStrings) : TextInput → List LanguageStrings × Int
  | (.new _, _) => (ideal ++ [{ lang := langNone, strings := fun _ => none }], ideal.length)
  | (.dup number, _) =>
    match ideal[number]? with
    | some strings => (ideal ++ [strings], ideal.length)
    | none => (ideal, 0)
  | (.call number call, _) =>
    match ideal[number]? with
    | some strings => (ideal.set number (call.meaning strings), 0)
    | none => (ideal, 0)

/-- The strings of an operation have no NUL. -/
def TextNoNul : TextInput → Prop
  | (.call _ call, _) => call.NoNul
  | _ => True

/-- An operation that is a call is served. -/
def TextServed (texts : List AgText) : TextInput → Prop
  | (.call number call, fresh) => ∀ txt, texts[number]? = some txt → call.Served txt fresh
  | _ => True

/--
An entry has a string, terminated at its length inside a buffer whose size is
kept; or it has none, and nothing is allocated.
-/
def TextEnt.Refines (te : TextEnt) : Option (List UInt8) → Prop
  | none => te = .empty
  | some s =>
    ∃ buf, te.buf = some buf ∧ buf.length = te.maxLen ∧ cString buf = s ∧ te.len = s.length ∧
        te.len < te.maxLen

/-- A text has the strings of the languages, and the active one. -/
structure AgText.Refines (txt : AgText) (ideal : LanguageStrings) : Prop where
  lang : txt.lang = ideal.lang
  ent : ∀ lang, (txt.ent lang).Refines (ideal.strings lang)

/-- The texts have the strings. -/
abbrev TextsRefine (texts : List AgText) (ideal : List LanguageStrings) : Prop :=
  List.Forall₂ AgText.Refines texts ideal

/-- A text has the strings of the languages in buffers of their size. -/
structure AgText.Keeps (txt : AgText) (ideal : LanguageStrings) : Prop where
  lang : txt.lang = ideal.lang
  ent : ∀ lang, txt.ent lang = .set (ideal.strings lang)
  noNul : ∀ lang, 0 ∉ (ideal.strings lang).getD []

/-! ## One call -/

section

variable {txt : AgText} {ideal : LanguageStrings} {fresh : Nat → UInt8}

theorem TextEnt.set_refines {s : Option (List UInt8)} (noNul : 0 ∉ s.getD []) :
    (TextEnt.set s).Refines s := by
  cases s with
  | none => rfl
  | some s =>
    refine ⟨s ++ [0], rfl, ?_, cString_terminated noNul [], rfl, Nat.lt_succ_self _⟩
    rw [List.length_append, List.length_singleton]
    rfl

theorem AgText.Keeps.refines (keeps : txt.Keeps ideal) : txt.Refines ideal where
  lang := keeps.lang
  ent lang := by
    rw [keeps.ent lang]
    exact TextEnt.set_refines (keeps.noNul lang)

theorem AgText.Keeps.assign (keeps : txt.Keeps ideal) (lang : Language) {s : Option (List UInt8)}
    (noNul : 0 ∉ s.getD []) : (txt.setEnt lang (.set s)).Keeps (ideal.assign lang s) where
  lang := keeps.lang
  ent other := by
    by_cases same : other = lang
    · subst same
      rw [AgText.setEnt_self, LanguageStrings.assign_self]
    · rw [AgText.setEnt_other _ same, LanguageStrings.assign_other _ same]
      exact keeps.ent other
  noNul other := by
    by_cases same : other = lang
    · subst same
      rwa [LanguageStrings.assign_self]
    · rw [LanguageStrings.assign_other _ same]
      exact keeps.noNul other

theorem TextEnt.append_set (fresh : Nat → UInt8) {te : TextEnt} {old : Option (List UInt8)}
    (isSet : te = .set old) {count : Nat} {bytes : List UInt8} (room : bytes.length ≤ count + 1) :
    (te.realloc fresh (te.len + count + 1)).copy te.len bytes = .ok {
        buf := some (old.getD [] ++ bytes ++
          (resize fresh (te.len + count + 1) (te.buf.getD [])).drop (te.len + bytes.length))
        maxLen := te.len + count + 1
        len := te.len
      } := by
  have length : te.len + bytes.length ≤
        (resize fresh (te.len + count + 1) (te.buf.getD [])).length := by
    rw [length_resize]
    omega
  have grows : te.len + count + 1 ≥ te.maxLen := by
    subst isSet
    cases old <;>
      simp only [TextEnt.set, TextEnt.empty, TextEnt.ofString, Option.elim] <;>
        omega
  have front : (resize fresh (te.len + count + 1) (te.buf.getD [])).take te.len = old.getD [] := by
    subst isSet
    cases old with
    | none => exact List.take_zero
    | some old =>
      simp only [TextEnt.set, TextEnt.ofString, Option.elim_some, Option.getD_some]
      rw [resize, List.take_append_of_le_length, List.take_take,
        Nat.min_eq_left (by omega), List.take_left]
      rw [List.length_take, List.length_append, List.length_singleton]
      omega
  simp only [TextEnt.realloc, if_pos grows, TextEnt.copy, if_pos length, splice, front]

theorem TextEnt.behind_set (fresh : Nat → UInt8) {te : TextEnt} {old : Option (List UInt8)}
    (isSet : te = .set old) (count : Nat) :
    ∃ last, (resize fresh (te.len + count + 1) (te.buf.getD [])).drop (te.len + count) = [last] ∧
        (last = 0 ↔ count = 0 ∧ te.buf ≠ none ∨ fresh (te.len + count) = 0) := by
  have size := length_resize fresh (te.len + count + 1) (te.buf.getD [])
  have inside : te.len + count < (resize fresh (te.len + count + 1) (te.buf.getD [])).length := by
    omega
  have last {byte : UInt8}
      (found : (resize fresh (te.len + count + 1) (te.buf.getD []))[te.len + count]? = some byte) :
      (resize fresh (te.len + count + 1) (te.buf.getD [])).drop (te.len + count) = [byte] := by
    obtain ⟨_, rfl⟩ := List.getElem?_eq_some_iff.mp found
    rw [List.drop_eq_getElem_cons inside, List.drop_eq_nil_of_le (by omega)]
  subst isSet
  cases old with
  | none =>
    refine ⟨fresh count, ?_, ?_⟩
    · have behind := last (getElem?_resize_fresh (Nat.zero_le _) (by omega))
      simpa only [TextEnt.set, TextEnt.empty, Option.elim_none, Nat.zero_add] using behind
    · simp [TextEnt.set, TextEnt.empty]
  | some old =>
    simp only [TextEnt.set, TextEnt.ofString, Option.elim_some, Option.getD_some] at last ⊢
    by_cases nothing : count = 0
    · subst nothing
      refine ⟨0, last ?_, by simp⟩
      rw [getElem?_resize (by simp) (by omega)]
      simp
    · refine ⟨fresh (old.length + count), last ?_, ?_⟩
      · apply getElem?_resize_fresh
        · rw [List.length_append, List.length_singleton]
          omega
        · omega
      · simp [nothing]

theorem AgText.Keeps.append (keeps : txt.Keeps ideal) {s : List UInt8} (noNul : 0 ∉ s) :
    (txt.setEnt txt.lang {
      buf := some ((ideal.strings txt.lang).getD [] ++ s ++ [0])
      maxLen := (txt.ent txt.lang).len + s.length + 1
      len := (txt.ent txt.lang).len + s.length
    }).Keeps (ideal.append s) := by
  have active := keeps.ent txt.lang
  have length : (txt.ent txt.lang).len = ((ideal.strings txt.lang).getD []).length := by
    rw [active]
    cases ideal.strings txt.lang <;> rfl
  have appended : 0 ∉ (some ((ideal.strings txt.lang).getD [] ++ s)).getD [] := by
    rw [Option.getD_some, List.mem_append, not_or]
    exact ⟨keeps.noNul txt.lang, noNul⟩
  have assigned := keeps.assign txt.lang appended
  rw [LanguageStrings.append, ← keeps.lang]
  have entry : TextEnt.set (some ((ideal.strings txt.lang).getD [] ++ s)) = {
        buf := some ((ideal.strings txt.lang).getD [] ++ s ++ [0])
        maxLen := (txt.ent txt.lang).len + s.length + 1
        len := (txt.ent txt.lang).len + s.length
      } := by
    rw [length, ← List.length_append]
    rfl
  rwa [← entry]

theorem AgText.Keeps.catS (keeps : txt.Keeps ideal) (fresh : Nat → UInt8) (s : List UInt8) :
    txt.catS fresh s = .ok (txt.setEnt txt.lang {
        buf := some ((ideal.strings txt.lang).getD [] ++ s ++ [0])
        maxLen := (txt.ent txt.lang).len + s.length + 1
        len := (txt.ent txt.lang).len + s.length
      }, 0) := by
  have length : (s ++ [0]).length = s.length + 1 := by
    rw [List.length_append, List.length_singleton]
  have copied := TextEnt.append_set fresh (keeps.ent txt.lang) length.le
  have size :=
    length_resize fresh ((txt.ent txt.lang).len + s.length + 1) ((txt.ent txt.lang).buf.getD [])
  rw [List.drop_eq_nil_of_le (by omega), List.append_nil, ← List.append_assoc] at copied
  have same (count : Nat) :
      ((txt.ent txt.lang).realloc fresh count).len = (txt.ent txt.lang).len := by
    unfold TextEnt.realloc
    split <;> rfl
  simp only [AgText.catS, same, copied, bind, Except.bind]
  rfl

theorem AgText.Keeps.catBytes (keeps : txt.Keeps ideal) (fresh : Nat → UInt8) (s : List UInt8) :
    ∃ last, txt.catBytes fresh s = .ok (txt.setEnt txt.lang {
            buf := some ((ideal.strings txt.lang).getD [] ++ s ++ [last])
            maxLen := (txt.ent txt.lang).len + s.length + 1
            len := (txt.ent txt.lang).len + s.length
          }, 0) ∧
        (last = 0 ↔ (TextCall.catBytes s).Served txt fresh) := by
  obtain ⟨last, behind, isNul⟩ := TextEnt.behind_set fresh (keeps.ent txt.lang) s.length
  have copied := TextEnt.append_set fresh (keeps.ent txt.lang) (Nat.le_succ s.length)
  rw [behind] at copied
  have same (count : Nat) :
      ((txt.ent txt.lang).realloc fresh count).len = (txt.ent txt.lang).len := by
    unfold TextEnt.realloc
    split <;> rfl
  refine ⟨last, ?_, ?_⟩
  · simp only [AgText.catBytes, same, copied, bind, Except.bind]
    rfl
  · rw [isNul, TextCall.Served, List.length_eq_zero_iff]

theorem AgText.Keeps.call (keeps : txt.Keeps ideal) {call : TextCall} (noNul : call.NoNul)
    (served : call.Served txt fresh) :
    ∃ next, call.call txt fresh = .ok (next, 0) ∧ next.Keeps (call.meaning ideal) := by
  cases call with
  | set s =>
    obtain rfl : s = none := served
    refine ⟨_, rfl, ?_⟩
    rw [TextCall.meaning, ← keeps.lang]
    exact keeps.assign txt.lang List.not_mem_nil
  | setEnt lang s => exact ⟨_, rfl, keeps.assign lang noNul⟩
  | setS s =>
    refine ⟨_, rfl, ?_⟩
    rw [TextCall.meaning, ← keeps.lang]
    exact keeps.assign txt.lang noNul
  | setEntS lang s => exact ⟨_, rfl, keeps.assign lang noNul⟩
  | catS s => exact ⟨_, keeps.catS fresh s, keeps.append noNul⟩
  | catBytes s =>
    obtain ⟨last, called, isNul⟩ := keeps.catBytes fresh s
    rw [isNul.mpr served] at called
    exact ⟨_, called, keeps.append noNul⟩
  | setLang lang => exact ⟨_, rfl, rfl, keeps.ent, keeps.noNul⟩
  | clear => exact ⟨_, rfl, keeps.lang, fun _ => rfl, fun _ => List.not_mem_nil⟩

theorem AgText.Keeps.served_of_call (keeps : txt.Keeps ideal) {call : TextCall} (noNul : call.NoNul)
    {next : AgText} (called : call.call txt fresh = .ok (next, 0))
    (refines : next.Refines (call.meaning ideal)) : call.Served txt fresh := by
  cases call with
  | set s =>
    cases s with
    | none => rfl
    | some s => cases called
  | catBytes s =>
    obtain ⟨last, appended, isNul⟩ := keeps.catBytes fresh s
    apply isNul.mp
    obtain rfl : next = _ := congrArg Prod.fst (Except.ok.inj (called.symm.trans appended))
    have entry := refines.ent txt.lang
    rw [AgText.setEnt_self, TextCall.meaning, LanguageStrings.append,
      ← keeps.lang, LanguageStrings.assign_self] at entry
    obtain ⟨buf, same, _, text, _⟩ := entry
    obtain rfl := Option.some.inj same
    have withoutNul : 0 ∉ (ideal.strings txt.lang).getD [] ++ s := by
      rw [List.mem_append, not_or]
      exact ⟨keeps.noNul txt.lang, noNul⟩
    rw [cString_append withoutNul, List.append_right_eq_self, cString_cons] at text
    by_contra nonzero
    rw [if_neg nonzero] at text
    cases text
  | _ => exact trivial

/-! ## Duplicating -/

theorem AgText.Keeps.dupEntries (keeps : txt.Keeps ideal) (languages : List Language) {dst : AgText}
    (started : ∀ lang, dst.ent lang = .empty ∨ dst.ent lang = txt.ent lang) :
    ∃ copy, txt.dupEntries languages dst = .ok copy ∧ copy.lang = dst.lang ∧ ∀ lang,
            (lang ∈ languages → copy.ent lang = txt.ent lang) ∧
              (dst.ent lang = txt.ent lang → copy.ent lang = txt.ent lang) := by
  induction languages generalizing dst with
  | nil =>
    refine ⟨dst, rfl, rfl, fun lang => ⟨?_, id⟩⟩
    intro member
    cases member
  | cons first rest ih =>
    have entry := keeps.ent first
    have noNul := keeps.noNul first
    cases string : ideal.strings first with
    | none =>
      rw [string] at entry
      have notAllocated : (txt.ent first).buf = none := by
        rw [entry]
        rfl
      obtain ⟨copy, copied, sameLang, ent⟩ := ih started
      refine ⟨copy, ?_, sameLang, fun lang => ⟨fun member => ?_, (ent lang).2⟩⟩
      · rw [AgText.dupEntries, notAllocated]
        exact copied
      · rcases List.mem_cons.mp member with rfl | inRest
        · apply (ent lang).2
          rcases started lang with isEmpty | same
          · rw [isEmpty, entry]
            rfl
          · exact same
        · exact (ent lang).1 inRest
    | some s =>
      rw [string] at entry noNul
      have allocated : (txt.ent first).buf = some (s ++ [0]) := by
        rw [entry]
        rfl
      have read : stringIn (s ++ [0]) = .ok s := by
        rw [stringIn, if_pos (by simp)]
        exact congrArg _ (cString_terminated noNul [])
      have copiedOne : ∀ lang, (dst.setEnt first (.ofString s)).ent lang = .empty ∨
              (dst.setEnt first (.ofString s)).ent lang = txt.ent lang := by
        intro lang
        by_cases same : lang = first
        · subst same
          right
          rw [AgText.setEnt_self, entry]
          rfl
        · rw [AgText.setEnt_other _ same]
          exact started lang
      obtain ⟨copy, copied, sameLang, ent⟩ := ih copiedOne
      refine ⟨copy, ?_, sameLang, fun lang => ⟨fun member => ?_, ?_⟩⟩
      · rw [AgText.dupEntries, allocated]
        simp only [read, bind, Except.bind, copied]
      · rcases List.mem_cons.mp member with rfl | inRest
        · apply (ent lang).2
          rw [AgText.setEnt_self, entry]
          rfl
        · exact (ent lang).1 inRest
      · intro same
        apply (ent lang).2
        by_cases isFirst : lang = first
        · subst isFirst
          rw [AgText.setEnt_self, entry]
          rfl
        · rw [AgText.setEnt_other _ isFirst]
          exact same

theorem AgText.Keeps.dup (keeps : txt.Keeps ideal) :
    ∃ copy, txt.dup = .ok copy ∧ copy.Keeps ideal := by
  have started : ∀ lang, txt.dupSettings.ent lang = .empty ∨
          txt.dupSettings.ent lang = txt.ent lang :=
    fun _ => .inl rfl
  obtain ⟨copy, copied, sameLang, ent⟩ := keeps.dupEntries (List.finRange langLast) started
  refine ⟨copy, copied, sameLang.trans keeps.lang, ?_, keeps.noNul⟩
  intro lang
  rw [(ent lang).1 (List.mem_finRange lang)]
  exact keeps.ent lang

end

/-! ## Runs -/

section

variable {texts : List AgText} {ideal : List LanguageStrings}

/-- The texts keep the strings. -/
abbrev TextsKeep (texts : List AgText) (ideal : List LanguageStrings) : Prop :=
  List.Forall₂ AgText.Keeps texts ideal

theorem TextsKeep.step (keep : TextsKeep texts ideal) {input : TextInput} (noNul : TextNoNul input)
    (served : TextServed texts input) :
    ∃ next, textStep texts input = some (next, (stringsStep ideal input).2) ∧
        TextsKeep next (stringsStep ideal input).1 := by
  obtain ⟨op, fresh⟩ := input
  cases op with
  | new maxLen =>
    refine ⟨texts ++ [.init maxLen], ?_, ?_⟩
    · simp only [textStep, stringsStep, keep.length_eq]
    · refine List.rel_append keep (.cons ?_ .nil)
      exact ⟨rfl, fun _ => rfl, fun _ => List.not_mem_nil⟩
  | dup number =>
    rcases forall₂_getElem? keep number with
      ⟨absent, noStrings⟩ | ⟨txt, strings, found, stringsFound, keeps⟩
    · exact ⟨texts, by simp only [textStep, absent, stringsStep, noStrings],
        by simpa only [stringsStep, noStrings] using keep⟩
    · obtain ⟨copy, copied, keepsCopy⟩ := keeps.dup
      refine ⟨texts ++ [copy], ?_, ?_⟩
      · simp only [textStep, found, copied, stringsStep, stringsFound, keep.length_eq]
        rfl
      · simp only [stringsStep, stringsFound]
        exact List.rel_append keep (.cons keepsCopy .nil)
  | call number call =>
    rcases forall₂_getElem? keep number with
      ⟨absent, noStrings⟩ | ⟨txt, strings, found, stringsFound, keeps⟩
    · exact ⟨texts, by simp only [textStep, absent, stringsStep, noStrings],
        by simpa only [stringsStep, noStrings] using keep⟩
    · obtain ⟨next, called, keepsNext⟩ :=
        keeps.call noNul (served txt found)
      refine ⟨texts.set number next, ?_, ?_⟩
      · simp only [textStep, found, called, stringsStep, stringsFound]
        rfl
      · simp only [stringsStep, stringsFound]
        exact forall₂_set keep keepsNext fun _ _ _ _ _ keeps => keeps

theorem TextsKeep.served_of_step (keep : TextsKeep texts ideal) {input : TextInput}
    (noNul : TextNoNul input) {next : List AgText}
    (stepped : textStep texts input = some (next, (stringsStep ideal input).2))
    (refine : TextsRefine next (stringsStep ideal input).1) : TextServed texts input := by
  obtain ⟨op, fresh⟩ := input
  cases op with
  | new maxLen => exact trivial
  | dup number => exact trivial
  | call number call =>
    intro txt found
    rcases forall₂_getElem? keep number with
      ⟨absent, _⟩ | ⟨other, strings, foundOther, stringsFound, keeps⟩
    · rw [absent] at found
      cases found
    obtain rfl : txt = other := Option.some.inj (found.symm.trans foundOther)
    simp only [textStep, found, stringsStep, stringsFound,
      Option.bind_eq_bind, Option.bind_eq_some_iff, toOption_eq_some, pure,
      Option.some.injEq, Prod.mk.injEq, Prod.exists] at stepped
    obtain ⟨after, status, called, rfl, rfl⟩ := stepped
    simp only [stringsStep, stringsFound] at refine
    have inside : number < texts.length := (List.getElem?_eq_some_iff.mp found).1
    rcases forall₂_getElem? refine number with
      ⟨absent, _⟩ | ⟨changed, meant, foundAfter, meantFound, refines⟩
    · rw [List.getElem?_set_self inside] at absent
      cases absent
    rw [List.getElem?_set_self inside] at foundAfter
    rw [List.getElem?_set_self (keep.length_eq ▸ inside)] at meantFound
    obtain rfl := Option.some.inj foundAfter
    obtain rfl := Option.some.inj meantFound
    exact keeps.served_of_call noNul called refines

end

/--
The texts refine the arrays of strings throughout a run exactly when every
operation of the run is served.
-/
theorem texts_refine_iff (inputs : List TextInput) (noNul : ∀ input ∈ inputs, TextNoNul input) :
    Follows textStep stringsStep TextsRefine [] [] inputs ↔
      EachInput textStep TextServed [] inputs := by
  apply follows_iff_eachInput TextsKeep
  · intro texts ideal keep
    exact keep.imp fun _ _ keeps => keeps.refines
  · intro texts ideal input keep noNul served
    exact keep.step noNul served
  · intro texts ideal input next keep noNul stepped refine
    exact keep.served_of_step noNul stepped refine
  · exact .nil
  · exact noNul

theorem texts_refine_iff_appended : Follows textStep stringsStep TextsRefine [] []
      [(.new 0, fun _ => 0), (.call 0 (.setS (some [97])), fun _ => 0),
        (.call 0 (.catBytes [98]), fun _ => 0)] := by
  rw [texts_refine_iff]
  · refine ⟨trivial, fun _ _ _ => ⟨fun _ _ => trivial, fun _ _ _ => ?_⟩⟩
    exact ⟨fun _ _ => .inr rfl, fun _ _ _ => trivial⟩
  · intro input member
    simp only [List.mem_cons, List.not_mem_nil, or_false] at member
    rcases member with rfl | rfl | rfl
    · exact trivial
    · exact (by decide : (0 : UInt8) ∉ [97])
    · exact (by decide : (0 : UInt8) ∉ [98])

theorem formatted_string_refused : ¬ ∀ inputs : List TextInput,
        (∀ input ∈ inputs, TextNoNul input) →
        Follows textStep stringsStep TextsRefine [] [] inputs := by
  intro follows
  have noNul : ∀ input ∈ [((.new 0 : TextOp), fun _ : Nat => (0 : UInt8)),
          (.call 0 (.set (some [97])), fun _ => 0)],
        TextNoNul input := by
    intro input member
    simp only [List.mem_cons, List.not_mem_nil, or_false] at member
    rcases member with rfl | rfl
    · exact trivial
    · exact (by decide : (0 : UInt8) ∉ [97])
  obtain ⟨_, first, created, _, second, refused, _⟩ := follows _ noNul
  obtain rfl : _ = first := congrArg Prod.fst (Option.some.inj created)
  have status : (-1 : Int) = 0 := congrArg Prod.snd (Option.some.inj refused)
  cases status

end Agar.Core
