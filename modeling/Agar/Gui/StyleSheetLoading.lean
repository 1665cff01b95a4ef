import Agar.Gui.StyleSheetLines

namespace Agar.Gui.StyleSheet

open Agar.Lib
open Agar.Core

/-!
# Loading style sheets

A sheet that is loaded holds the pairs of the text, block by block, where the
text places every pair in a block, closes every block, and fits the buffers for
keys and values.  Other texts lose pairs, reach memory that is not there, or
leave the target with a sheet that has been freed.
-/

attribute [local instance] instNeZeroNatStyleValueMax instNeZeroNatStyleMatchMax

/-! ## The loop over the lines -/

/-- What comes of lines, one after the other. -/
def runLines (first : Bool) (progress : Progress) :
    List Line → Except Stop (Option (List (List StyleEntry)))
  | [] => .ok (some progress.1)
  | line :: rest => do
      match ← line.turn first progress with
      | none => .ok none
      | some progress => runLines false progress rest

/-- The lines of a text -/
def linesOf (text : List UInt8) : List Line := ((cString text).splitOn 10).map lineOf

/-- The entries of the blocks of a sheet -/
def entriesOf : Option (List StyleBlock) → Option (List (List StyleEntry)) :=
  Option.map (List.map StyleBlock.ents)

theorem Follows.bind {front post : List UInt8} {size : Nat} {said : Except Stop (Option Progress)}
    {done : Except Stop Turn} {goOn : List UInt8 → List StyleBlock → Option StyleBlock →
        Except Stop (Option (List StyleBlock))}
    {later : Progress → Except Stop (Option (List (List StyleEntry)))}
    (follows : Follows front size post said done)
    (agrees : ∀ line css cssBlk, List.length line = size →
        (goOn (front ++ line ++ 0 :: post) css cssBlk).map entriesOf =
          later (progressOf css cssBlk)) :
    (do
      match ← done with
      | .failParse => return none
      | .next buf css cssBlk => goOn buf css cssBlk).map entriesOf =
      (do
        match ← said with
        | none => .ok none
        | some progress => later progress) := by
  unfold Follows at follows
  split at follows
  · rw [follows]
    rfl
  · rw [follows]
    rfl
  · obtain ⟨line, css, cssBlk, length, same, rfl⟩ := follows
    rw [same]
    exact agrees line css cssBlk length

theorem readLines_eq {turns : Nat} {front text post : List UInt8} (guarded : Guarded front)
    (noNul : 0 ∉ text) (fits : (front ++ text ++ 0 :: post).length < addresses)
    (enough : text.length < turns) (css : List StyleBlock) (cssBlk : Option StyleBlock) :
    (readLines turns (front ++ text ++ 0 :: post) front.length css cssBlk).map entriesOf =
      runLines front.isEmpty (progressOf css cssBlk) ((text.splitOn 10).map lineOf) := by
  induction turns generalizing front text post css cssBlk with
  | zero => exact absurd enough (Nat.not_lt_zero _)
  | succ turns ih =>
    unfold readLines
    by_cases another : 10 ∈ text
    · obtain ⟨line, rest, rfl, absent⟩ := List.eq_append_cons_of_mem another
      obtain ⟨lineNoNul, tailNoNul⟩ := not_or.mp (List.mem_append.not.mp noNul)
      have clear : ∀ x ∈ line, x ∉ [10] := by
        intro x member same
        exact absent (List.mem_singleton.mp same ▸ member)
      have regrouped : front ++ (line ++ 10 :: rest) ++ 0 :: post =
            front ++ line ++ 10 :: (rest ++ 0 :: post) := by
        simp
      have lineFits : (front ++ line ++ 0 :: (rest ++ 0 :: post)).length < addresses := by
        refine lt_of_eq_of_lt ?_ fits
        simp
      rw [regrouped, strsep_some (by decide) (by simp) lineNoNul clear, ok_bind,
        List.splitOn_append_cons_self_of_not_mem absent]
      refine (readLine_follows guarded lineNoNul lineFits css cssBlk).bind
        fun changed css cssBlk length => ?_
      have next := @ih (front ++ changed ++ [0]) rest post (.inr ⟨front ++ changed, rfl⟩)
        (fun isNul => tailNoNul (List.mem_cons_of_mem 10 isNul))
        (by
          refine lt_of_eq_of_lt ?_ lineFits
          simp [length])
        (by
          rw [List.length_append, List.length_cons] at enough
          omega)
        css cssBlk
      have place : (front ++ changed ++ [0]).length = front.length + line.length + 1 := by
        simp only [List.length_append, List.length_singleton, length]
      have notFirst : (front ++ changed ++ [0]).isEmpty = false := by simp
      rw [place, notFirst] at next
      rw [← next]
      simp
    · have clear : ∀ x ∈ text, x ∉ [10] := by
        intro x member same
        exact another (List.mem_singleton.mp same ▸ member)
      rw [strsep_none noNul clear, ok_bind, List.splitOn_eq_singleton another]
      refine (readLine_follows guarded noNul fits css cssBlk).bind
        fun changed css cssBlk length => ?_
      rfl

theorem exists_terminator (bytes : List UInt8) :
    ∃ post, bytes ++ [0] = cString bytes ++ 0 :: post := by
  induction bytes with
  | nil => exact ⟨[], rfl⟩
  | cons byte rest ih =>
    obtain ⟨post, same⟩ := ih
    rw [cString_cons, List.cons_append]
    split
    case isTrue isNul => exact ⟨rest ++ [0], by rw [isNul]; rfl⟩
    case isFalse => exact ⟨post, by rw [same]; rfl⟩

theorem parse_eq (file : StyleFile) : (parse file).map entriesOf =
      runLines true ([], none) (linesOf file.bytes) := by
  obtain ⟨post, stored⟩ := exists_terminator file.bytes
  have fits : ([] ++ cString file.bytes ++ 0 :: post).length < addresses := by
    rw [List.nil_append, ← stored, List.length_append]
    exact file.fits
  have read := readLines_eq (.inl rfl) (cString_noNul file.bytes) fits
    (Nat.lt_succ_of_le (List.takeWhile_prefix _).length_le) [] none
  rw [List.nil_append, ← stored] at read
  exact read

/-! ## What a text says -/

/-- A key and a value -/
abbrev Pair := List UInt8 × List UInt8

/-- What is held of a pair: its key and its value, as far as they fit. -/
def entryOf (pair : Pair) : StyleEntry := ⟨.strlcpy pair.1, .strlcpy pair.2⟩

/-- The pair that an entry holds -/
def StyleEntry.pair (ent : StyleEntry) : Pair := (ent.key.bytes, ent.value.bytes)

/--
The pairs of a text: those of the blocks that it closes, and those of the block
that is open at its end.
-/
def readText (current : Option (List Pair)) : List Line → List (List Pair) × Option (List Pair)
  | [] => ([], current)
  | .skipped :: rest => readText current rest
  | .opens _ :: rest =>
    let later := readText (some []) rest
    (current.toList ++ later.1, later.2)
  | .closes :: rest =>
    let later := readText none rest
    (current.toList ++ later.1, later.2)
  | .setting key value :: rest =>
    if key = [] ∨ value = [] then readText current rest
    else readText (current.map (· ++ [(key, value)])) rest

/-- The first line that is out of place in a text, if there is one. -/
inductive Fate where
  | inPlace
  /-- A block begins in another, or ends where there is none. -/
  | misplacedBrace
  /-- A pair is in no block. -/
  | strayPair
  deriving DecidableEq

/-- The fate of a text, from a line in a block or outside. -/
def fate (inside : Bool) : List Line → Fate
  | [] => .inPlace
  | .skipped :: rest => fate inside rest
  | .opens _ :: rest => if inside then .misplacedBrace else fate true rest
  | .closes :: rest => if inside then fate false rest else .misplacedBrace
  | .setting key value :: rest =>
    if key = [] ∨ value = [] then fate inside rest
    else if inside then fate true rest
    else .strayPair

/--
Nothing is missing in front of the brace or the separator on the first line, at
the beginning of the buffer.
-/
def Begins : List Line → Prop
  | .opens name :: _ => name ≠ []
  | .setting key _ :: _ => key ≠ []
  | _ => True

/-- What the loader makes of lines, by their fate. -/
def outcome (closed : List (List Pair)) : Fate → Except Stop (Option (List (List StyleEntry)))
  | .inPlace => .ok (some (closed.map (List.map entryOf)))
  | .misplacedBrace => .ok none
  | .strayPair => .error .undefined

theorem runLines_eq (lines : List Line) (closed : List (List Pair)) (current : Option (List Pair)) :
    runLines false (closed.map (List.map entryOf), current.map (List.map entryOf)) lines =
      outcome (closed ++ (readText current lines).1) (fate current.isSome lines) := by
  induction lines generalizing closed current with
  | nil =>
    rw [readText, List.append_nil]
    rfl
  | cons line rest ih =>
    cases line with
    | skipped => exact ih closed current
    | opens name =>
      cases current with
      | some pairs => rfl
      | none => exact ih closed (some [])
    | closes =>
      cases current with
      | none => rfl
      | some pairs =>
        have later := ih (closed ++ [pairs]) none
        rw [List.map_append, List.append_assoc] at later
        exact later
    | setting key value =>
      rw [runLines, turn_setting, readText, fate]
      rw [if_neg (by simp)]
      by_cases nothing : key = [] ∨ value = []
      · rw [if_pos nothing, if_pos nothing, if_pos nothing]
        exact ih closed current
      · rw [if_neg nothing, if_neg nothing, if_neg nothing]
        cases current with
        | none => rfl
        | some pairs =>
          have later := ih closed (some (pairs ++ [(key, value)]))
          rw [Option.map_some, List.map_append] at later
          exact later

theorem runLines_first (lines : List Line) : (Begins lines ∧ runLines true ([], none) lines =
        runLines false ([], none) lines) ∨
      (¬ Begins lines ∧ runLines true ([], none) lines = .error .undefined) := by
  cases lines with
  | nil => exact .inl ⟨trivial, rfl⟩
  | cons line rest =>
    cases line with
    | skipped => exact .inl ⟨trivial, rfl⟩
    | closes => exact .inl ⟨trivial, rfl⟩
    | opens name =>
      by_cases unnamed : name = []
      · rw [unnamed]
        exact .inr ⟨fun begins => begins rfl, rfl⟩
      · refine .inl ⟨unnamed, ?_⟩
        simp [runLines, Line.turn, unnamed]
    | setting key value =>
      by_cases empty : key = []
      · rw [empty]
        exact .inr ⟨fun begins => begins rfl, rfl⟩
      · refine .inl ⟨empty, ?_⟩
        simp [runLines, turn_setting, empty]

theorem parse_outcome (file : StyleFile) : (Begins (linesOf file.bytes) ∧
        (parse file).map entriesOf = outcome (readText none (linesOf file.bytes)).1
            (fate false (linesOf file.bytes))) ∨
      (¬ Begins (linesOf file.bytes) ∧ parse file = .error .undefined) := by
  have whole := runLines_eq (linesOf file.bytes) [] none
  obtain ⟨begins, same⟩ | ⟨missing, left⟩ := runLines_first (linesOf file.bytes)
  · exact .inl ⟨begins, (parse_eq file).trans (same.trans whole)⟩
  · refine .inr ⟨missing, ?_⟩
    have read := (parse_eq file).trans left
    cases parsed : parse file with
    | error stop =>
      rw [parsed] at read
      exact congrArg Except.error (Except.error.inj read)
    | ok css =>
      rw [parsed] at read
      cases read

/-! ## The pairs that fit -/

theorem noNul_splitOn (text : List UInt8) (noNul : 0 ∉ text) :
    ∀ line ∈ text.splitOn 10, 0 ∉ line := by
  induction isSize : text.length using Nat.strongRecOn generalizing text with
  | ind size ih =>
    by_cases another : 10 ∈ text
    · obtain ⟨line, rest, rfl, absent⟩ := List.eq_append_cons_of_mem another
      obtain ⟨lineNoNul, tailNoNul⟩ := not_or.mp (List.mem_append.not.mp noNul)
      have shorter : rest.length < size := by
        rw [← isSize, List.length_append, List.length_cons]
        omega
      rw [List.splitOn_append_cons_self_of_not_mem absent, List.forall_mem_cons]
      refine ⟨lineNoNul, ih rest.length shorter rest ?_ rfl⟩
      exact fun isNul => tailNoNul (List.mem_cons_of_mem 10 isNul)
    · rw [List.splitOn_eq_singleton another, List.forall_mem_singleton]
      exact noNul

theorem mem_of_mem_trimmed {text : List UInt8} {byte : UInt8} (member : byte ∈ trimmed text) :
    byte ∈ text :=
  (List.dropWhile_suffix _).subset ((List.rdropWhile_prefix _ _).subset member)

theorem noNul_lineOf {line key value : List UInt8} (noNul : 0 ∉ line)
    (isSetting : lineOf line = .setting key value) : 0 ∉ key ∧ 0 ∉ value := by
  have inLine : ∀ byte ∈ line.dropWhile isSpace, byte ∈ line :=
    fun byte member => (List.dropWhile_suffix _).subset member
  unfold lineOf settingOf at isSetting
  dsimp only at isSetting
  split_ifs at isSetting
  split at isSetting
  · cases isSetting
  case h_2 d values behind =>
    cases isSetting
    refine ⟨fun isNul => noNul (inLine 0 ?_), fun isNul => noNul (inLine 0 ?_)⟩
    · exact (List.takeWhile_prefix _).subset (mem_of_mem_trimmed isNul)
    · refine (List.dropWhile_suffix (fun byte => !separates byte)).subset ?_
      rw [behind]
      exact List.mem_cons_of_mem d ((List.takeWhile_prefix _).subset (mem_of_mem_trimmed isNul))

theorem readText_all {property : Pair → Prop} {lines : List Line} {current : Option (List Pair)}
    (settings : ∀ key value, .setting key value ∈ lines → property (key, value))
    (before : ∀ pairs ∈ current, ∀ pair ∈ pairs, property pair) :
    ∀ block ∈ (readText current lines).1, ∀ pair ∈ block, property pair := by
  induction lines generalizing current with
  | nil =>
    intro block listed
    cases listed
  | cons line rest ih =>
    have later : ∀ key value, Line.setting key value ∈ rest → property (key, value) :=
      fun key value listed => settings key value (List.mem_cons_of_mem _ listed)
    have closing : ∀ next : Option (List Pair), (∀ pairs ∈ next, ∀ pair ∈ pairs, property pair) →
          ∀ block ∈ current.toList ++ (readText next rest).1, ∀ pair ∈ block, property pair := by
      intro next after block listed
      obtain closed | behind := List.mem_append.mp listed
      · exact before block (Option.mem_toList.mp closed)
      · exact ih later after block behind
    cases line with
    | skipped => exact ih later before
    | opens name => exact closing (some []) (by simp)
    | closes => exact closing none (by simp)
    | setting key value =>
      rw [readText]
      split
      · exact ih later before
      · refine ih later ?_
        cases current with
        | none => simp
        | some pairs =>
          have here := settings key value List.mem_cons_self
          have earlier := before pairs rfl
          simp only [Option.map_some, Option.mem_def, Option.some.injEq,
            forall_eq', List.forall_mem_append, List.forall_mem_singleton]
          exact ⟨earlier, here⟩

/-- A pair that fits the buffers for keys and values -/
def Fits (pair : Pair) : Prop := pair.1.length < variableNameMax ∧ pair.2.length < styleValueMax

theorem pair_entryOf_iff {pair : Pair} (noNul : 0 ∉ pair.1 ∧ 0 ∉ pair.2) :
    (entryOf pair).pair = pair ↔ Fits pair := by
  rw [StyleEntry.pair, entryOf, Prod.ext_iff]
  exact and_congr (bytes_strlcpy_eq_iff noNul.1) (bytes_strlcpy_eq_iff noNul.2)

theorem map_eq_self_iff {β : Type} {f : β → β} {items : List β} :
    items.map f = items ↔ ∀ item ∈ items, f item = item := by
  have mapped := List.map_inj_left (l := items) (f := f) (g := id)
  rwa [List.map_id] at mapped

theorem map_eq_append_toList_iff {β : Type} {f : β → β} {items : List β} {last : Option β} :
    items.map f = items ++ last.toList ↔ last = none ∧ ∀ item ∈ items, f item = item := by
  constructor
  · intro same
    have lengths := congrArg List.length same
    rw [List.length_map, List.length_append] at lengths
    cases last with
    | some item => simp at lengths
    | none =>
      refine ⟨rfl, fun item member => ?_⟩
      rw [Option.toList_none, List.append_nil] at same
      exact map_eq_self_iff.mp same item member
  · rintro ⟨rfl, same⟩
    rw [Option.toList_none, List.append_nil]
    exact map_eq_self_iff.mpr same

/-! ## Surviving any file -/

/-- The pairs that a block holds -/
def StyleBlock.pairs (blk : StyleBlock) : List Pair := blk.ents.map StyleEntry.pair

/-- The blocks of a text, with the pairs of each -/
def textBlocks (text : List UInt8) : List (List Pair) :=
  (readText none (linesOf text)).1 ++ (readText none (linesOf text)).2.toList

/-- A text closes its last block, and its pairs fit. -/
def Whole (text : List UInt8) : Prop :=
  (readText none (linesOf text)).2 = none ∧
    ∀ block ∈ (readText none (linesOf text)).1, ∀ pair ∈ block, Fits pair

/--
Nothing outside the buffers is accessed; and either a sheet is returned whose
blocks hold the pairs of the text in order, or the target is left without a
sheet, or with the one that it had.
-/
def Survives (sources : Sources) (tgt : Option Attached) (path : List UInt8)
    (result : Except Stop Loaded) : Prop :=
  ∃ loaded, result = .ok loaded ∧ match loaded.returned with
      | some css =>
        ∃ file, sources.dataSource path = some file ∧
            css.map StyleBlock.pairs = textBlocks file.bytes
      | none =>
        match loaded.css with
        | some css => css = .null ∨ some css = tgt
        | none => loaded.agDefaultCSS = []

/--
The text can be loaded for the target: what is read does not begin with a brace
or a separator, every pair is in a block, and either all braces are in place and
the text is whole, or there is no target that is left with a freed sheet.
-/
def Loadable (tgt : Option Attached) : Option StyleFile → Prop
  | none => tgt = none
  | some file =>
    Begins (linesOf file.bytes) ∧ match fate false (linesOf file.bytes) with
      | .inPlace => Whole file.bytes
      | .misplacedBrace => tgt = none
      | .strayPair => False

theorem pairs_eq_iff {css : List StyleBlock} {text : List UInt8}
    (read : entriesOf (some css) = some ((readText none (linesOf text)).1.map (List.map entryOf))) :
    css.map StyleBlock.pairs = textBlocks text ↔ Whole text := by
  have noNul : ∀ block ∈ (readText none (linesOf text)).1,
        ∀ pair ∈ block, 0 ∉ pair.1 ∧ 0 ∉ pair.2 := by
    refine readText_all (fun key value listed => ?_) (by simp)
    obtain ⟨line, isLine, isSetting⟩ := List.mem_map.mp listed
    exact noNul_lineOf (noNul_splitOn _ (cString_noNul text) line isLine) isSetting
  have held : css.map StyleBlock.pairs = (readText none (linesOf text)).1.map
          (List.map fun pair => (entryOf pair).pair) := by
    have entries := congrArg (List.map (List.map StyleEntry.pair)) (Option.some.inj read)
    rw [List.map_map, List.map_map] at entries
    refine Eq.trans ?_ (entries.trans ?_)
    · rfl
    · refine List.map_congr_left fun block _ => ?_
      exact List.map_map
  rw [held, textBlocks, map_eq_append_toList_iff, Whole]
  refine and_congr_right fun _ => forall₂_congr fun block listed => ?_
  rw [map_eq_self_iff]
  exact forall₂_congr fun pair member => pair_entryOf_iff (noNul block listed pair member)

theorem survives_failed_iff {sources : Sources} {agDefaultCSS : List StyleBlock}
    {tgt : Option Attached} {path : List UInt8} (usable : tgt ≠ some .freed)
    (failed : loadStyleSheet sources agDefaultCSS tgt path = .ok (match tgt with
          | some _ => ⟨none, some .freed, agDefaultCSS⟩
          | none => ⟨none, none, []⟩)) :
    Survives sources tgt path (loadStyleSheet sources agDefaultCSS tgt path) ↔ tgt = none := by
  rw [failed]
  cases tgt with
  | none => exact iff_of_true ⟨_, rfl, rfl⟩ rfl
  | some css =>
    refine iff_of_false ?_ (Option.some_ne_none css)
    rintro ⟨loaded, same, unattached⟩
    cases same
    obtain null | kept := unattached
    · cases null
    · exact usable kept.symm

theorem survives_loaded_iff {sources : Sources} {agDefaultCSS css : List StyleBlock}
    {tgt : Option Attached} {path : List UInt8} {file : StyleFile}
    (opened : sources.dataSource path = some file)
    (succeeds : loadStyleSheet sources agDefaultCSS tgt path = .ok (match tgt with
          | some _ => ⟨some css, some (.sheet css), agDefaultCSS⟩
          | none => ⟨some css, none, css⟩)) :
    Survives sources tgt path (loadStyleSheet sources agDefaultCSS tgt path) ↔
      css.map StyleBlock.pairs = textBlocks file.bytes := by
  have held : (∃ other, some file = some other ∧
          css.map StyleBlock.pairs = textBlocks other.bytes) ↔
        css.map StyleBlock.pairs = textBlocks file.bytes :=
    ⟨fun ⟨_, same, holds⟩ => Option.some.inj same ▸ holds, fun holds => ⟨file, rfl, holds⟩⟩
  rw [succeeds, Survives, opened, ← held]
  cases tgt with
  | none => simp
  | some css => simp

/--
Loading a style sheet is survived exactly where the target has no freed sheet
and the text can be loaded for it.
-/
theorem loadStyleSheet_survives_iff (sources : Sources) (agDefaultCSS : List StyleBlock)
    (tgt : Option Attached) (path : List UInt8) :
    Survives sources tgt path (loadStyleSheet sources agDefaultCSS tgt path) ↔
      tgt ≠ some .freed ∧ Loadable tgt (sources.dataSource path) := by
  by_cases freed : tgt = some .freed
  · refine iff_of_false ?_ fun usable => usable.1 freed
    rw [loadStyleSheet, if_pos freed]
    rintro ⟨loaded, reached, _⟩
    cases reached
  · rw [and_iff_right freed]
    cases opened : sources.dataSource path with
    | none =>
      refine survives_failed_iff freed ?_
      rw [loadStyleSheet, if_neg freed, opened]
      cases tgt <;> rfl
    | some file =>
      have never : (∃ stop, parse file = .error stop) → ¬ Survives sources tgt path
            (loadStyleSheet sources agDefaultCSS tgt path) := by
        rintro ⟨stop, fails⟩ ⟨loaded, reached, _⟩
        rw [loadStyleSheet, if_neg freed, opened] at reached
        change parse file >>= _ = _ at reached
        rw [fails] at reached
        cases reached
      rw [Loadable]
      obtain ⟨begins, read⟩ | ⟨missing, fails⟩ := parse_outcome file
      · rw [and_iff_right begins]
        cases isFate : fate false (linesOf file.bytes) with
        | inPlace =>
          rw [isFate] at read
          cases parsed : parse file with
          | error stop =>
            rw [parsed] at read
            cases read
          | ok found =>
            rw [parsed] at read
            have isRead := Except.ok.inj read
            cases found with
            | none => cases isRead
            | some css =>
              refine (survives_loaded_iff opened ?_).trans (pairs_eq_iff isRead)
              rw [loadStyleSheet, if_neg freed, opened]
              change parse file >>= _ = _
              rw [parsed]
              cases tgt <;> rfl
        | misplacedBrace =>
          rw [isFate] at read
          cases parsed : parse file with
          | error stop =>
            rw [parsed] at read
            cases read
          | ok found =>
            rw [parsed] at read
            have isRead := Except.ok.inj read
            cases found with
            | some css => cases isRead
            | none =>
              refine survives_failed_iff freed ?_
              rw [loadStyleSheet, if_neg freed, opened]
              change parse file >>= _ = _
              rw [parsed]
              cases tgt <;> rfl
        | strayPair =>
          rw [isFate] at read
          cases parsed : parse file with
          | ok found =>
            rw [parsed] at read
            cases read
          | error stop => exact iff_of_false (never ⟨stop, parsed⟩) id
      · exact iff_of_false (never ⟨_, fails⟩) fun loadable => missing loadable.1

/-- A file that holds a pair in no block: `color: red` -/
def strayFile : StyleFile where
  bytes := ascii "color: red"
  fits := by decide

def onlyFile (file : StyleFile) : Sources where
  agBuiltinStyles := []
  openFile _ := some file

theorem stray_not_survives : ¬ Survives (onlyFile strayFile) none (ascii "my.css")
      (loadStyleSheet (onlyFile strayFile) [] none (ascii "my.css")) := by
  rintro ⟨loaded, reached, _⟩
  have undefined : loadStyleSheet (onlyFile strayFile) [] none (ascii "my.css") =
        .error .undefined := by
    rfl
  rw [undefined] at reached
  cases reached

end Agar.Gui.StyleSheet
