import Agar.Gui.StyleSheetStrings

namespace Agar.Gui.StyleSheet

open Agar.Lib
open Agar.Core

/-!
# Lines of a style sheet

What a line is for the loader: where the buffer has a NUL in front of the line,
the turn of the loop at it does what its braces, its key and its value say, and
stays within the line.
-/

attribute [local instance] instNeZeroNatStyleValueMax instNeZeroNatStyleMatchMax

/-! ## What a line says -/

/-- `':'` or `'='` -/
def separates (c : UInt8) : Bool := c = 58 || c = 61

/-- A string without the whitespace at its ends -/
def trimmed (text : List UInt8) : List UInt8 := (text.dropWhile isSpace).rdropWhile isSpace

/-- What a line of a style sheet says. -/
inductive Line where
  /-- Nothing: it is empty, a comment, or has no separator. -/
  | skipped
  /-- A block begins, with what is in front of the brace. -/
  | opens (name : List UInt8)
  /-- A block ends. -/
  | closes
  /-- What is in front of the first separator, and between it and the second. -/
  | setting (key value : List UInt8)
  deriving DecidableEq

/-- The key and the value on a line without braces -/
def settingOf (c : List UInt8) : Line :=
  match c.dropWhile (!separates ·) with
  | [] => .skipped
  | _ :: values =>
    .setting (trimmed (c.takeWhile (!separates ·))) (trimmed (values.takeWhile (!separates ·)))

/-- What the bytes of a line say. -/
def lineOf (line : List UInt8) : Line :=
  let c := line.dropWhile isSpace
  if c = [] ∨ c.head? = some 35 then .skipped
  else if 123 ∈ c then .opens (c.takeWhile (· ≠ 123))
  else if 125 ∈ c then .closes
  else settingOf c

/-- The blocks that have been closed, and the one that is open, by their entries -/
abbrev Progress := List (List StyleEntry) × Option (List StyleEntry)

/--
What comes of a line: progress, nothing where the parser fails, or an access
outside the buffer or to no block.
-/
def Line.turn (first : Bool) (progress : Progress) : Line → Except Stop (Option Progress)
  | .skipped => .ok (some progress)
  | .opens name =>
    match progress.2 with
    | some _ => .ok none
    | none => if first ∧ name = [] then .error .undefined else .ok (some (progress.1, some []))
  | .closes =>
    match progress.2 with
    | none => .ok none
    | some ents => .ok (some (progress.1 ++ [ents], none))
  | .setting key value =>
    if first ∧ key = [] then .error .undefined
    else if key = [] ∨ value = [] then .ok (some progress)
    else
      match progress.2 with
      | none => .error .undefined
      | some ents => .ok (some (progress.1, some (ents ++ [⟨.strlcpy key, .strlcpy value⟩])))

/-- The progress that the loader has made. -/
def progressOf (css : List StyleBlock) (cssBlk : Option StyleBlock) : Progress :=
  (css.map StyleBlock.ents, cssBlk.map StyleBlock.ents)

/--
A turn of the loop does what the line says, and of the buffer it changes at most
the line.
-/
def Follows (front : List UInt8) (size : Nat) (post : List UInt8)
    (said : Except Stop (Option Progress)) (done : Except Stop Turn) : Prop :=
  match said with
  | .error stop => done = .error stop
  | .ok none => done = .ok .failParse
  | .ok (some progress) =>
    ∃ line css cssBlk, List.length line = size ∧
      done = .ok (.next (front ++ line ++ 0 :: post) css cssBlk) ∧
      progressOf css cssBlk = progress

/-- The buffer has a NUL in front of a line, or begins with it. -/
def Guarded (front : List UInt8) : Prop := front = [] ∨ ∃ before, front = before ++ [0]

section Turns

variable {front spaces name after token post : List UInt8} {css : List StyleBlock}
  {cssBlk : Option StyleBlock}

theorem set_line {t : Nat} {line : List UInt8} (behind : front.length ≤ t)
    (before : t < front.length + line.length) (post : List UInt8) :
    ∃ changed, List.length changed = line.length ∧
        (front ++ line ++ 0 :: post).set t 0 = front ++ changed ++ 0 :: post := by
  refine ⟨line.set (t - front.length) 0, List.length_set, ?_⟩
  rw [List.append_assoc, List.set_append_right _ _ behind,
    List.set_append_left _ _ (by omega), ← List.append_assoc]

theorem exists_stringAt {c : Nat} (inside : c ≤ front.length) (post : List UInt8) :
    ∃ text, stringAt (front ++ 0 :: post) c = .ok text := by
  have terminated : ∃ t, scan (fun byte => decide (byte = 0)) (front ++ 0 :: post) c = some t := by
    have found : (((front ++ 0 :: post).drop c).findIdx? fun byte =>
          decide (byte = 0)).isSome := by
      rw [List.findIdx?_isSome, List.drop_append_of_le_length inside]
      simp
    obtain ⟨t, isFirst⟩ := Option.isSome_iff_exists.mp found
    exact ⟨c + t, by rw [scan, isFirst]; rfl⟩
  obtain ⟨t, isFirst⟩ := terminated
  refine ⟨((front ++ 0 :: post).drop c).take (t - c), ?_⟩
  rw [stringAt, strlen, isFirst]
  rfl

theorem scanBack_line (guarded : Guarded front) (line rest : List UInt8) :
    (front = [] ∧ (∀ x ∈ line, isSpace x = true) ∧
        scanBack isSpace (front ++ line ++ rest) (front ++ line).length = none) ∨
      (¬ (front = [] ∧ ∀ x ∈ line, isSpace x = true) ∧ ∃ t,
          scanBack isSpace (front ++ line ++ rest) (front ++ line).length = some t ∧
          front.length ≤ t ∧ t ≤ (front ++ line).length) := by
  obtain ⟨blank, _⟩ | ⟨core, b, gap, rfl, edge, gapBlank, _⟩ := blank_or_edge isSpace line
  · obtain rfl | ⟨before, rfl⟩ := guarded
    · exact .inl ⟨rfl, blank, scanBack_none blank⟩
    · refine .inr ⟨fun first => by simp at first, before.length + 1, ?_, ?_, ?_⟩
      · have back := @scanBack_eq _ before line rest 0 isSpace blank rfl
        have regrouped : before ++ [0] ++ line ++ rest = before ++ 0 :: line ++ rest := by simp
        have place : (before ++ [0] ++ line).length = before.length + 1 + line.length := by
          simp only [List.length_append, List.length_singleton]
        rw [regrouped, place]
        exact back
      · simp
      · simp
  · refine .inr ⟨fun first => ?_, (front ++ core).length + 1, ?_, ?_, ?_⟩
    · have isBlank := first.2 b (by simp)
      exact Bool.false_ne_true (edge.symm.trans isBlank)
    · have back := @scanBack_eq _ (front ++ core) gap rest b isSpace gapBlank edge
      have place : (front ++ (core ++ b :: gap)).length =
            (front ++ core).length + 1 + gap.length := by
        simp only [List.length_append, List.length_cons]
        omega
      rw [place, ← List.append_assoc front]
      exact back
    · simp only [List.length_append]
      omega
    · simp only [List.length_append, List.length_cons]
      omega

theorem blank_iff_unnamed (spacesBlank : ∀ x ∈ spaces, isSpace x = true)
    (starts : ∀ b ∈ name.head?, isSpace b = false) :
    (∀ x ∈ spaces ++ name, isSpace x = true) ↔ name = [] := by
  constructor
  · intro blank
    cases name with
    | nil => rfl
    | cons b rest =>
      have isBlank := blank b (by simp)
      have notBlank := starts b rfl
      exact absurd (isBlank.symm.trans notBlank) (by simp)
  · rintro rfl
    simpa using spacesBlank

theorem openBlock_follows (guarded : Guarded front) (spacesBlank : ∀ x ∈ spaces, isSpace x = true)
    (starts : ∀ b ∈ name.head?, isSpace b = false) (after post : List UInt8) (css : List StyleBlock)
    (cssBlk : Option StyleBlock) :
    Follows front (spaces ++ (name ++ 123 :: after)).length post
      ((Line.opens name).turn front.isEmpty (progressOf css cssBlk))
      (openBlock (front ++ (spaces ++ (name ++ 123 :: after)) ++ 0 :: post)
        (front ++ spaces).length ((front ++ spaces).length + name.length)
        css cssBlk) := by
  cases cssBlk with
  | some blk => rfl
  | none =>
    have regrouped : front ++ (spaces ++ (name ++ 123 :: after)) ++ 0 :: post =
          front ++ (spaces ++ name) ++ (123 :: after ++ 0 :: post) := by
      simp
    have place : (front ++ spaces).length + name.length = (front ++ (spaces ++ name)).length := by
      simp only [List.length_append]
      omega
    obtain ⟨rfl, blank, left⟩ | ⟨inside, t, back, first, last⟩ :=
      scanBack_line guarded (spaces ++ name) (123 :: after ++ 0 :: post)
    · have unnamed := (blank_iff_unnamed spacesBlank starts).mp blank
      have said : (Line.opens name).turn true (progressOf css none) = .error .undefined :=
        if_pos ⟨rfl, unnamed⟩
      rw [List.isEmpty_nil, said]
      unfold Follows openBlock
      rw [place, regrouped, left]
      rfl
    · have said : (Line.opens name).turn front.isEmpty (progressOf css none) =
            .ok (some (css.map StyleBlock.ents, some [])) := by
        refine if_neg fun both => inside ⟨?_, ?_⟩
        · exact List.isEmpty_iff.mp both.1
        · exact (blank_iff_unnamed spacesBlank starts).mpr both.2
      have lineEnd : t < front.length + (spaces ++ (name ++ 123 :: after)).length := by
        simp only [List.length_append, List.length_cons] at last ⊢
        omega
      obtain ⟨changed, sameLength, isChanged⟩ := set_line first lineEnd post
      have within : (front ++ spaces).length ≤ (front ++ changed).length := by
        simp only [List.length_append, sameLength]
        omega
      obtain ⟨text, copied⟩ := exists_stringAt within post
      rw [said]
      refine ⟨changed, css, some ⟨.strlcpy text, []⟩, sameLength, ?_, rfl⟩
      unfold openBlock
      rw [place, regrouped, back, ← regrouped]
      change (stringAt (List.set _ t 0) _ >>= _) = _
      rw [isChanged, copied]
      rfl

theorem eq_nil_of_blank (starts : ∀ b ∈ token.head?, isSpace b = false)
    (blank : ∀ x ∈ token, isSpace x = true) : token = [] := by
  have noSpaces : ∀ x ∈ ([] : List UInt8), isSpace x = true := by simp
  exact (blank_iff_unnamed noSpaces starts).mp (by simpa using blank)

theorem replicate_append_nul (count : Nat) (post : List UInt8) :
    List.replicate count 0 ++ 0 :: post = 0 :: (List.replicate count 0 ++ post) := by
  rw [← List.singleton_append, ← List.append_assoc, ← List.replicate_succ',
    List.replicate_succ, List.cons_append]

theorem trimEnd_empty {before : List UInt8} (spacesBlank : ∀ x ∈ spaces, isSpace x = true)
    (fits : (before ++ 0 :: spaces ++ 0 :: post).length < addresses) :
    trimEnd (before ++ 0 :: spaces ++ 0 :: post) (before ++ 0 :: spaces).length =
      .ok (before ++ 0 :: List.replicate spaces.length 0 ++ 0 :: post) := by
  have isLength : strlen (before ++ 0 :: spaces ++ 0 :: post)
        (before ++ 0 :: spaces).length = .ok 0 := by
    have empty := strlen_eq (List.not_mem_nil : (0 : UInt8) ∉ []) (before ++ 0 :: spaces) post
    rwa [List.append_nil] at empty
  have place : (before ++ 0 :: spaces).length + 0 = before.length + 1 + spaces.length := by
    simp only [List.length_append, List.length_cons]
    omega
  exact trimEnd_eq rfl spacesBlank fits isLength place

theorem trimEnd_edge {core : List UInt8} {b : UInt8} (edge : isSpace b = false)
    (gapBlank : ∀ x ∈ gap, isSpace x = true) (noNul : 0 ∉ core ++ b :: gap)
    (fits : (front ++ (core ++ b :: gap) ++ 0 :: post).length < addresses) :
    trimEnd (front ++ (core ++ b :: gap) ++ 0 :: post) front.length =
      .ok (front ++ (core ++ b :: List.replicate gap.length 0) ++ 0 :: post) := by
  have isLength := strlen_eq noNul front post
  have regrouped : front ++ (core ++ b :: gap) ++ 0 :: post =
        front ++ core ++ b :: gap ++ 0 :: post := by
    rw [← List.append_assoc front core]
  have place : front.length + (core ++ b :: gap).length =
        (front ++ core).length + 1 + gap.length := by
    simp only [List.length_append, List.length_cons]
    omega
  rw [regrouped] at fits isLength ⊢
  rw [trimEnd_eq edge gapBlank fits isLength place, ← List.append_assoc front core]

theorem stringAt_edge {core : List UInt8} {b : UInt8} (noNul : 0 ∉ core ++ b :: gap) (count : Nat)
    (post : List UInt8) :
    stringAt (front ++ (core ++ b :: List.replicate count 0) ++ 0 :: post) front.length =
      .ok (core ++ [b]) := by
  have coreNoNul : 0 ∉ core ++ [b] := by
    simp only [List.mem_append, List.mem_cons, not_or] at noNul ⊢
    exact ⟨noNul.1, noNul.2.1, List.not_mem_nil⟩
  have regrouped : front ++ (core ++ b :: List.replicate count 0) ++ 0 :: post =
        front ++ (core ++ [b]) ++ 0 :: (List.replicate count 0 ++ post) := by
    rw [← replicate_append_nul]
    simp
  rw [regrouped, stringAt_eq coreNoNul]

theorem trimEnd_token (guarded : Guarded front) (spacesBlank : ∀ x ∈ spaces, isSpace x = true)
    (starts : ∀ b ∈ token.head?, isSpace b = false) (noNul : 0 ∉ token)
    (fits : (front ++ spaces ++ token ++ 0 :: post).length < addresses) :
    (front = [] ∧ token = [] ∧ trimEnd (front ++ spaces ++ token ++ 0 :: post)
          (front ++ spaces).length = .error .undefined) ∨
      (¬ (front = [] ∧ token = []) ∧ ∃ changed, List.length changed = (spaces ++ token).length ∧
          trimEnd (front ++ spaces ++ token ++ 0 :: post)
            (front ++ spaces).length = .ok (front ++ changed ++ 0 :: post) ∧
          ∀ behind, stringAt (front ++ changed ++ 0 :: behind)
              (front ++ spaces).length = .ok (token.rdropWhile isSpace)) := by
  obtain ⟨blank, nothing⟩ | ⟨core, b, gap, rfl, edge, gapBlank, rest⟩ := blank_or_edge isSpace token
  · obtain rfl := eq_nil_of_blank starts blank
    rw [List.append_nil] at fits ⊢
    obtain rfl | ⟨before, rfl⟩ := guarded
    · exact .inl ⟨rfl, rfl, trimEnd_none spacesBlank fits⟩
    · refine .inr ⟨fun first => by simp at first,
        List.replicate spaces.length 0, by simp, ?_, fun behind => ?_⟩
      · have regrouped : before ++ [0] ++ spaces = before ++ 0 :: spaces := by
          simp
        rw [regrouped] at fits ⊢
        rw [trimEnd_empty spacesBlank fits]
        simp
      · have empty := stringAt_eq (List.not_mem_nil : (0 : UInt8) ∉ [])
          (before ++ [0] ++ List.replicate spaces.length 0) behind
        rw [nothing]
        simpa using empty
  · refine .inr ⟨fun first => by simp at first,
      spaces ++ (core ++ b :: List.replicate gap.length 0), by simp, ?_,
      fun behind => ?_⟩
    · rw [trimEnd_edge edge gapBlank noNul fits, List.append_assoc front spaces]
    · rw [rest, ← List.append_assoc front spaces, stringAt_edge noNul]

theorem takeWhile_of_starts (starts : ∀ b ∈ token.head?, isSpace b = false) :
    token.takeWhile isSpace = [] ∧ token.dropWhile isSpace = token := by
  cases token with
  | nil => exact ⟨rfl, rfl⟩
  | cons b rest =>
    have notBlank := starts b rfl
    simp [notBlank]

theorem skipSpaces_token (front token post : List UInt8) :
    skipSpaces (front ++ token ++ 0 :: post) front.length =
        .ok (front ++ token.takeWhile isSpace).length ∧
      front ++ token ++ 0 :: post = front ++ token.takeWhile isSpace ++ token.dropWhile isSpace ++
          0 :: post := by
  constructor
  · rw [skipSpaces_eq, List.length_append]
  · rw [List.append_assoc front (token.takeWhile _), List.takeWhile_append_dropWhile]

theorem starts_dropWhile (token : List UInt8) :
    ∀ b ∈ (token.dropWhile isSpace).head?, isSpace b = false := by
  intro b first
  cases left : token.dropWhile isSpace with
  | nil =>
    rw [left] at first
    cases first
  | cons head rest =>
    rw [left] at first
    cases first
    have notBlank := List.head_dropWhile_not isSpace
      (show token.dropWhile isSpace ≠ [] by simp [left])
    simpa [left] using notBlank

theorem trimmed_eq_nil_iff (token : List UInt8) :
    trimmed token = [] ↔ token.dropWhile isSpace = [] := by
  constructor
  · intro empty
    exact eq_nil_of_blank (starts_dropWhile token) (List.rdropWhile_eq_nil_iff.mp empty)
  · intro empty
    rw [trimmed, empty, List.rdropWhile_nil]

theorem turn_setting (key value : List UInt8) (first : Bool) (progress : Progress) :
    (Line.setting key value).turn first progress = if first = true ∧ key = [] then
        .error .undefined
      else if key = [] ∨ value = [] then .ok (some progress)
      else
        match progress.2 with
        | none => .error .undefined
        | some ents => .ok (some (progress.1, some (ents ++ [⟨.strlcpy key, .strlcpy value⟩]))) :=
  rfl

theorem setEntry_follows {key value : List UInt8} (guarded : Guarded front)
    (spacesBlank : ∀ x ∈ spaces, isSpace x = true) (starts : ∀ b ∈ key.head?, isSpace b = false)
    (keyNoNul : 0 ∉ key) (valueNoNul : 0 ∉ value)
    (fits : (front ++ spaces ++ key ++ 0 :: (value ++ 0 :: post)).length < addresses)
    (css : List StyleBlock) (cssBlk : Option StyleBlock) :
    Follows front (spaces ++ (key ++ 0 :: value)).length post
      ((Line.setting (trimmed key) (trimmed value)).turn front.isEmpty (progressOf css cssBlk))
      (setEntry (front ++ spaces ++ key ++ 0 :: (value ++ 0 :: post))
        (front ++ spaces).length ((front ++ spaces ++ key).length + 1)
        css cssBlk) := by
  have keyWhole := takeWhile_of_starts starts
  have keyStart : skipSpaces (front ++ spaces ++ key ++ 0 :: (value ++ 0 :: post))
        (front ++ spaces).length = .ok (front ++ spaces).length := by
    rw [(skipSpaces_token (front ++ spaces) key _).1, keyWhole.1, List.append_nil]
  have valueStart : skipSpaces (front ++ spaces ++ key ++ 0 :: (value ++ 0 :: post))
          ((front ++ spaces ++ key).length + 1) =
        .ok (front ++ spaces ++ key ++ [0] ++ value.takeWhile isSpace).length := by
    have regrouped : front ++ spaces ++ key ++ 0 :: (value ++ 0 :: post) =
          front ++ spaces ++ key ++ [0] ++ value ++ 0 :: post := by
      simp
    have place : (front ++ spaces ++ key).length + 1 = (front ++ spaces ++ key ++ [0]).length := by
      simp only [List.length_append, List.length_singleton]
    rw [regrouped, place]
    exact (skipSpaces_token (front ++ spaces ++ key ++ [0]) value post).1
  unfold setEntry
  rw [keyStart, ok_bind, valueStart, ok_bind, turn_setting]
  obtain ⟨rfl, rfl, left⟩ | ⟨inside, changedKey, keyLength, trimsKey, readKey⟩ :=
    trimEnd_token guarded spacesBlank starts keyNoNul fits
  · rw [left, if_pos ⟨rfl, (trimmed_eq_nil_iff []).mpr rfl⟩]
    rfl
  · have notFirst : ¬ (front.isEmpty = true ∧ trimmed key = []) := by
      rintro ⟨first, empty⟩
      rw [trimmed_eq_nil_iff, keyWhole.2] at empty
      exact inside ⟨List.isEmpty_iff.mp first, empty⟩
    rw [trimsKey, ok_bind, if_neg notFirst]
    have valueFits : (front ++ changedKey ++ [0] ++ value.takeWhile isSpace ++
          value.dropWhile isSpace ++ 0 :: post).length < addresses := by
      refine lt_of_eq_of_lt ?_ fits
      rw [List.append_assoc _ (value.takeWhile _), List.takeWhile_append_dropWhile]
      simp only [List.length_append, List.length_cons, List.length_nil] at keyLength ⊢
      omega
    obtain ⟨first, _⟩ | ⟨_, changedValue, valueLength, trimsValue, readValue⟩ :=
      trimEnd_token (.inr ⟨front ++ changedKey, rfl⟩)
        (fun x member => List.mem_takeWhile_imp member) (starts_dropWhile value)
        (fun isNul => valueNoNul ((List.dropWhile_suffix _).subset isNul)) valueFits
    · simp at first
    · have place : (front ++ spaces ++ key ++ [0] ++ value.takeWhile isSpace).length =
            (front ++ changedKey ++ [0] ++ value.takeWhile isSpace).length := by
        simp only [List.length_append] at keyLength ⊢
        omega
      have regrouped : front ++ changedKey ++ 0 :: (value ++ 0 :: post) =
            front ++ changedKey ++ [0] ++ value.takeWhile isSpace ++
              value.dropWhile isSpace ++ 0 :: post := by
        rw [List.append_assoc _ (value.takeWhile _), List.takeWhile_append_dropWhile]
        simp
      have keyRead : stringAt (front ++ changedKey ++ [0] ++ changedValue ++ 0 :: post)
            (front ++ spaces).length = .ok (trimmed key) := by
        rw [trimmed, keyWhole.2, ← readKey (changedValue ++ 0 :: post)]
        simp
      have valueRead : stringAt (front ++ changedKey ++ [0] ++ changedValue ++ 0 :: post)
            (front ++ changedKey ++ [0] ++ value.takeWhile isSpace).length =
            .ok (trimmed value) :=
        readValue post
      rw [place, regrouped, trimsValue, ok_bind, keyRead, ok_bind, valueRead, ok_bind]
      have lineLength : (changedKey ++ 0 :: changedValue).length =
            (spaces ++ (key ++ 0 :: value)).length := by
        have whole := congrArg List.length
          (List.takeWhile_append_dropWhile (p := isSpace) (l := value))
        simp only [List.length_append, List.length_cons] at *
        omega
      have lineChanged : front ++ changedKey ++ [0] ++ changedValue ++ 0 :: post =
            front ++ (changedKey ++ 0 :: changedValue) ++ 0 :: post := by
        simp
      rw [lineChanged]
      by_cases nothing : trimmed key = [] ∨ trimmed value = []
      · rw [if_pos nothing, if_pos nothing]
        exact ⟨_, css, cssBlk, lineLength, rfl, rfl⟩
      · rw [if_neg nothing, if_neg nothing]
        cases cssBlk with
        | none => rfl
        | some blk => exact ⟨_, css, some _, lineLength, rfl, rfl⟩

theorem Follows.unchanged (front line post : List UInt8) (css : List StyleBlock)
    (cssBlk : Option StyleBlock) :
    Follows front line.length post (.ok (some (progressOf css cssBlk)))
      (.ok (.next (front ++ line ++ 0 :: post) css cssBlk)) :=
  ⟨line, css, cssBlk, rfl, rfl, rfl⟩

theorem Follows.widen {size : Nat} {extra : List UInt8} {said : Except Stop (Option Progress)}
    {done : Except Stop Turn} (follows : Follows front size (extra ++ 0 :: post) said done) :
    Follows front (size + 1 + extra.length) post said done := by
  unfold Follows at follows ⊢
  split
  · exact follows
  · exact follows
  case h_3 progress =>
    obtain ⟨line, css, cssBlk, length, same, reached⟩ := follows
    refine ⟨line ++ 0 :: extra, css, cssBlk, ?_, ?_, reached⟩
    · rw [List.length_append, List.length_cons, length]
      omega
    · rw [same]
      simp

theorem takeWhile_append_cons {β : Type} {p : β → Bool} {front : List β} {b : β}
    (clear : ∀ x ∈ front, p x = true) (stops : p b = false) (rest : List β) :
    (front ++ b :: rest).takeWhile p = front ∧ (front ++ b :: rest).dropWhile p = b :: rest := by
  rw [List.takeWhile_append_of_pos clear, List.dropWhile_append_of_pos clear]
  simp [stops]

theorem separates_iff {d : UInt8} : separates d = true ↔ d ∈ [58, 61] := by simp [separates]

theorem token_cases (text : List UInt8) : ((∀ x ∈ text, x ∉ [58, 61]) ∧
        text.dropWhile (!separates ·) = [] ∧ text.takeWhile (!separates ·) = text) ∨
      ∃ (token : List UInt8) (d : UInt8) (rest : List UInt8), text = token ++ d :: rest ∧
        (∀ x ∈ token, x ∉ [58, 61]) ∧ d ∈ [58, 61] ∧ text.dropWhile (!separates ·) = d :: rest ∧
        text.takeWhile (!separates ·) = token := by
  have whole := List.takeWhile_append_dropWhile (p := (!separates ·)) (l := text)
  have clear : ∀ x ∈ text.takeWhile (!separates ·), x ∉ [58, 61] := by
    intro x member
    have isClear := List.mem_takeWhile_imp member
    rw [← separates_iff]
    simpa using isClear
  cases behind : text.dropWhile (!separates ·) with
  | nil =>
    rw [behind, List.append_nil] at whole
    rw [whole] at clear
    exact .inl ⟨clear, rfl, whole⟩
  | cons d rest =>
    rw [behind] at whole
    refine .inr ⟨_, d, rest, whole.symm, clear, ?_, rfl, rfl⟩
    have stops := List.head_dropWhile_not (!separates ·)
      (show text.dropWhile (!separates ·) ≠ [] by simp [behind])
    rw [← separates_iff]
    simpa [behind] using stops

theorem readTokens_separator {key values : List UInt8} (guarded : Guarded front)
    (spacesBlank : ∀ x ∈ spaces, isSpace x = true) (starts : ∀ b ∈ key.head?, isSpace b = false)
    (keyNoNul : 0 ∉ key) (valuesNoNul : 0 ∉ values)
    (fits : (front ++ spaces ++ key ++ 0 :: (values ++ 0 :: post)).length < addresses)
    (css : List StyleBlock) (cssBlk : Option StyleBlock) :
    Follows front (spaces ++ (key ++ 0 :: values)).length post ((Line.setting (trimmed key)
        (trimmed (values.takeWhile (!separates ·)))).turn front.isEmpty (progressOf css cssBlk))
      (do
        let (buf, _) ← strsep [58, 61] (front ++ spaces ++ key ++ 0 :: (values ++ 0 :: post))
            ((front ++ spaces ++ key).length + 1)
        setEntry buf (front ++ spaces).length ((front ++ spaces ++ key).length + 1)
          css cssBlk) := by
  have place : (front ++ spaces ++ key).length + 1 = (front ++ spaces ++ key ++ [0]).length := by
    simp only [List.length_append, List.length_singleton]
  obtain ⟨clear, _, taken⟩ | ⟨value, d, extra, rfl, clear, separator, _, taken⟩ :=
    token_cases values
  · have regrouped : front ++ spaces ++ key ++ 0 :: (values ++ 0 :: post) =
          front ++ spaces ++ key ++ [0] ++ values ++ 0 :: post := by
      simp
    have last := strsep_none valuesNoNul clear (front ++ spaces ++ key ++ [0]) post
    rw [← regrouped, ← place] at last
    rw [last, ok_bind, taken]
    exact setEntry_follows guarded spacesBlank starts keyNoNul valuesNoNul fits css cssBlk
  · have regrouped : front ++ spaces ++ key ++ 0 :: (value ++ d :: extra ++ 0 :: post) =
          front ++ spaces ++ key ++ [0] ++ value ++ d :: (extra ++ 0 :: post) := by
      simp
    have cut : front ++ spaces ++ key ++ [0] ++ value ++ 0 :: (extra ++ 0 :: post) =
          front ++ spaces ++ key ++ 0 :: (value ++ 0 :: (extra ++ 0 :: post)) := by
      simp
    have nonzero : d ≠ 0 := by
      rintro rfl
      revert separator
      decide
    have valueNoNul : 0 ∉ value := fun isNul => valuesNoNul (List.mem_append_left _ isNul)
    have shorter : (front ++ spaces ++ key ++ 0 :: (value ++ 0 :: (extra ++ 0 :: post))).length <
          addresses := by
      refine lt_of_eq_of_lt ?_ fits
      simp
    have first := strsep_some nonzero separator valueNoNul clear
      (front ++ spaces ++ key ++ [0]) (extra ++ 0 :: post)
    rw [← regrouped, ← place, cut] at first
    rw [first, ok_bind, taken]
    have follows := setEntry_follows guarded spacesBlank starts keyNoNul valueNoNul
      shorter css cssBlk
    have size : (spaces ++ (key ++ 0 :: (value ++ d :: extra))).length =
          (spaces ++ (key ++ 0 :: value)).length + 1 + extra.length := by
      simp only [List.length_append, List.length_cons]
      omega
    rw [size]
    exact follows.widen

theorem readTokens_follows {c : List UInt8} (guarded : Guarded front)
    (spacesBlank : ∀ x ∈ spaces, isSpace x = true) (starts : ∀ b ∈ c.head?, isSpace b = false)
    (noNul : 0 ∉ c) (fits : (front ++ spaces ++ c ++ 0 :: post).length < addresses)
    (css : List StyleBlock) (cssBlk : Option StyleBlock) :
    Follows front (spaces ++ c).length post
      ((settingOf c).turn front.isEmpty (progressOf css cssBlk))
      (readTokens (front ++ spaces ++ c ++ 0 :: post) (front ++ spaces).length css cssBlk) := by
  unfold readTokens settingOf
  obtain ⟨clear, behind, _⟩ |
      ⟨key, d, values, rfl, clear, separator, behind, taken⟩ := token_cases c
  · rw [strsep_none noNul clear, ok_bind, behind]
    have unchanged := Follows.unchanged front (spaces ++ c) post css cssBlk
    rw [← List.append_assoc front spaces] at unchanged
    exact unchanged
  · rw [behind, taken]
    dsimp only
    have keyStarts : ∀ b ∈ key.head?, isSpace b = false := by
      intro b first
      refine starts b ?_
      rw [List.head?_append]
      simp [Option.mem_def.mp first]
    obtain ⟨keyNoNul, tailNoNul⟩ := not_or.mp (List.mem_append.not.mp noNul)
    have valuesNoNul : 0 ∉ values := fun isNul => tailNoNul (List.mem_cons_of_mem d isNul)
    have nonzero : d ≠ 0 := by
      rintro rfl
      exact tailNoNul List.mem_cons_self
    have regrouped : front ++ spaces ++ (key ++ d :: values) ++ 0 :: post =
          front ++ spaces ++ key ++ d :: (values ++ 0 :: post) := by
      simp
    have shorter : (front ++ spaces ++ key ++ 0 :: (values ++ 0 :: post)).length < addresses := by
      refine lt_of_eq_of_lt ?_ fits
      simp
    have size : (spaces ++ (key ++ d :: values)).length =
          (spaces ++ (key ++ 0 :: values)).length := by
      simp
    rw [regrouped, strsep_some nonzero separator keyNoNul clear, ok_bind, size,
      ← List.length_append]
    exact readTokens_separator guarded spacesBlank keyStarts keyNoNul valuesNoNul shorter css cssBlk

theorem byteAt_eq (front text post : List UInt8) :
    byteAt (front ++ text ++ 0 :: post) front.length = .ok (text.head?.getD 0) := by
  have first : (front ++ text ++ 0 :: post)[front.length]? = some (text.head?.getD 0) := by
    rw [List.append_assoc]
    cases text with
    | nil => exact getElem?_behind front post 0
    | cons b rest => exact getElem?_behind front (rest ++ 0 :: post) b
  rw [byteAt, first]
  rfl

theorem readLine_braces {c : List UInt8} (guarded : Guarded front)
    (spacesBlank : ∀ x ∈ spaces, isSpace x = true) (starts : ∀ b ∈ c.head?, isSpace b = false)
    (noNul : 0 ∉ c) (fits : (front ++ spaces ++ c ++ 0 :: post).length < addresses)
    (css : List StyleBlock) (cssBlk : Option StyleBlock) :
    Follows front (spaces ++ c).length post ((if 123 ∈ c then
          Line.opens (c.takeWhile (· ≠ 123))
        else if 125 ∈ c then .closes
        else settingOf c).turn front.isEmpty (progressOf css cssBlk))
      (do
        match ← strchr (front ++ spaces ++ c ++ 0 :: post) (front ++ spaces).length 123 with
        | some t =>
          openBlock (front ++ spaces ++ c ++ 0 :: post) (front ++ spaces).length t css cssBlk
        | none =>
          match ← strchr (front ++ spaces ++ c ++ 0 :: post) (front ++ spaces).length 125 with
          | some _ => return closeBlock (front ++ spaces ++ c ++ 0 :: post) css cssBlk
          | none =>
            readTokens (front ++ spaces ++ c ++ 0 :: post)
              (front ++ spaces).length css cssBlk) := by
  by_cases opening : 123 ∈ c
  · obtain ⟨name, after, rfl, absent⟩ := List.eq_append_cons_of_mem opening
    have nameNoNul : 0 ∉ name := fun isNul => noNul (List.mem_append_left _ isNul)
    have taken : (name ++ 123 :: after).takeWhile (· ≠ 123) = name := by
      refine (takeWhile_append_cons (fun x member => ?_) (by simp) after).1
      exact decide_eq_true fun same => absent (same ▸ member)
    have nameStarts : ∀ b ∈ name.head?, isSpace b = false := by
      intro b first
      refine starts b ?_
      rw [List.head?_append]
      simp [Option.mem_def.mp first]
    rw [if_pos opening, taken,
      strchr_eq name after (front ++ spaces) post nameNoNul absent, ok_bind]
    have follows := openBlock_follows guarded spacesBlank nameStarts after post css cssBlk
    rw [← List.append_assoc front spaces] at follows
    exact follows
  · rw [if_neg opening, strchr_none (by decide) noNul opening, ok_bind]
    by_cases closing : 125 ∈ c
    · obtain ⟨name, after, rfl, absent⟩ := List.eq_append_cons_of_mem closing
      have nameNoNul : 0 ∉ name := fun isNul => noNul (List.mem_append_left _ isNul)
      dsimp only
      rw [if_pos closing, strchr_eq name after (front ++ spaces) post nameNoNul absent, ok_bind]
      cases cssBlk with
      | none => rfl
      | some blk =>
        refine ⟨spaces ++ (name ++ 125 :: after), css ++ [blk], none, rfl, ?_, ?_⟩
        · rw [← List.append_assoc front spaces]
          rfl
        · simp [progressOf]
    · dsimp only
      rw [if_neg closing, strchr_none (by decide) noNul closing, ok_bind]
      exact readTokens_follows guarded spacesBlank starts noNul fits css cssBlk

theorem readLine_follows {line : List UInt8} (guarded : Guarded front) (noNul : 0 ∉ line)
    (fits : (front ++ line ++ 0 :: post).length < addresses) (css : List StyleBlock)
    (cssBlk : Option StyleBlock) :
    Follows front line.length post ((lineOf line).turn front.isEmpty (progressOf css cssBlk))
      (readLine (front ++ line ++ 0 :: post) front.length css cssBlk) := by
  obtain ⟨passed, regrouped⟩ := skipSpaces_token front line post
  have starts := starts_dropWhile line
  have whole := List.takeWhile_append_dropWhile (p := isSpace) (l := line)
  have spacesBlank : ∀ x ∈ line.takeWhile isSpace, isSpace x = true :=
    fun x member => List.mem_takeWhile_imp member
  have cNoNul : 0 ∉ line.dropWhile isSpace :=
    fun isNul => noNul ((List.dropWhile_suffix _).subset isNul)
  have first := byteAt_eq (front ++ line.takeWhile isSpace) (line.dropWhile isSpace) post
  have unchanged := Follows.unchanged front line post css cssBlk
  have size : line.length = (line.takeWhile isSpace ++ line.dropWhile isSpace).length := by
    rw [whole]
  unfold readLine lineOf
  rw [passed, ok_bind]
  rw [regrouped] at fits unchanged ⊢
  rw [first, ok_bind]
  by_cases nothing : line.dropWhile isSpace = [] ∨ (line.dropWhile isSpace).head? = some 35
  · have stops : (line.dropWhile isSpace).head?.getD 0 = 0 ∨
        (line.dropWhile isSpace).head?.getD 0 = 35 := by
      obtain empty | comment := nothing
      · exact .inl (by rw [empty]; rfl)
      · exact .inr (by rw [comment]; rfl)
    rw [if_pos stops]
    dsimp only
    rw [if_pos nothing]
    exact unchanged
  · have goesOn : ¬ ((line.dropWhile isSpace).head?.getD 0 = 0 ∨
        (line.dropWhile isSpace).head?.getD 0 = 35) := by
      cases left : line.dropWhile isSpace with
      | nil => exact absurd (.inl left) nothing
      | cons b rest =>
        rintro (isNul | isHash)
        · rw [left] at cNoNul
          exact cNoNul (isNul ▸ List.mem_cons_self)
        · exact nothing (.inr (by rw [left]; exact congrArg some isHash))
    rw [if_neg goesOn]
    dsimp only
    rw [if_neg nothing, size]
    exact readLine_braces guarded spacesBlank starts cNoNul fits css cssBlk

end Turns

end Agar.Gui.StyleSheet
