import Agar.Web.FormBounds

namespace Agar.Web

open Agar.Lib
open Agar.Core

/-!
# Decoding a form

Exactly the parts that are readable are given back by `WEB_ReadFormData`.
-/

/-! ## Quoted names -/

@[simp] theorem quoted_cons (c : UInt8) (text : List UInt8) : quoted (c :: text) =
      (if c = 34 ∨ c = 92 then [92, c] else [c]) ++ quoted text :=
  rfl

theorem notMem_quoted {c : UInt8} {text : List UInt8} (other : c ≠ 92) (absent : c ∉ text) :
    c ∉ quoted text := by
  intro member
  obtain ⟨letter, inside, quotes⟩ := List.mem_flatMap.mp member
  have differs : c ≠ letter := fun same => absent (same ▸ inside)
  split at quotes <;> simp_all

/-! ## The name -/

theorem formNameToken_eq_some {token key : List UInt8} (named : formNameToken token = some key) :
    ∃ rest, token.dropWhile isSpace = ascii "name=\"" ++ key ++ 34 :: rest ∧ 34 ∉ key := by
  unfold formNameToken at named
  dsimp only at named
  split at named
  case isTrue starts =>
    obtain ⟨⟨front, rest⟩, found, rfl⟩ := Option.map_eq_some_iff.mp named
    obtain ⟨tail, shape⟩ := List.isPrefixOf_iff_prefix.mp starts
    have behind : (token.dropWhile isSpace).drop 6 = tail := by
      rw [← shape]
      rfl
    rw [behind] at found
    obtain ⟨rfl, absent⟩ := splitAtByte_eq_some found
    exact ⟨rest, by rw [← shape, List.append_assoc], absent⟩
  case isFalse => cases named

/-- The first line of a part, up to its line feed -/
def dispositionLine (name : List UInt8) : List UInt8 :=
  ascii "Content-Disposition: form-data; name=\"" ++ quoted name ++ [34, 13]

theorem formName_dispositionLine (name : List UInt8) : formName (dispositionLine name) =
      (strsep (ascii ";") (ascii " name=\"" ++ quoted name ++ [34, 13])).findSome?
        formNameToken := by
  have split : dispositionLine name = ascii "Content-Disposition: form-data" ++
          59 :: (ascii " name=\"" ++ quoted name ++ [34, 13]) :=
    rfl
  have starts : startsNoCase (dispositionLine name) (ascii "Content-Disposition:") = true := rfl
  rw [formName, if_pos starts, split, strsep, List.splitOnP_append_cons _ _ rfl,
    List.splitOnP_eq_singleton (by simp [ascii]), List.singleton_append,
    List.findSome?_cons]
  rfl

theorem formName_quoted {name : List UInt8} (nul : 0 ∉ name) (plain : 34 ∉ name ∧ 59 ∉ name) :
    formName (dispositionLine name) = some (quoted name) := by
  have noNul : 0 ∉ quoted name := notMem_quoted (by decide) nul
  have noQuote : 34 ∉ quoted name := notMem_quoted (by decide) plain.1
  have noSemicolon : 59 ∉ quoted name := notMem_quoted (by decide) plain.2
  have single : strsep (ascii ";") (ascii " name=\"" ++ quoted name ++ [34, 13]) =
        [ascii " name=\"" ++ quoted name ++ [34, 13]] := by
    refine List.splitOnP_eq_singleton fun c member => ?_
    have other : c ≠ 59 := by
      rintro rfl
      rcases List.mem_append.mp member with inFront | inEnd
      · rcases List.mem_append.mp inFront with inKey | inName
        · revert inKey
          decide
        · exact noSemicolon inName
      · revert inEnd
        decide
    simpa [ascii] using other
  have read : formNameToken (ascii " name=\"" ++ quoted name ++ [34, 13]) = some (quoted name) := by
    have starts : (ascii " name=\"" ++ quoted name ++ [34, 13]).dropWhile isSpace =
          ascii "name=\"" ++ (quoted name ++ 34 :: [13]) :=
      rfl
    have prefixed : (ascii "name=\"").isPrefixOf
            (ascii "name=\"" ++ (quoted name ++ 34 :: [13])) = true :=
      List.isPrefixOf_iff_prefix.mpr (List.prefix_append _ _)
    have behind : (ascii "name=\"" ++ (quoted name ++ 34 :: [13])).drop 6 =
          quoted name ++ 34 :: [13] :=
      rfl
    unfold formNameToken
    dsimp only
    rw [starts, if_pos prefixed, behind, splitAtByte_append noQuote noNul]
    rfl
  rw [formName_dispositionLine, single, List.findSome?_cons, read]

theorem plain_of_formName {name key : List UInt8}
    (read : formName (dispositionLine name) = some key) : 34 ∉ key ∧ 59 ∉ key := by
  rw [formName_dispositionLine] at read
  obtain ⟨token, listed, named⟩ := List.exists_of_findSome?_eq_some read
  obtain ⟨rest, shape, noQuote⟩ := formNameToken_eq_some named
  refine ⟨noQuote, fun member => ?_⟩
  have inside : 59 ∈ token := by
    apply (List.dropWhile_suffix isSpace).subset
    rw [shape]
    exact List.mem_append_left _ (List.mem_append_right _ member)
  have separates := notMem_splitOnP listed 59 inside
  revert separates
  decide

/-! ## The type -/

theorem formType_present {type : List UInt8} (onLine : OnLine type) (rest : List UInt8) :
    formType (ascii "Content-Type: " ++ type ++ crlf ++ rest) = .present type rest := by
  obtain ⟨noNul, noReturn, noFeed⟩ := onLine
  have starts : startsNoCase (ascii "Content-Type: " ++ type ++ crlf ++ rest)
          (ascii "Content-Type:") = true ∧
        (ascii "Content-Type: " ++ type ++ crlf ++ rest).head? = some 67 :=
    ⟨rfl, rfl⟩
  have behind : (ascii "Content-Type: " ++ type ++ crlf ++ rest).drop 13 =
        (32 :: type) ++ 13 :: 10 :: rest := by
    rw [List.append_assoc, List.append_assoc]
    rfl
  have text : splitAtByte 13 ((32 :: type) ++ 13 :: 10 :: rest) = some (32 :: type, 10 :: rest) :=
    splitAtByte_append (by simpa using noReturn) (by simpa using noNul) _
  have shape : ascii "Content-Type: " ++ type ++ crlf ++ rest =
        (ascii "Content-Type: " ++ type ++ [13]) ++ 10 :: rest := by
    simp [crlf, carriageReturn, lineFeed]
  have line : splitAtByte 10 ((ascii "Content-Type: " ++ type ++ [13]) ++ 10 :: rest) =
        some (ascii "Content-Type: " ++ type ++ [13], rest) := by
    refine splitAtByte_append ?_ ?_ _
    · simpa [ascii] using noFeed
    · simpa [ascii] using noNul
  unfold formType
  rw [if_pos starts, behind, text]
  dsimp only
  rw [shape, line]
  dsimp only
  congr 1
  -- the line is a head of thirteen characters, the text, and the line end
  have front : (ascii "Content-Type: " ++ type ++ [13] ++ 10 :: rest).take 13 =
        ascii "Content-Type:" :=
    rfl
  have written : ascii "Content-Type:" ++ 32 :: type ++ 0 :: 10 :: rest =
        (ascii "Content-Type:" ++ 32 :: type ++ [0, 10]) ++ rest := by
    simp
  rw [front, written]
  refine List.drop_left' ?_
  simp only [List.length_append, List.length_cons, List.length_nil]
  change 13 + (type.length + 1) + 2 = 14 + type.length + 1 + 1
  omega

/-! ## The value -/

section Value

variable {fresh : UInt8} {delimiter behind value key contentType : List UInt8} {arg : WebArgument}
  {cEnd : List UInt8}

/-- The delimiter is not on a line end. -/
structure IsDelimiter (delimiter : List UInt8) : Prop where
  dashes : ∃ rest, delimiter = 45 :: rest
  noReturn : 13 ∉ delimiter
  noFeed : 10 ∉ delimiter

theorem IsDelimiter.ne_nil (is : IsDelimiter delimiter) : delimiter ≠ [] := by
  obtain ⟨rest, rfl⟩ := is.dashes
  exact List.cons_ne_nil _ _

theorem formPart_whole (is : IsDelimiter delimiter) (there : delimiter <+: behind)
    (apart : ¬ delimiter <:+: value) :
    formPart fresh delimiter key contentType (value ++ crlf ++ behind) =
      if value.length + 3 > argLengthMax then .fails
      else
        .part
          { type := postArgument
            key := .strlcpy key
            value := value ++ [0, 10, fresh]
            len := value.length + 1
            contentType := .strlcpy contentType }
          behind := by
  have absent : ∀ c ∈ [13, 10], c ∉ delimiter := by simp [is.noReturn, is.noFeed]
  have found : splitAtInfix delimiter (value ++ crlf ++ behind) =
        some (value ++ [13, 10], behind) := by
    rw [List.append_assoc]
    exact splitAtInfix_separated absent is.ne_nil apart there
  have memory : formValueMemory fresh (value ++ [13, 10]) =
        (value ++ [0, 10, fresh], value.length + 1) := by
    simp [formValueMemory]
  rw [formPart, found]
  dsimp only
  rw [memory, List.length_append]
  rfl

theorem formPart_empty (there : delimiter <+: behind) :
    formPart fresh delimiter key contentType behind = .part
        { type := postArgument
          key := .strlcpy key
          value := [0]
          len := 1
          contentType := .strlcpy contentType }
        behind := by
  rw [formPart, splitAtInfix_prefixOf there]
  rfl

theorem formPart_texts {cStart : List UInt8}
    (parted : formPart fresh delimiter key contentType cStart = .part arg cEnd) :
    arg.key = .strlcpy key ∧ arg.contentType = .strlcpy contentType ∧ arg.type = postArgument := by
  unfold formPart at parted
  split at parted
  · cases parted
  · split at parted
    · cases parted
    · cases parted
      exact ⟨rfl, rfl, rfl⟩

theorem formPart_cut {cStart before after : List UInt8}
    (shape : cStart = before ++ (delimiter ++ after))
    (parted : formPart fresh delimiter key contentType cStart = .part arg cEnd) :
    arg.len ≤ before.length + 1 := by
  obtain ⟨front, back, found, early⟩ :=
    splitAtInfix_append before (List.prefix_append delimiter after)
  have shorter : (formValueMemory fresh front).2 ≤ front.length + 1 := by
    unfold formValueMemory
    split
    · dsimp only
      omega
    · exact Nat.le_refl _
  rw [shape, formPart, found] at parted
  dsimp only at parted
  split at parted
  · cases parted
  · cases parted
    dsimp only
    omega

theorem formPart_apart (is : IsDelimiter delimiter)
    (parted : formPart fresh delimiter key contentType (value ++ crlf ++ behind) = .part arg cEnd)
    (length : arg.len = value.length + 1) : ¬ delimiter <:+: value := by
  rintro ⟨before, after, rfl⟩
  have cut :=
    @formPart_cut fresh delimiter key contentType arg cEnd _ before
      (after ++ crlf ++ behind) (by simp) parted
  have positive : 0 < delimiter.length := List.length_pos_iff.mpr is.ne_nil
  rw [length, List.length_append, List.length_append] at cut
  omega

end Value

/-! ## One part -/

namespace FormBoundary

variable (boundary : FormBoundary)

theorem isDelimiter : IsDelimiter boundary.delimiter where
  dashes := ⟨45 :: boundary.bytes, rfl⟩
  noReturn := by simpa [delimiter, ascii] using boundary.onLine.2.1
  noFeed := by simpa [delimiter, ascii] using boundary.onLine.2.2

theorem formDelimiter_query (q : WebQuery) (contentLength : Nat) :
    formDelimiter (boundary.query q contentLength).contentType.bytes = some boundary.delimiter := by
  have whole : (boundary.query q contentLength).contentType.bytes =
        ascii "multipart/form-data; " ++ (ascii "boundary=" ++ boundary.bytes) := by
    have noNul : 0 ∉ ascii "multipart/form-data; boundary=" ++ boundary.bytes := by
      simpa [ascii] using boundary.onLine.1
    refine (bytes_strlcpy_eq_iff noNul).mpr ?_
    have short := boundary.short
    rw [List.length_append]
    change 30 + boundary.bytes.length < 128
    omega
  have found : splitAtInfix (ascii "boundary=")
          (ascii "multipart/form-data; " ++ (ascii "boundary=" ++ boundary.bytes)) =
        some (ascii "multipart/form-data; ", ascii "boundary=" ++ boundary.bytes) := by
    simp [splitAtInfix, ascii, List.isPrefixOf]
  have behind : (ascii "boundary=" ++ boundary.bytes).drop 9 = boundary.bytes := rfl
  rw [whole, formDelimiter, found]
  dsimp only
  rw [behind, if_neg]
  · rfl
  · have short := boundary.short
    rw [formBoundarySize, not_or]
    exact ⟨boundary.nonempty, by omega⟩

end FormBoundary

section Part

variable {boundary : FormBoundary} {fresh : UInt8}

/-- The header line of the type of a part, if it has one -/
def FormPart.typeLine (part : FormPart boundary) : List UInt8 :=
  match part.type with
  | none => []
  | some type => ascii "Content-Type: " ++ type ++ crlf

/-- What is behind the first header line of a part -/
def FormPart.behindLine (part : FormPart boundary) (behind : List UInt8) : List UInt8 :=
  part.typeLine ++ crlf ++ part.value ++ crlf ++ behind

variable (part : FormPart boundary)

theorem formTurn_line (behind : List UInt8) :
    formTurn fresh boundary.delimiter (part.encoded ++ behind) =
      match formName (dispositionLine part.name) with
      | none => .ok .ends
      | some key =>
        match formType (part.behindLine behind) with
        | .absent =>
          .ok (formPart fresh boundary.delimiter key []
            ((part.behindLine behind).dropWhile isSpace))
        | .incomplete => .ok .fails
        | .present contentType rest => do
            let cStart ← advance 2 rest
            return formPart fresh boundary.delimiter key contentType cStart := by
  have shape : part.encoded ++ behind = (boundary.delimiter ++ crlf) ++
          (dispositionLine part.name ++ 10 :: part.behindLine behind) := by
    rw [FormPart.encoded, FormPart.headers, FormPart.behindLine, dispositionLine]
    simp only [List.append_assoc]
    rfl
  have width : boundary.delimiter.length + 2 = (boundary.delimiter ++ crlf).length := by
    rw [List.length_append]
    rfl
  have advanced : advance (boundary.delimiter.length + 2) (part.encoded ++ behind) =
        .ok (dispositionLine part.name ++ 10 :: part.behindLine behind) := by
    rw [advance, shape, width, if_pos (List.prefix_append _ _).length_le, List.drop_left]
  have onLine : 10 ∉ dispositionLine part.name ∧ 0 ∉ dispositionLine part.name := by
    have noFeed := notMem_quoted (by decide) part.nameOnLine.2.2
    have noNul := notMem_quoted (by decide) part.nameOnLine.1
    constructor
    · simpa [dispositionLine, ascii] using noFeed
    · simpa [dispositionLine, ascii] using noNul
  rw [formTurn, advanced, ok_bind, splitAtByte_append onLine.1 onLine.2]
  dsimp only
  cases formName (dispositionLine part.name) with
  | none => rfl
  | some key =>
    dsimp only
    cases formType (part.behindLine behind) <;> rfl

variable {key behind : List UInt8}

theorem formTurn_untyped (untyped : part.type = none)
    (named : formName (dispositionLine part.name) = some key) :
    formTurn fresh boundary.delimiter (part.encoded ++ behind) =
      .ok (formPart fresh boundary.delimiter key []
        ((part.value ++ crlf ++ behind).dropWhile isSpace)) := by
  have shape : part.behindLine behind = 13 :: 10 :: (part.value ++ crlf ++ behind) := by
    rw [FormPart.behindLine, FormPart.typeLine, untyped, List.nil_append,
      List.append_assoc, List.append_assoc, List.append_assoc]
    rfl
  have absent : formType (13 :: 10 :: (part.value ++ crlf ++ behind)) = .absent :=
    if_neg fun both => by cases both.2
  rw [formTurn_line, named, shape]
  dsimp only
  rw [absent]
  rfl

theorem formTurn_typed {type : List UInt8} (typed : part.type = some type)
    (named : formName (dispositionLine part.name) = some key) :
    formTurn fresh boundary.delimiter (part.encoded ++ behind) =
      .ok (formPart fresh boundary.delimiter key type (part.value ++ crlf ++ behind)) := by
  have shape : part.behindLine behind = ascii "Content-Type: " ++ type ++ crlf ++
          (13 :: 10 :: (part.value ++ crlf ++ behind)) := by
    rw [FormPart.behindLine, FormPart.typeLine, typed]
    simp only [List.append_assoc]
    rfl
  rw [formTurn_line, named, shape]
  dsimp only
  rw [formType_present (part.typeOnLine type (by rw [typed]; rfl))]
  rfl

variable {value : List UInt8}

theorem dropWhile_value (there : boundary.delimiter <+: behind) :
    (value ++ crlf ++ behind).dropWhile isSpace = if value.dropWhile isSpace = [] then
        behind
      else
        value.dropWhile isSpace ++ crlf ++ behind := by
  have dash : behind.dropWhile isSpace = behind := by
    obtain ⟨rest, rfl⟩ := there
    rfl
  have line : (crlf ++ behind).dropWhile isSpace = behind := dash
  rw [List.append_assoc, List.dropWhile_append, line]
  by_cases blank : value.dropWhile isSpace = []
  · rw [if_pos blank, blank]
    rfl
  · rw [if_neg blank, if_neg (by simpa using blank), List.append_assoc]

theorem bytes_strlcpy_quoted : (CString.strlcpy (quoted part.name) : CString argKeyMax).bytes =
      (quoted part.name).take (argKeyMax - 1) := by
  have noNul : 0 ∉ quoted part.name := notMem_quoted (by decide) part.nameOnLine.1
  change (cString (quoted part.name)).take (argKeyMax - 1) = _
  rw [cString_of_noNul noNul]

theorem formTurn_readable {part : FormPart boundary} (readable : part.Readable)
    {behind : List UInt8} (there : boundary.delimiter <+: behind) :
    ∃ arg, formTurn fresh boundary.delimiter (part.encoded ++ behind) = .ok (.part arg behind) ∧
        arg.field = part.field := by
  have named := formName_quoted part.nameOnLine.1 readable.name
  have keyHeld : (CString.strlcpy (quoted part.name) : CString argKeyMax).bytes = part.name :=
    (bytes_strlcpy_quoted part).trans readable.nameCopied
  have fits : ¬ part.value.length + 3 > argLengthMax := Nat.not_lt.mpr readable.valueFits
  have valueHeld : (part.value ++ [0, 10, fresh]).take (part.value.length + 1) =
        part.value ++ [0] := by
    rw [List.take_length_add_append]
    rfl
  cases typed : part.type with
  | none =>
    have start : part.value.dropWhile isSpace = part.value := by
      have first := readable.valueStart typed
      cases value : part.value with
      | nil => rfl
      | cons c rest =>
        rw [value] at first
        rw [List.dropWhile_cons, first c rfl]
        rfl
    rw [formTurn_untyped part typed named, dropWhile_value there, start]
    by_cases empty : part.value = []
    · rw [if_pos empty, formPart_empty there]
      refine ⟨_, rfl, ?_⟩
      rw [WebArgument.field, FormPart.field, keyHeld, empty, typed]
      rfl
    · rw [if_neg empty, formPart_whole boundary.isDelimiter there readable.value, if_neg fits]
      refine ⟨_, rfl, ?_⟩
      rw [WebArgument.field, FormPart.field]
      dsimp only
      rw [keyHeld, valueHeld, typed]
      rfl
  | some type =>
    have typeHeld : (CString.strlcpy type : CString 32).bytes = type :=
      (bytes_strlcpy_eq_iff (part.typeOnLine type typed).1).mpr (readable.typeFits type typed)
    rw [formTurn_typed part typed named,
      formPart_whole boundary.isDelimiter there readable.value, if_neg fits]
    refine ⟨_, rfl, ?_⟩
    rw [WebArgument.field, FormPart.field]
    dsimp only
    rw [keyHeld, valueHeld, typeHeld, typed]
    rfl

variable {cEnd : List UInt8} {arg : WebArgument}

theorem formPart_len_le {contentType : List UInt8} (there : boundary.delimiter <+: behind)
    (parted : formPart fresh boundary.delimiter key contentType (value ++ crlf ++ behind) =
        .part arg cEnd) : arg.len ≤ value.length + 1 := by
  by_cases inside : boundary.delimiter <:+: value
  · obtain ⟨before, after, rfl⟩ := inside
    have cut :=
      @formPart_cut fresh boundary.delimiter key contentType arg cEnd _ before
        (after ++ crlf ++ behind) (by simp) parted
    rw [List.length_append, List.length_append]
    omega
  · rw [formPart_whole boundary.isDelimiter there inside] at parted
    split at parted
    · cases parted
    · cases parted
      exact Nat.le_refl _

theorem readable_of_formPart {contentType : List UInt8} (there : boundary.delimiter <+: behind)
    (parted : formPart fresh boundary.delimiter key contentType (value ++ crlf ++ behind) =
        .part arg cEnd) (length : arg.len = value.length + 1) :
    ¬ boundary.delimiter <:+: value ∧ value.length + 3 ≤ argLengthMax := by
  have apart := formPart_apart boundary.isDelimiter parted length
  refine ⟨apart, Nat.le_of_not_lt fun long => ?_⟩
  rw [formPart_whole boundary.isDelimiter there apart, if_pos long] at parted
  cases parted

theorem readable_of_formTurn {part : FormPart boundary} (there : boundary.delimiter <+: behind)
    (turned : formTurn fresh boundary.delimiter (part.encoded ++ behind) = .ok (.part arg cEnd))
    (held : arg.field = part.field) : part.Readable := by
  have keyHeld : arg.key.bytes = part.name := congrArg FormField.key held
  have length : arg.len = part.value.length + 1 := congrArg FormField.len held
  have typeHeld : arg.contentType.bytes = part.type.getD [] := congrArg FormField.contentType held
  cases named : formName (dispositionLine part.name) with
  | none =>
    rw [formTurn_line, named] at turned
    cases turned
  | some key =>
    have names (keyed : arg.key = .strlcpy key) : (34 ∉ part.name ∧ 59 ∉ part.name) ∧
          (quoted part.name).take (argKeyMax - 1) = part.name := by
      obtain ⟨noQuote, noSemicolon⟩ := plain_of_formName named
      have inKey (c : UInt8) (member : c ∈ part.name) : c ∈ key := by
        rw [← keyHeld, keyed] at member
        exact (List.takeWhile_prefix _).subset (List.mem_of_mem_take member)
      have plain : 34 ∉ part.name ∧ 59 ∉ part.name :=
        ⟨fun member => noQuote (inKey _ member), fun member => noSemicolon (inKey _ member)⟩
      rw [formName_quoted part.nameOnLine.1 plain] at named
      cases named
      exact ⟨plain, by rw [← bytes_strlcpy_quoted, ← keyed, keyHeld]⟩
    cases typed : part.type with
    | none =>
      rw [formTurn_untyped part typed named, dropWhile_value there] at turned
      have parted := Except.ok.inj turned
      obtain ⟨keyed, _⟩ := formPart_texts parted
      have named := names keyed
      split at parted
      case isTrue blank =>
        rw [formPart_empty there] at parted
        cases parted
        have empty : part.value = [] := by
          rw [← List.length_eq_zero_iff]
          exact (Nat.succ.inj length).symm
        refine
          { name := named.1
            nameCopied := named.2
            typeFits := by rw [typed]; nofun
            value := ?_
            valueStart := by rw [empty]; nofun
            valueFits := by rw [empty]; decide }
        rw [empty]
        exact fun inside => boundary.isDelimiter.ne_nil (List.eq_nil_of_infix_nil inside)
      case isFalse visible =>
        have short := formPart_len_le there parted
        have whole : part.value.dropWhile isSpace = part.value :=
          (List.dropWhile_suffix isSpace).eq_of_length_le (by omega)
        rw [whole] at parted
        obtain ⟨apart, fits⟩ := readable_of_formPart there parted length
        refine
          { name := named.1
            nameCopied := named.2
            typeFits := by rw [typed]; nofun
            value := apart
            valueStart := fun _ c first => ?_
            valueFits := fits }
        cases value : part.value with
        | nil =>
          rw [value] at first
          cases first
        | cons other rest =>
          rw [value] at first whole
          cases first
          by_contra blank
          rw [List.dropWhile_cons, if_pos ((Bool.not_eq_false _).mp blank)] at whole
          have width := congrArg List.length whole
          have shorter := (List.dropWhile_suffix (l := rest) isSpace).length_le
          rw [List.length_cons] at width
          omega
    | some type =>
      rw [formTurn_typed part typed named] at turned
      have parted := Except.ok.inj turned
      obtain ⟨keyed, contentTyped, _⟩ := formPart_texts parted
      have named := names keyed
      obtain ⟨apart, fits⟩ := readable_of_formPart there parted length
      refine
        { name := named.1
          nameCopied := named.2
          typeFits := ?_
          value := apart
          valueStart := by rw [typed]; nofun
          valueFits := fits }
      rw [typed] at typeHeld ⊢
      rintro _ ⟨⟩
      rw [contentTyped] at typeHeld
      exact (bytes_strlcpy_eq_iff (part.typeOnLine type typed).1).mp typeHeld

end Part

/-! ## The whole form -/

theorem formLoop_appends {fresh : UInt8} {delimiter c : List UInt8} {fuel partIndex : Nat}
    {q after : WebQuery} {rv : Int}
    (read : formLoop fresh delimiter fuel c partIndex q = .ok (rv, after)) :
    ∃ args, after = { q with args := q.args ++ args } := by
  have same : q = { q with args := q.args ++ [] } := by rw [List.append_nil]
  induction fuel generalizing c partIndex q with
  | zero =>
    cases c with
    | nil =>
      cases read
      exact ⟨[], same⟩
    | cons first rest => cases read
  | succ fuel ih =>
    cases c with
    | nil =>
      cases read
      exact ⟨[], same⟩
    | cons first rest =>
      rw [formLoop] at read
      split at read
      · cases read
        exact ⟨[], same⟩
      · split at read
        · exact ih read same
        · obtain ⟨turn, _, read⟩ := bind_eq_ok.mp read
          cases turn with
          | ends | fails =>
            cases read
            exact ⟨[], same⟩
          | part arg cEnd =>
            obtain ⟨args, rfl⟩ := ih read (by rw [List.append_nil])
            exact ⟨arg :: args, by rw [List.append_assoc]; rfl⟩

section Form

variable {boundary : FormBoundary} {fresh : UInt8}

theorem prefix_encodeForm (parts : List (FormPart boundary)) (epilogue : Option (List UInt8)) :
    boundary.delimiter <+: encodeForm parts epilogue := by
  cases parts with
  | nil =>
    unfold encodeForm
    rw [List.flatMap_nil, List.nil_append, List.append_assoc]
    exact List.prefix_append _ _
  | cons part rest =>
    unfold encodeForm
    rw [List.flatMap_cons, FormPart.encoded]
    simp only [List.append_assoc]
    exact List.prefix_append _ _

theorem encodeForm_cons (part : FormPart boundary) (rest : List (FormPart boundary))
    (epilogue : Option (List UInt8)) :
    encodeForm (part :: rest) epilogue = part.encoded ++ encodeForm rest epilogue := by
  simp only [encodeForm, List.flatMap_cons, List.append_assoc]

theorem formTurn_last (epilogue : Option (List UInt8)) : formTurn fresh boundary.delimiter
        (encodeForm ([] : List (FormPart boundary)) epilogue) =
      .ok (if epilogue.isSome then .ends else .fails) := by
  have advanced : advance (boundary.delimiter.length + 2)
          (encodeForm ([] : List (FormPart boundary)) epilogue) =
        .ok (match epilogue with
          | none => []
          | some text => crlf ++ text) := by
    have width : boundary.delimiter.length + 2 = (boundary.delimiter ++ ascii "--").length := by
      rw [List.length_append]
      rfl
    unfold advance encodeForm
    rw [List.flatMap_nil, List.nil_append, width, if_pos (List.prefix_append _ _).length_le]
    exact congrArg Except.ok List.drop_left
  rw [formTurn, advanced, ok_bind]
  cases epilogue with
  | none => rfl
  | some text => rfl

theorem formLoop_encodeForm_iff (parts : List (FormPart boundary)) (epilogue : Option (List UInt8))
    {fuel : Nat} (fuelled : (encodeForm parts epilogue).length ≤ fuel) (partIndex : Nat)
    (q : WebQuery) :
    (∃ args : List WebArgument, formLoop fresh boundary.delimiter fuel (encodeForm parts epilogue)
          partIndex q =
        .ok (0, { q with args := q.args ++ args }) ∧
      args.map WebArgument.field = parts.map FormPart.field) ↔
      (∀ part ∈ parts, part.Readable) ∧ epilogue.isSome = true := by
  induction parts generalizing fuel partIndex q with
  | nil =>
    have there := prefix_encodeForm ([] : List (FormPart boundary)) epilogue
    obtain ⟨fuel, rfl⟩ : ∃ turns, fuel = turns + 1 := by
      have positive : 0 < boundary.delimiter.length := Nat.succ_pos _
      have long := there.length_le
      exact ⟨fuel - 1, by omega⟩
    rw [formLoop_at boundary.isDelimiter.dashes there, formTurn_last, ok_bind]
    cases epilogue with
    | none =>
      refine iff_of_false ?_ fun both => Bool.false_ne_true both.2
      rintro ⟨args, read, _⟩
      cases read
    | some text =>
      refine iff_of_true ⟨[], ?_, rfl⟩ ⟨nofun, rfl⟩
      rw [List.append_nil]
      rfl
  | cons part rest ih =>
    have there := prefix_encodeForm (part :: rest) epilogue
    have later := prefix_encodeForm rest epilogue
    have longer : (encodeForm rest epilogue).length <
          (encodeForm (part :: rest) epilogue).length := by
      rw [encodeForm_cons, List.length_append]
      have positive : 0 < part.encoded.length := Nat.succ_pos _
      omega
    obtain ⟨fuel, rfl⟩ : ∃ turns, fuel = turns + 1 := ⟨fuel - 1, by omega⟩
    rw [formLoop_at boundary.isDelimiter.dashes there, encodeForm_cons,
      List.forall_mem_cons, and_assoc]
    constructor
    · rintro ⟨args, read, held⟩
      obtain ⟨turn, turned, read⟩ := bind_eq_ok.mp read
      -- whatever comes later, the first argument is that of the first part
      cases turn with
      | ends =>
        have none := congrArg WebQuery.args (Prod.mk.inj (Except.ok.inj read)).2
        have empty : args = [] := List.self_eq_append_right.mp none
        rw [empty] at held
        cases held
      | fails => cases read
      | part arg cEnd =>
        obtain ⟨more, appended⟩ := formLoop_appends read
        have listed := congrArg WebQuery.args appended
        dsimp only at listed
        rw [List.append_assoc, List.append_cancel_left_eq] at listed
        subst listed
        obtain ⟨first, others⟩ := List.cons.inj held
        have readable := readable_of_formTurn later turned first
        obtain ⟨_, again, _⟩ := @formTurn_readable boundary fresh part readable _ later
        rw [again] at turned
        cases turned
        refine ⟨readable, (@ih fuel (by omega) (partIndex + 1)
            { q with args := q.args ++ [arg] }).mp
            ⟨more, read.trans ?_, others⟩⟩
        dsimp only
        rw [List.append_assoc]
    · rintro ⟨readable, others⟩
      obtain ⟨arg, turned, first⟩ := @formTurn_readable boundary fresh part readable _ later
      obtain ⟨args, read, held⟩ :=
        (@ih fuel (by omega) (partIndex + 1)
          { q with args := q.args ++ [arg] }).mpr others
      refine ⟨arg :: args, ?_, ?_⟩
      · rw [turned, ok_bind]
        dsimp only
        rw [read, List.append_assoc]
        rfl
      · rw [List.map_cons, List.map_cons, first, held]

theorem decodes_iff (fresh : UInt8) (q : WebQuery) (parts : List (FormPart boundary))
    (epilogue : Option (List UInt8)) (later : List UInt8) :
    Decodes fresh q parts epilogue later ↔
      (∀ part ∈ parts, part.Readable) ∧ epilogue.isSome = true := by
  have long : ¬ (encodeForm parts epilogue ++ later).length < (encodeForm parts epilogue).length :=
    Nat.not_lt.mpr (List.prefix_append _ _).length_le
  have body : (encodeForm parts epilogue ++ later).take (encodeForm parts epilogue).length =
        encodeForm parts epilogue :=
    List.take_left
  have read : readFormData fresh (boundary.query q (encodeForm parts epilogue).length)
          (encodeForm parts epilogue ++ later) =
        formLoop fresh boundary.delimiter (encodeForm parts epilogue).length
          (encodeForm parts epilogue) 0
          (boundary.query q (encodeForm parts epilogue).length) := by
    rw [readFormData, boundary.formDelimiter_query]
    dsimp only
    have announced : (boundary.query q (encodeForm parts epilogue).length).contentLength =
          (encodeForm parts epilogue).length :=
      rfl
    rw [announced, if_neg long, body]
  unfold Decodes
  dsimp only
  rw [read]
  exact formLoop_encodeForm_iff parts epilogue (Nat.le_refl _) 0 _

end Form

/--
A form is decoded to its parts exactly if they are readable and a line end is
behind the last delimiter, and any body is read inside of the memory exactly
if it is not cut short.
-/
theorem readFormData_iff (fresh : UInt8) (q : WebQuery) :
    (∀ (boundary : FormBoundary) (parts : List (FormPart boundary))
        (epilogue : Option (List UInt8)) (later : List UInt8),
      Decodes fresh q parts epilogue later ↔
        (∀ part ∈ parts, part.Readable) ∧ epilogue.isSome = true) ∧
      ∀ received : List UInt8, ReadsInside fresh q received ↔ ∀ delimiter,
            formDelimiter q.contentType.bytes = some delimiter →
            q.contentLength ≤ received.length →
            ¬ CutBody delimiter (received.take q.contentLength) :=
  ⟨fun _ => decodes_iff fresh q, readsInside_iff fresh q⟩

def shortBoundary : FormBoundary where
  bytes := ascii "B"
  nonempty := List.cons_ne_nil _ _
  short := by decide
  onLine := by decide

def blankPart : FormPart shortBoundary where
  name := ascii "a"
  type := none
  value := ascii " x"
  nameOnLine := by decide
  typeOnLine := nofun
  apart := by decide

theorem blankPart_not_decoded : ¬ Decodes 0 (queryInit ⟨0, 0⟩ []) [blankPart] (some []) [] ∧
      ¬ ReadsInside 0 (shortBoundary.query (queryInit ⟨0, 0⟩ []) 3)
        (ascii "--B") := by
  constructor
  · rw [decodes_iff]
    rintro ⟨readable, _⟩
    have first := (readable blankPart List.mem_cons_self).valueStart rfl 32 rfl
    cases first
  · rw [readsInside_iff]
    intro whole
    refine whole shortBoundary.delimiter (shortBoundary.formDelimiter_query _ 3) (Nat.le_refl 3)
      ⟨[], ascii "--B", rfl, List.not_mem_nil, .delimiter ?_⟩
    decide

end Agar.Web
