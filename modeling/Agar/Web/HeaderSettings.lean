import Agar.Web.HeaderEdits

namespace Agar.Web

open Agar.Lib

/-!
# Setting headers

Which line `WEB_SetHeaderS` finds, and what becomes of it; and from this, that
over any sequence of calls the header block follows the list of headers
exactly as long as every call keeps the lengths of the lines it sets.
-/

/-! ## Finding a line -/

theorem toLower_eq_carriageReturn {byte : UInt8} (same : toLower byte = carriageReturn) :
    byte = carriageReturn := by
  unfold toLower at same
  split at same
  case isTrue upper =>
    exfalso
    have value := congrArg UInt8.toNat same
    obtain ⟨low, high⟩ := upper
    rw [UInt8.le_iff_toNat_le] at low high
    rw [UInt8.toNat_add] at value
    have small := byte.toNat_lt
    have sum : (byte.toNat + (32 : UInt8).toNat) % 2 ^ 8 = 13 := value
    have low : 65 ≤ byte.toNat := low
    have high : byte.toNat ≤ 90 := high
    have blank : (32 : UInt8).toNat = 32 := rfl
    omega
  case isFalse => exact same

theorem hasKey_line (key : LineText) (text rest : List UInt8) :
    hasKey key.bytes (text ++ crlf ++ rest) = hasKey key.bytes text := by
  unfold hasKey
  rw [decide_eq_decide]
  by_cases short : key.bytes.length + 1 < text.length
  · rw [List.append_assoc, List.take_append_of_le_length (by omega),
      List.getElem?_append_left (by omega), List.getElem?_append_left short]
  · apply iff_of_false
    · rintro ⟨starts, isColon, isBlank⟩
      have atEnd : (text ++ crlf ++ rest)[text.length]? = some carriageReturn := by
        rw [List.append_assoc, List.getElem?_append_right le_rfl, Nat.sub_self]
        rfl
      have place : text.length = key.bytes.length + 1 ∨ text.length = key.bytes.length ∨
              text.length < key.bytes.length := by
        omega
      rcases place with place | place | inside
      · rw [← place, atEnd] at isBlank
        exact absurd isBlank (by decide)
      · rw [← place, atEnd] at isColon
        exact absurd isColon (by decide)
      · have letter := congrArg (fun letters => letters[text.length]?) starts
        rw [List.getElem?_map, List.getElem?_map, List.getElem?_take_of_lt inside, atEnd,
          List.getElem?_eq_getElem inside, Option.map_some, Option.map_some,
          Option.some.injEq] at letter
        have isReturn := toLower_eq_carriageReturn letter.symm
        exact key.noReturn (isReturn ▸ List.getElem_mem inside)
    · rintro ⟨_, _, isBlank⟩
      rw [List.getElem?_eq_none (Nat.le_of_not_lt short)] at isBlank
      cases isBlank

namespace Header

variable {header : Header} {key : LineText}

theorem split_colon (header : Header) : ∃ before next rest,
      header.text = before ++ colon :: next :: rest ∧ colon ∉ before ∧
          before.length ≤ header.key.bytes.length := by
  by_cases inKey : colon ∈ header.key.bytes
  · obtain ⟨before, rest, split, noColon⟩ :=
      List.eq_append_cons_of_mem inKey
    have shorter : before.length ≤ header.key.bytes.length := by
      rw [split, List.length_append]
      exact Nat.le_add_right _ _
    have text : header.text =
          before ++ colon :: (rest ++ colon :: blank :: header.value.bytes) := by
      rw [Header.text, split]
      simp
    cases rest with
    | nil => exact ⟨before, colon, _, text, noColon, shorter⟩
    | cons next rest => exact ⟨before, next, _, text, noColon, shorter⟩
  · refine ⟨header.key.bytes, blank, header.value.bytes, ?_, inKey, le_rfl⟩
    rw [Header.text]
    simp

theorem IsKey.hasKey (isKey : header.IsKey key) : hasKey key.bytes header.text := by
  have length : header.key.bytes.length = key.bytes.length := by
    have lengths := congrArg List.length isKey
    rwa [List.length_map, List.length_map] at lengths
  unfold Web.hasKey
  rw [decide_eq_true_iff, text, ← length, List.append_assoc, List.take_left]
  refine ⟨isKey, ?_, ?_⟩
  · rw [List.getElem?_append_right le_rfl, Nat.sub_self]
    rfl
  · rw [List.getElem?_append_right (Nat.le_add_right _ 1), Nat.add_sub_cancel_left]
    rfl

end Header

namespace HeaderBlock

variable {q next : HeaderBlock} {h : HeaderList} {key value : LineText} {header : Header}
  {front back : List Header}

theorem find?_offsets {bytes : List UInt8} {start : Nat}
    (unmatched : (front.find? fun header => hasKey key.bytes header.text) = none)
    (segment : SegmentAt bytes start (HeaderList.headerText (front ++ back) ++ [0])) :
    ((offsets start ((front ++ back).map Header.line)).find? fun offset =>
        hasKey key.bytes (cString (bytes.drop offset))) =
      (offsets (start + (HeaderList.headerText front).length)
          (back.map Header.line)).find? fun offset =>
        hasKey key.bytes (cString (bytes.drop offset)) := by
  induction front generalizing start with
  | nil => rfl
  | cons first front ih =>
    obtain ⟨noKey, unmatched⟩ : hasKey key.bytes first.text = false ∧
          (front.find? fun header => hasKey key.bytes header.text) = none := by
      rw [List.find?_cons] at unmatched
      split at unmatched
      · cases unmatched
      · exact ⟨by assumption, unmatched⟩
    have here : cString (bytes.drop start) =
          first.text ++ crlf ++ HeaderList.headerText (front ++ back) :=
      cString_of_segment segment (HeaderList.headerText_noNul (_ :: _))
    rw [List.cons_append, List.map_cons, offsets_cons, List.find?_cons, here, hasKey_line, noKey]
    dsimp only
    rw [List.cons_append, HeaderList.headerText_cons, List.append_assoc,
      segmentAt_append] at segment
    rw [ih unmatched segment.2, HeaderList.headerText_cons, List.length_append, Nat.add_assoc]

theorem Represents.find?_lines (represents : q.Represents h) (key : LineText) :
    (q.headLine.offsets.find? fun offset =>
        hasKey key.bytes (cString (q.head.bytes.drop offset))) =
      h.starts.find? fun offset =>
        hasKey key.bytes (cString (q.head.bytes.drop offset)) := by
  rcases represents.lines with lines | lines
  · rw [lines]
  · rw [lines, List.find?_cons]
    split
    case h_1 matched =>
      obtain ⟨segment, _⟩ := represents.segment
      rw [HeaderList.text, List.append_assoc, segmentAt_append, Nat.zero_add] at segment
      have here := cString_of_segment segment.2 (HeaderList.headerText_noNul _)
      rw [here] at matched
      unfold HeaderList.starts
      cases headers : h.headers with
      | nil =>
        rw [headers] at matched
        have nowhere : hasKey key.bytes [] = false := by simp [hasKey]
        rw [HeaderList.headerText_nil, nowhere] at matched
        cases matched
      | cons header rest =>
        rw [headers] at matched
        rw [List.map_cons, offsets_cons, List.find?_cons, here, headers, matched]
    case h_2 => rfl

theorem Represents.find?_first (represents : q.Represents h) (whole : h.headers = front ++ back)
    (unmatched : (front.find? fun header => hasKey key.bytes header.text) = none)
    (matched : ∀ header ∈ back.head?, hasKey key.bytes header.text = true) :
    (q.headLine.offsets.find? fun offset =>
        hasKey key.bytes (cString (q.head.bytes.drop offset))) =
      back.head?.map fun _ =>
        (h.status.line ++ HeaderList.headerText front).length := by
  obtain ⟨segment, _⟩ := represents.segment
  rw [HeaderList.text, List.append_assoc, segmentAt_append, Nat.zero_add, whole] at segment
  rw [represents.find?_lines, HeaderList.starts, whole, find?_offsets unmatched segment.2]
  cases back with
  | nil => rfl
  | cons header rest =>
    have behind := segment.2
    rw [HeaderList.headerText_append, List.append_assoc, segmentAt_append] at behind
    have here : cString (q.head.bytes.drop
            (h.status.line.length + (HeaderList.headerText front).length)) =
          header.text ++ crlf ++ HeaderList.headerText rest :=
      cString_of_segment behind.2 (HeaderList.headerText_noNul (_ :: _))
    rw [List.map_cons, offsets_cons, List.find?_cons, here, hasKey_line,
      matched header rfl, List.length_append]
    rfl

/-! ## Setting a header -/

theorem Represents.valueAt (represents : q.Represents h)
    (whole : h.headers = front ++ header :: back) {before old : List UInt8}
    (split : header.text = before ++ separator ++ old) (noColon : colon ∉ before) :
    q.ValueAt (h.status.line ++ HeaderList.headerText front) before old
      (HeaderList.headerText back) := by
  obtain ⟨segment, headLen⟩ := represents.segment
  have text : h.text = h.status.line ++ HeaderList.headerText front ++ before ++
          separator ++ old ++ crlf ++ HeaderList.headerText back := by
    rw [HeaderList.text, whole, HeaderList.headerText_append,
      HeaderList.headerText_cons, Header.line, split]
    simp only [List.append_assoc]
  have noNul : 0 ∉ before ++ separator ++ old := split ▸ header.lineText.noNul
  have noReturn : carriageReturn ∉ before ++ separator ++ old := split ▸ header.lineText.noReturn
  simp only [List.mem_append, not_or] at noNul noReturn
  exact {
    segment := by
      rw [text] at segment
      simpa only [List.append_assoc] using segment
    headLen := text ▸ headLen
    noNul := ⟨noNul.1.1, noNul.2⟩
    noColon := noColon
    noReturn := noReturn.2
  }

theorem Represents.editHeader_bad (represents : q.Represents h)
    (whole : h.headers = front ++ header :: back) {before rest : List UInt8} {next : UInt8}
    (split : header.text = before ++ colon :: next :: rest) (noColon : colon ∉ before)
    (notBlank : next ≠ blank) (value : List UInt8) :
    q.editHeader (h.status.line ++ HeaderList.headerText front).length value =
      .error (.fatal .badHeader) := by
  obtain ⟨segment, _⟩ := represents.segment
  have text : h.text ++ [0] = h.status.line ++ HeaderList.headerText front ++
          (before ++ [colon, next] ++ (rest ++ crlf ++ HeaderList.headerText back ++ [0])) := by
    rw [HeaderList.text, whole, HeaderList.headerText_append,
      HeaderList.headerText_cons, Header.line, split]
    simp only [List.append_assoc, List.cons_append, List.nil_append]
  rw [text] at segment
  have here := (segmentAt_append.mp (segmentAt_append.mp segment).2).1
  rw [Nat.zero_add] at here
  have noNul : 0 ∉ before ++ colon :: next :: rest := split ▸ header.lineText.noNul
  rw [List.mem_append, not_or] at noNul
  rw [editHeader, headerEnds_bad here noNul.1 noColon notBlank]
  rfl

theorem length_headers {headers : List Header}
    (sameLength : (HeaderList.text { h with headers := headers }).length = h.text.length) :
    (HeaderList.headerText headers).length = (HeaderList.headerText h.headers).length := by
  rw [HeaderList.text, HeaderList.text, List.length_append, List.length_append] at sameLength
  exact Nat.add_left_cancel sameLength

theorem value_ne_line {bytes old : List UInt8} {start : Nat}
    (sameLength : value.bytes.length = old.length + 2)
    (isOld : SegmentAt bytes start (old ++ crlf)) : ¬ SegmentAt bytes start value.bytes := by
  intro isValue
  have length : (old ++ crlf).length = value.bytes.length := by
    rw [sameLength, List.length_append]
    rfl
  have same : value.bytes = old ++ crlf := by rw [← isValue.read, ← isOld.read, length]
  apply value.noReturn
  rw [same, List.mem_append]
  exact .inr List.mem_cons_self

theorem Represents.editHeader_iff (represents : q.Represents h)
    (whole : h.headers = front ++ header :: back) {before old : List UInt8}
    (split : header.text = before ++ separator ++ old) (noColon : colon ∉ before)
    {changed : Header} {later : List Header} (allowed : Allowed (q.editHeader
        (h.status.line ++ HeaderList.headerText front).length value.bytes))
    (count : (front ++ changed :: later).length = h.headers.length)
    (inPlace : value.bytes.length = old.length + 2 →
        (HeaderList.headerText (front ++ changed :: later)).length =
            (HeaderList.headerText h.headers).length →
          changed = header) :
    (∃ next, q.editHeader (h.status.line ++ HeaderList.headerText front).length
            value.bytes = .ok next ∧
          next.Represents { h with headers := front ++ changed :: later }) ↔
      value.bytes.length = old.length ∧ before ++ separator ++ value.bytes ++ crlf ++
            HeaderList.headerText back =
          changed.line ++ HeaderList.headerText later := by
  have valueAt := represents.valueAt whole split noColon
  have headLen := represents.segment.2
  have edited : h.status.line ++ HeaderList.headerText front ++ before ++ separator ++
          (value.bytes ++ crlf) ++ (HeaderList.headerText back ++ [0]) =
        h.status.line ++ HeaderList.headerText front ++
          (before ++ separator ++ value.bytes ++ crlf ++ HeaderList.headerText back) ++ [0] := by
    simp only [List.append_assoc]
  have text : HeaderList.text { h with headers := front ++ changed :: later } =
        h.status.line ++ HeaderList.headerText front ++
          (changed.line ++ HeaderList.headerText later) := by
    rw [HeaderList.text, HeaderList.headerText_append,
      HeaderList.headerText_cons, List.append_assoc]
  have oldText : h.text = h.status.line ++ HeaderList.headerText front ++
          (before ++ separator ++ old ++ crlf ++ HeaderList.headerText back) := by
    rw [HeaderList.text, whole, HeaderList.headerText_append,
      HeaderList.headerText_cons, Header.line, split]
    simp only [List.append_assoc]
  constructor
  · intro result
    obtain ⟨next, taken, next⟩ := result
    obtain ⟨sameLen, isLine, isWhole⟩ := valueAt.editHeader_segment allowed taken
    have sameText : (HeaderList.text { h with headers := front ++ changed :: later }).length =
          h.text.length := by
      rw [← next.segment.2, sameLen, headLen]
    have changes : value.bytes.length ≠ old.length + 2 := by
      intro longer
      obtain rfl := inPlace longer (length_headers sameText)
      have isOld := next.segment.1
      have reassociated : HeaderList.text { h with headers := front ++ changed :: later } ++ [0] =
            h.status.line ++ HeaderList.headerText front ++ before ++ separator ++
                (old ++ crlf ++ (HeaderList.headerText later ++ [0])) := by
        rw [text, Header.line, split]
        simp only [List.append_assoc]
      rw [reassociated] at isOld
      have oldLine := (segmentAt_append.mp isOld).2
      have newLine := (segmentAt_append.mp isLine).2
      exact value_ne_line longer (segmentAt_append.mp oldLine).1 (segmentAt_append.mp newLine).1
    have isText := isWhole changes
    rw [edited] at isText
    have noNul : 0 ∉ h.status.line ++ HeaderList.headerText front ++
          (before ++ separator ++ value.bytes ++ crlf ++ HeaderList.headerText back) := by
      have oldNoNul := h.text_noNul
      rw [oldText] at oldNoNul
      have valueNoNul := value.noNul
      simp only [List.mem_append, not_or] at oldNoNul ⊢
      tauto
    have same := next.text_eq isText noNul
    constructor
    · rw [← same, oldText] at sameText
      simp only [List.length_append] at sameText
      omega
    · rw [text] at same
      exact List.append_cancel_left same
  · rintro ⟨sameLength, sameLine⟩
    obtain ⟨ended, same, endedLen, segment⟩ := valueAt.editHeader_sameLength allowed sameLength
    rw [edited, sameLine, ← text] at segment
    have length : ended.headLen = (HeaderList.text
            { h with headers := front ++ changed :: later }).length := by
      rw [endedLen, headLen, text, ← sameLine, oldText]
      simp only [List.length_append, sameLength]
    rw [same]
    exact updateHeaderLines_represents segment length (count.trans_lt represents.few)

theorem Represents.setHeaderS_new (represents : q.Represents h)
    (unmatched : (h.headers.find? fun header => hasKey key.bytes header.text) = none)
    (allowed : Allowed (q.setHeaderS key.bytes value.bytes)) :
    (∃ next, q.setHeaderS key.bytes value.bytes = .ok next ∧
          next.Represents (h.call (.setHeaderS key value))) ↔
      h.Meets (.setHeaderS key value) := by
  have appended : q.setHeaderS key.bytes value.bytes = q.appendHeaderS key.bytes value.bytes := by
    rw [setHeaderS, represents.find?_first (List.append_nil _).symm unmatched]
    · rfl
    · intro _ member
      cases member
  have noKey : ¬ (h.headers.any fun header => header.IsKey key) = true := by
    intro some
    obtain ⟨header, member, isKey⟩ := List.any_eq_true.mp some
    exact List.find?_eq_none.mp unmatched header member (of_decide_eq_true isKey).hasKey
  have called : h.call (.setHeaderS key value) =
        { h with
          headers := h.headers ++ [{ key := key, value := value }]
        } :=
    if_neg noKey
  rw [appended] at allowed ⊢
  rw [called, HeaderList.Meets, unmatched]
  exact represents.appendHeaderS_iff { key := key, value := value } allowed

theorem Represents.setHeaderS_edits (represents : q.Represents h)
    (whole : h.headers = front ++ header :: back)
    (unmatched : (front.find? fun header => hasKey key.bytes header.text) = none)
    (matched : hasKey key.bytes header.text = true) :
    q.setHeaderS key.bytes value.bytes =
      q.editHeader (h.status.line ++ HeaderList.headerText front).length
        value.bytes := by
  rw [setHeaderS, represents.find?_first whole unmatched]
  · rfl
  · intro first member
    obtain rfl := Option.some.inj member
    exact matched

theorem noKey_of_unmatched
    (unmatched : (front.find? fun header => hasKey key.bytes header.text) = none) :
    (front.find? fun header => header.IsKey key) = none := by
  rw [List.find?_eq_none] at unmatched ⊢
  intro header member isKey
  exact unmatched header member (of_decide_eq_true isKey).hasKey

theorem call_setHeaderS (whole : h.headers = front ++ back)
    (noKey : (front.find? fun header => header.IsKey key) = none)
    (some : (back.any fun header => header.IsKey key) = true) :
    h.call (.setHeaderS key value) =
      { h with
        headers :=
          front ++ updateFirst (fun header => header.IsKey key)
              (fun header => { header with value := value }) back
      } := by
  have any : (h.headers.any fun header => header.IsKey key) = true := by
    rw [whole, List.any_append, some, Bool.or_true]
  rw [HeaderList.call, if_pos any, whole, updateFirst_append noKey]

theorem headLen_of_editHeader {cLine : Nat} {bytes : List UInt8}
    (taken : q.editHeader cLine bytes = .ok next) : next.headLen = q.headLen := by
  obtain ⟨⟨cSep, cEnd⟩, _, taken⟩ := bind_eq_ok.mp taken
  dsimp only at taken
  split at taken
  · cases taken
  · obtain ⟨moved, isMoved, taken⟩ := bind_eq_ok.mp taken
    obtain ⟨copied, isCopied, taken⟩ := bind_eq_ok.mp taken
    obtain ⟨returned, isReturned, taken⟩ := bind_eq_ok.mp taken
    obtain ⟨ended, isEnded, taken⟩ := bind_eq_ok.mp taken
    rw [(updateHeaderLinesIf_keeps taken).2,
      (segment_of_memcpy isEnded).2.2.1, (segment_of_memcpy isReturned).2.2.1,
      (segment_of_memcpy isCopied).2.2.1, headLen_of_memmoveIf isMoved]

theorem Represents.setHeaderS_own (represents : q.Represents h)
    (whole : h.headers = front ++ header :: back)
    (unmatched : (front.find? fun header => hasKey key.bytes header.text) = none)
    (isKey : header.IsKey key) (allowed : Allowed (q.setHeaderS key.bytes value.bytes)) :
    (∃ next, q.setHeaderS key.bytes value.bytes = .ok next ∧
          next.Represents (h.call (.setHeaderS key value))) ↔
      colon ∉ header.key.bytes ∧ value.bytes.length = header.value.bytes.length := by
  have called : h.call (.setHeaderS key value) =
        { h with headers := front ++ { header with value := value } :: back } := by
    rw [call_setHeaderS whole (noKey_of_unmatched unmatched)]
    · rw [updateFirst, if_pos (decide_eq_true isKey)]
    · exact List.any_eq_true.mpr ⟨header, List.mem_cons_self, decide_eq_true isKey⟩
  have ownText : header.text = header.key.bytes ++ colon :: blank :: header.value.bytes := by
    rw [Header.text, List.append_assoc]
    rfl
  obtain ⟨before, next, old, split, noColon, shorter⟩ := header.split_colon
  rw [represents.setHeaderS_edits whole unmatched isKey.hasKey] at allowed ⊢
  rw [called]
  by_cases isBlank : next = blank
  · subst isBlank
    have split : header.text = before ++ separator ++ old := by
      rw [split, List.append_assoc]
      rfl
    have lengths := congrArg List.length split
    rw [Header.length_text, List.length_append, List.length_append] at lengths
    have two : separator.length = 2 := rfl
    rw [represents.editHeader_iff whole split noColon allowed]
    · constructor
      · intro edited
        obtain ⟨sameLength, sameLine⟩ := edited
        have sameText := List.append_cancel_right (List.append_cancel_right sameLine)
        have sameKey : before = header.key.bytes :=
          List.append_cancel_right (List.append_cancel_right sameText)
        rw [sameKey] at noColon lengths
        exact ⟨noColon, by omega⟩
      · intro own
        obtain ⟨keyNoColon, sameLength⟩ := own
        have same : before ++ colon :: (blank :: old) =
              header.key.bytes ++ colon :: blank :: header.value.bytes := by
          rw [← ownText, split, List.append_assoc]
          rfl
        obtain ⟨rfl, tails⟩ := first_unique noColon keyNoColon same
        obtain rfl := (List.cons.inj tails).2
        exact ⟨sameLength, rfl⟩
    · rw [whole, List.length_append, List.length_append]
      rfl
    · intro longer sameLength
      exfalso
      rw [whole, HeaderList.headerText_append, HeaderList.headerText_append,
        HeaderList.headerText_cons, HeaderList.headerText_cons] at sameLength
      simp only [List.length_append, Header.length_line, Header.length_text] at sameLength
      omega
  · apply iff_of_false
    · intro result
      obtain ⟨next, taken, _⟩ := result
      rw [represents.editHeader_bad whole split noColon isBlank] at taken
      cases taken
    · intro own
      have same := split.symm.trans ownText
      obtain ⟨_, tails⟩ := first_unique noColon own.1 same
      exact isBlank (List.cons.inj tails).1

theorem same_lines_iff {other : Header} {before old : List UInt8}
    (split : header.text = before ++ separator ++ old) (noColon : colon ∉ before) :
    (value.bytes.length = old.length ∧ before ++ separator ++ value.bytes ++ crlf ++
            HeaderList.headerText (front ++ other :: back) =
          header.line ++ HeaderList.headerText (front ++ { other with value := value } :: back)) ↔
      (∃ before, colon ∉ before ∧ header.text = before ++ separator ++ value.bytes) ∧
      ∃ found, some other = some found ∧ found.value = value := by
  constructor
  · intro same
    obtain ⟨sameLength, sameLines⟩ := same
    rw [Header.line, split] at sameLines
    obtain ⟨sameLine, sameRest⟩ :=
      List.append_inj sameLines (by
        simp only [List.length_append, sameLength])
    have sameValue : value.bytes = old :=
      List.append_cancel_left (List.append_cancel_right sameLine)
    refine ⟨⟨before, noColon, sameValue ▸ split⟩, other, rfl, ?_⟩
    rw [HeaderList.headerText_append, HeaderList.headerText_append,
      HeaderList.headerText_cons, HeaderList.headerText_cons] at sameRest
    have otherLine := List.append_cancel_right (List.append_cancel_left sameRest)
    have otherText := List.append_cancel_right otherLine
    exact LineText.ext (List.append_cancel_left otherText)
  · intro stays
    obtain ⟨⟨start, startNoColon, text⟩, found, isFound, rfl⟩ := stays
    obtain rfl := Option.some.inj isFound
    have same : before ++ colon :: (blank :: old) =
          start ++ colon :: (blank :: other.value.bytes) := by
      rw [split, List.append_assoc, List.append_assoc] at text
      exact text
    obtain ⟨rfl, tails⟩ := first_unique noColon startNoColon same
    obtain rfl := (List.cons.inj tails).2
    refine ⟨rfl, ?_⟩
    rw [Header.line, split]

theorem Represents.setHeaderS_other (represents : q.Represents h)
    (whole : h.headers = front ++ header :: back)
    (unmatched : (front.find? fun header => hasKey key.bytes header.text) = none)
    (matched : hasKey key.bytes header.text = true) (notKey : ¬ header.IsKey key)
    (allowed : Allowed (q.setHeaderS key.bytes value.bytes)) :
    (∃ next, q.setHeaderS key.bytes value.bytes = .ok next ∧
          next.Represents (h.call (.setHeaderS key value))) ↔
      (∃ before, colon ∉ before ∧ header.text = before ++ separator ++ value.bytes) ∧
      ∃ other, (h.headers.find? fun header => header.IsKey key) = some other ∧
          other.value = value := by
  have noKey : ((front ++ [header]).find? fun header => header.IsKey key) = none := by
    rw [List.find?_append, noKey_of_unmatched unmatched, Option.none_or,
      List.find?_singleton, if_neg (by simpa using notKey)]
  have whole' : h.headers = front ++ [header] ++ back := by
    rw [whole, List.append_assoc]
    rfl
  have found : (h.headers.find? fun header => header.IsKey key) =
        back.find? fun header => header.IsKey key := by
    rw [whole', List.find?_append, noKey, Option.none_or]
  rw [represents.setHeaderS_edits whole unmatched matched] at allowed ⊢
  rw [found]
  cases later : back.find? fun header => header.IsKey key with
  | none =>
    apply iff_of_false
    · intro result
      obtain ⟨next, taken, next⟩ := result
      have none : ¬ (h.headers.any fun header => header.IsKey key) = true := by
        intro some
        obtain ⟨other, member, isKey⟩ := List.any_eq_true.mp some
        rw [later, List.find?_eq_none] at found
        exact found other member isKey
      have length := next.segment.2
      rw [headLen_of_editHeader taken, represents.segment.2,
        HeaderList.call, if_neg none, text_append, List.length_append,
        Header.length_line] at length
      omega
    · intro other
      obtain ⟨_, _, none, _⟩ := other
      cases none
  | some other =>
    obtain ⟨mid, rest, rfl, updated, _, _⟩ := split_first later
    have isKey := List.find?_some later
    have called : h.call (.setHeaderS key value) =
          { h with
            headers := front ++ header :: (mid ++ { other with value := value } :: rest)
          } := by
      rw [call_setHeaderS whole' noKey, updated, List.append_assoc]
      · rfl
      · exact List.any_eq_true.mpr ⟨other, List.mem_append_right _ List.mem_cons_self, isKey⟩
    rw [called]
    obtain ⟨before, next, old, split, noColon, _⟩ := header.split_colon
    by_cases isBlank : next = blank
    · subst isBlank
      have split : header.text = before ++ separator ++ old := by
        rw [split, List.append_assoc]
        rfl
      rw [represents.editHeader_iff whole split noColon allowed]
      · exact same_lines_iff split noColon
      · rw [whole, List.length_append, List.length_append, List.length_cons,
          List.length_cons, List.length_append, List.length_append]
        rfl
      · intro _ _
        rfl
    · apply iff_of_false
      · intro result
        obtain ⟨next, taken, _⟩ := result
        rw [represents.editHeader_bad whole split noColon isBlank] at taken
        cases taken
      · intro same
        obtain ⟨⟨start, startNoColon, text⟩, _⟩ := same
        rw [split, List.append_assoc] at text
        obtain ⟨_, tails⟩ := first_unique noColon startNoColon text
        exact isBlank (List.cons.inj tails).1

theorem Represents.setHeaderS_iff (represents : q.Represents h) (key value : LineText)
    (allowed : Allowed (q.setHeaderS key.bytes value.bytes)) :
    (∃ next, q.setHeaderS key.bytes value.bytes = .ok next ∧
          next.Represents (h.call (.setHeaderS key value))) ↔
      h.Meets (.setHeaderS key value) := by
  cases found : h.headers.find? fun header => hasKey key.bytes header.text with
  | none => exact represents.setHeaderS_new found allowed
  | some header =>
    obtain ⟨front, back, whole, _, _, unmatched⟩ := split_first found
    have matched := List.find?_some found
    rw [HeaderList.Meets, found]
    dsimp only
    by_cases isKey : header.IsKey key
    · rw [represents.setHeaderS_own whole unmatched isKey allowed]
      simp [isKey]
    · rw [represents.setHeaderS_other whole unmatched matched isKey allowed]
      simp [isKey]

theorem Represents.call_iff (represents : q.Represents h) (call : HeaderCall)
    (allowed : Allowed (q.call call)) :
    (∃ next, q.call call = .ok next ∧ next.Represents (h.call call)) ↔ h.Meets call := by
  cases call with
  | clearHeaders status => exact q.clearHeaders_iff status
  | setCode code => exact represents.setCode_iff code allowed
  | appendHeaderS key value =>
    exact represents.appendHeaderS_iff { key := key, value := value } allowed
  | setHeaderS key value => exact represents.setHeaderS_iff key value allowed

end HeaderBlock

/-! ## Runs -/

/-- A block, or why there is none, and the list that the calls so far make. -/
structure HeaderRun where
  block : Except HeaderStop HeaderBlock
  list : HeaderList

namespace HeaderRun

/-- A call was refused for a limit. -/
def refused : Except HeaderStop HeaderBlock → Bool
  | .error (.fatal error) => error.isLimit
  | _ => false

/-- Make a call on the block and on the list, if it is not refused. -/
def step (state : HeaderRun) (call : HeaderCall) : Option HeaderRun :=
  let block := state.block >>= fun q => q.call call
  if refused block then none else some { block := block, list := state.list.call call }

/-- The block represents the list. -/
def Follows (state : HeaderRun) : Prop := ∃ q, state.block = .ok q ∧ q.Represents state.list

theorem list_of_step {state next : HeaderRun} {call : HeaderCall}
    (taken : state.step call = some next) : next.list = state.list.call call := by
  unfold step at taken
  dsimp only at taken
  split at taken
  · cases taken
  · rw [← Option.some.inj taken]

theorem step_follows_iff {state next : HeaderRun} {call : HeaderCall} (follows : state.Follows)
    (taken : state.step call = some next) : next.Follows ↔ state.list.Meets call := by
  obtain ⟨block, list⟩ := state
  obtain ⟨q, rfl, represents⟩ := follows
  unfold step at taken
  dsimp only at taken
  split at taken
  case isTrue => cases taken
  case isFalse notRefused =>
    obtain rfl := Option.some.inj taken
    have allowed : HeaderBlock.Allowed (q.call call) := by
      intro error failed
      by_contra isLimit
      apply notRefused
      change refused (q.call call) = true
      rw [failed]
      exact (Bool.not_eq_false _).mp isLimit
    exact represents.call_iff call allowed

/--
Over any sequence of calls of which none is refused for a limit, the head is
the status line and the headers of the list, a NUL is behind them, and
`headLine` lists where they start, exactly when every call keeps the lengths
that it has to keep.
-/
theorem headers_follow_iff {q : HeaderBlock} {h : HeaderList} (represents : q.Represents h)
    {calls : List HeaderCall} {final : HeaderRun}
    (completes : run step { block := .ok q, list := h } calls = some final) :
    AlwaysAlong step Follows { block := .ok q, list := h } calls ↔
      EachStep step (fun state call => state.list.Meets call)
        { block := .ok q, list := h } calls :=
  alwaysAlong_iff_eachStep (fun _ => True) (fun _ _ _ _ _ _ => trivial)
    (fun _ _ _ _ follows _ taken => step_follows_iff follows taken)
    trivial ⟨q, rfl, represents⟩ (eachStep_true _ _) completes

/-- The status line that `WEB_QueryInit` sets. -/
def statusOK : LineText := .ofAscii "HTTP/1.0 200 OK" (by decide +kernel)

/-- The block that `WEB_QueryInit` makes, in a buffer of zeroes. -/
def initial : HeaderBlock where
  head := {
    bytes := statusOK.line ++ List.replicate 1007 0
    full := by
      rw [List.length_append, List.length_replicate]
      decide
  }
  headLine := .single statusOK.line.length
  headLen := statusOK.line.length

theorem initial_represents : initial.Represents { status := statusOK, headers := [] } where
  bytes := by decide
  terminator := by decide
  lines := by decide

/-- A key, in two spellings -/
def contentLanguage : LineText := .ofAscii "Content-Language" (by decide +kernel)

@[inherit_doc contentLanguage] def lowerContentLanguage : LineText :=
  .ofAscii "content-language" (by decide +kernel)

theorem headers_follow_iff_same_length : AlwaysAlong step Follows
      { block := .ok initial, list := { status := statusOK, headers := [] } }
      [.appendHeaderS contentLanguage (.ofAscii "en" (by decide +kernel)),
        .setHeaderS lowerContentLanguage (.ofAscii "de" (by decide +kernel)),
        .setCode (.ofAscii "206 OK" (by decide +kernel))] := by
  have completes : (run step
        { block := .ok initial, list := { status := statusOK, headers := [] } }
        [.appendHeaderS contentLanguage (.ofAscii "en" (by decide +kernel)),
          .setHeaderS lowerContentLanguage (.ofAscii "de" (by decide +kernel)),
          .setCode (.ofAscii "206 OK" (by decide +kernel))]).isSome = true := by
    decide +kernel
  obtain ⟨final, completes⟩ := Option.isSome_iff_exists.mp completes
  refine (headers_follow_iff initial_represents completes).mpr ?_
  refine ⟨?_, fun appended taken => ?_⟩
  · change (_ < _)
    decide +kernel
  have appendedList := list_of_step taken
  refine ⟨?_, fun edited taken => ?_⟩
  · dsimp only
    rw [appendedList]
    refine .inl ⟨?_, ?_, ?_⟩
    · decide +kernel
    · decide +kernel
    · decide +kernel
  have editedList := list_of_step taken
  refine ⟨?_, fun _ _ => trivial⟩
  dsimp only
  rw [editedList, appendedList]
  refine ⟨?_, ?_⟩
  · decide +kernel
  · decide +kernel

theorem longer_code_is_cut : ¬ AlwaysAlong step Follows
        { block := .ok initial, list := { status := statusOK, headers := [] } }
        [.setCode (.ofAscii "404 Not Found" (by decide +kernel))] := by
  intro along
  have taken : (step
        { block := .ok initial, list := { status := statusOK, headers := [] } }
        (.setCode (.ofAscii "404 Not Found" (by decide +kernel)))).isSome = true := by
    decide +kernel
  obtain ⟨next, taken⟩ := Option.isSome_iff_exists.mp taken
  have meets := (step_follows_iff ⟨initial, rfl, initial_represents⟩ taken).mp (along.2 next taken)
  exact absurd meets.1 (by decide)

end HeaderRun

end Agar.Web
