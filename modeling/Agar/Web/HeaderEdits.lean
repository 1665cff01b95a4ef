import Agar.Lib.Outcome
import Agar.Web.HeaderList

namespace Agar.Web

open Agar.Lib
open Agar.Core

/-!
# When the header block follows the list of headers

A call that changes the length of a line leaves `headLen` as it was, so that
the block follows the list exactly as long as what is set is as long as what
it replaces.
-/

/-! ## The text of a list of headers -/

namespace HeaderList

variable {header : Header} {front back headers : List Header} {h : HeaderList}

@[simp] theorem headerText_nil : headerText [] = [] := rfl

@[simp] theorem headerText_cons :
    headerText (header :: headers) = header.line ++ headerText headers :=
  rfl

@[simp] theorem headerText_append :
    headerText (front ++ back) = headerText front ++ headerText back := by
  simp [headerText]

theorem headerText_noNul (headers : List Header) : 0 ∉ headerText headers := by
  induction headers with
  | nil => exact List.not_mem_nil
  | cons header rest ih =>
    rw [headerText_cons, List.mem_append]
    exact not_or_intro header.lineText.line_noNul ih

theorem text_noNul (h : HeaderList) : 0 ∉ h.text := by
  rw [text, List.mem_append]
  exact not_or_intro h.status.line_noNul (headerText_noNul _)

end HeaderList

theorem text_of_terminator {bytes text : List UInt8} {len : Nat} (taken : bytes.take len = text)
    (terminator : bytes[len]? = some 0) : SegmentAt bytes 0 (text ++ [0]) ∧ len = text.length := by
  obtain ⟨inside, _⟩ := List.getElem?_eq_some_iff.mp terminator
  have length : len = text.length := by
    rw [← taken, List.length_take, Nat.min_eq_left (Nat.le_of_lt inside)]
  refine ⟨segmentAt_append.mpr ⟨⟨?_, ?_⟩, ⟨?_, ?_⟩⟩, length⟩
  · omega
  · intro index within
    rw [Nat.zero_add, ← taken, List.getElem?_take_of_lt (by omega)]
  · rw [List.length_singleton]
    omega
  · intro index within
    obtain rfl : index = 0 := Nat.lt_one_iff.mp within
    rw [Nat.zero_add, Nat.add_zero, ← length, terminator]
    rfl

theorem HeaderLines.push?_of_room (lines : HeaderLines) (offset : Nat)
    (room : lines.offsets.length + 1 < httpMaxHeaders) :
    ∃ longer, lines.push? offset = some longer ∧ longer.offsets = lines.offsets ++ [offset] :=
  ⟨_, dif_neg (Nat.not_le_of_lt room), rfl⟩

theorem HeaderLines.offsets_of_push? {lines longer : HeaderLines} {offset : Nat}
    (pushed : lines.push? offset = some longer) : longer.offsets = lines.offsets ++ [offset] := by
  unfold HeaderLines.push? at pushed
  split at pushed
  · cases pushed
  · cases pushed
    rfl

namespace HeaderBlock

variable {q next : HeaderBlock} {h : HeaderList}

theorem Represents.segment (represents : q.Represents h) :
    SegmentAt q.head.bytes 0 (h.text ++ [0]) ∧ q.headLen = h.text.length :=
  text_of_terminator represents.bytes represents.terminator

theorem represents_of_segment (segment : SegmentAt q.head.bytes 0 (h.text ++ [0]))
    (length : q.headLen = h.text.length) (lines : q.headLine.offsets = h.starts ∨
        q.headLine.offsets = h.status.line.length :: h.starts) : q.Represents h where
  bytes := by
    rw [length]
    exact (segmentAt_append.mp segment).1.read
  terminator := by
    have nul := (segmentAt_append.mp segment).2.holds 0 Nat.zero_lt_one
    rw [Nat.zero_add, Nat.add_zero] at nul
    rw [length, nul]
    rfl
  lines := lines

variable {text : List UInt8}

theorem Represents.text_eq (represents : q.Represents h)
    (segment : SegmentAt q.head.bytes 0 (text ++ [0])) (noNul : 0 ∉ text) : text = h.text := by
  rw [← cString_of_segment segment noNul, cString_of_segment represents.segment.1 h.text_noNul]

theorem Represents.few (represents : q.Represents h) : h.headers.length < httpMaxHeaders := by
  have few := q.headLine.few
  have count : h.starts.length = h.headers.length := by
    rw [HeaderList.starts, length_offsets, List.length_map]
  rcases represents.lines with lines | lines
  · rw [lines, count] at few
    exact few
  · rw [lines, List.length_cons, count] at few
    exact Nat.lt_of_succ_lt few

/-! ## Copying -/

variable {start : Nat} {bytes : List UInt8}

theorem memcpy_eq_ok : q.memcpy start bytes = .ok next ↔ ∃ head,
        q.head.copy? start bytes = some head ∧ next = { q with head := head } := by
  unfold memcpy
  cases q.head.copy? start bytes with
  | none =>
    constructor
    · intro copied
      cases copied
    · intro copied
      obtain ⟨_, none, _⟩ := copied
      cases none
  | some head =>
    constructor
    · intro copied
      exact ⟨head, rfl, (Except.ok.inj copied).symm⟩
    · intro copied
      obtain ⟨_, same, rfl⟩ := copied
      cases same
      rfl

theorem segment_of_memcpy (copied : q.memcpy start bytes = .ok next) :
    SegmentAt next.head.bytes start bytes ∧ (∀ place part, SegmentAt q.head.bytes place part →
        place + part.length ≤ start ∨ start + bytes.length ≤ place →
        SegmentAt next.head.bytes place part) ∧
      next.headLen = q.headLen ∧ next.headLine = q.headLine := by
  obtain ⟨head, same, rfl⟩ := memcpy_eq_ok.mp copied
  exact ⟨Buffer.segment_of_copy? same, fun _ _ => Buffer.segment_beside_copy? same, rfl, rfl⟩

theorem memcpy_inside (q : HeaderBlock) (inside : start + bytes.length ≤ httpHeaderMax) :
    ∃ next, q.memcpy start bytes = .ok next := by
  obtain ⟨head, copied⟩ := q.head.copy?_inside inside
  exact ⟨_, memcpy_eq_ok.mpr ⟨head, copied, rfl⟩⟩

theorem memmove_eq_memcpy {src : Nat} {part : List UInt8}
    (segment : SegmentAt q.head.bytes src part) (dst : Nat) :
    q.memmove dst src part.length = q.memcpy dst part := by
  rw [memmove, Buffer.move?_eq_copy? segment, memcpy]

theorem headLen_of_memmoveIf {moves : Prop} [Decidable moves] {dst src count : Nat}
    (moved : q.memmoveIf moves dst src count = .ok next) : next.headLen = q.headLen := by
  unfold memmoveIf memmove at moved
  split at moved
  · split at moved
    · rw [← Except.ok.inj moved]
    · cases moved
  · rw [← Except.ok.inj moved]

/-! ## Line starts -/

theorem updateHeaderLinesFrom_last (rest : List UInt8) (offset : Nat) (lines : HeaderLines) :
    updateHeaderLinesFrom (lineFeed :: 0 :: rest) offset lines = .ok lines := by
  rw [updateHeaderLinesFrom.eq_def]
  dsimp only
  rw [if_neg (by decide), if_pos rfl, if_neg (fun nonzero => nonzero rfl),
    updateHeaderLinesFrom.eq_def]
  exact if_pos rfl

theorem updateHeaderLinesFrom_next {next : UInt8} (nonzero : next ≠ 0) (rest : List UInt8)
    (offset : Nat) {lines longer : HeaderLines} (pushed : lines.push? (offset + 1) = some longer) :
    updateHeaderLinesFrom (lineFeed :: next :: rest) offset lines =
      updateHeaderLinesFrom (next :: rest) (offset + 1) longer := by
  rw [updateHeaderLinesFrom.eq_def]
  dsimp only
  rw [if_neg (by decide), if_pos rfl, if_pos nonzero, pushed]

theorem updateHeaderLinesFrom_skip (noNul : 0 ∉ text) (noLineFeed : lineFeed ∉ text)
    (rest : List UInt8) (offset : Nat) (lines : HeaderLines) :
    updateHeaderLinesFrom (text ++ rest) offset lines =
      updateHeaderLinesFrom rest (offset + text.length) lines := by
  induction text generalizing offset with
  | nil => rfl
  | cons c text ih =>
    rw [List.mem_cons, not_or] at noNul noLineFeed
    rw [List.cons_append, updateHeaderLinesFrom.eq_def]
    dsimp only
    rw [if_neg (Ne.symm noNul.1), if_neg (Ne.symm noLineFeed.1),
      ih noNul.2 noLineFeed.2, List.length_cons]
    congr 1
    omega

theorem updateHeaderLinesFrom_lines {first : List UInt8} {more : List (List UInt8)}
    (areLines : ∀ line ∈ first :: more, IsLine lineFeed line ∧ 0 ∉ line) (rest : List UInt8)
    (start : Nat) {found : HeaderLines}
    (few : found.offsets.length + more.length < httpMaxHeaders) :
    ∃ lines, updateHeaderLinesFrom ((first :: more).flatten ++ 0 :: rest) start found = .ok lines ∧
        lines.offsets = found.offsets ++ offsets (start + first.length) more := by
  induction more generalizing first start found with
  | nil =>
    obtain ⟨⟨text, noLineFeed, rfl⟩, noNul⟩ := areLines _ List.mem_cons_self
    rw [List.mem_append, not_or] at noNul
    refine ⟨found, ?_, (List.append_nil _).symm⟩
    rw [List.flatten_cons, List.flatten_nil, List.append_nil,
      List.append_assoc, updateHeaderLinesFrom_skip noNul.1 noLineFeed]
    exact updateHeaderLinesFrom_last rest _ found
  | cons second more ih =>
    obtain ⟨areFirst, areMore⟩ := List.forall_mem_cons.mp areLines
    obtain ⟨⟨text, noLineFeed, rfl⟩, noNul⟩ := areFirst
    rw [List.mem_append, not_or] at noNul
    obtain ⟨isSecond, secondNoNul⟩ := areMore _ List.mem_cons_self
    obtain ⟨c, tail, same⟩ := List.exists_cons_of_ne_nil isSecond.ne_nil
    have nonzero : c ≠ 0 := by
      rintro rfl
      exact secondNoNul (same ▸ List.mem_cons_self)
    rw [List.length_cons] at few
    obtain ⟨longer, pushed, added⟩ := found.push?_of_room (start + text.length + 1) (by omega)
    obtain ⟨lines, scanned, listed⟩ :=
      ih areMore (start + text.length + 1) (by
        rw [added, List.length_append, List.length_singleton]
        omega)
    refine ⟨lines, ?_, ?_⟩
    · rw [List.flatten_cons, List.append_assoc, List.append_assoc,
        updateHeaderLinesFrom_skip noNul.1 noLineFeed, ← scanned,
        List.flatten_cons, same]
      exact updateHeaderLinesFrom_next nonzero _ _ pushed
    · rw [listed, added, offsets_cons, List.length_append,
        List.length_singleton, List.append_assoc, List.singleton_append,
        Nat.add_assoc start]

theorem updateHeaderLines_segment {status : LineText} {texts : List LineText}
    (segment : SegmentAt q.head.bytes 0 (status.line ++ (texts.map LineText.line).flatten ++ [0]))
    (few : texts.length < httpMaxHeaders) :
    ∃ next, q.updateHeaderLines = .ok next ∧ next.head = q.head ∧ next.headLen = q.headLen ∧
            next.headLine.offsets = offsets status.line.length (texts.map LineText.line) := by
  obtain ⟨rest, whole⟩ := segment.drop_eq
  rw [List.drop_zero, List.append_assoc] at whole
  have areLines : ∀ line ∈ status.line :: texts.map LineText.line,
        IsLine lineFeed line ∧ 0 ∉ line := by
    intro line member
    rcases List.mem_cons.mp member with rfl | other
    · exact ⟨status.isLine, status.line_noNul⟩
    · obtain ⟨text, _, rfl⟩ := List.mem_map.mp other
      exact ⟨text.isLine, text.line_noNul⟩
  have fewFound : HeaderLines.empty.offsets.length + (texts.map LineText.line).length <
        httpMaxHeaders := by
    rwa [List.length_map, HeaderLines.empty, List.length_nil, Nat.zero_add]
  obtain ⟨lines, scanned, listed⟩ := updateHeaderLinesFrom_lines areLines rest 0 fewFound
  refine ⟨{ q with headLine := lines }, ?_, rfl, rfl, ?_⟩
  · rw [List.flatten_cons] at scanned
    rw [updateHeaderLines, whole, List.singleton_append, scanned]
    rfl
  · dsimp only
    rw [listed, Nat.zero_add]
    rfl

theorem updateHeaderLines_keeps (updated : q.updateHeaderLines = .ok next) :
    next.head = q.head ∧ next.headLen = q.headLen := by
  unfold updateHeaderLines at updated
  cases scanned : updateHeaderLinesFrom q.head.bytes 0 .empty with
  | error failure =>
    rw [scanned] at updated
    cases updated
  | ok lines =>
    rw [scanned] at updated
    cases updated
    exact ⟨rfl, rfl⟩

theorem updateHeaderLinesIf_keeps {updates : Prop} [Decidable updates]
    (updated : q.updateHeaderLinesIf updates = .ok next) :
    next.head = q.head ∧ next.headLen = q.headLen := by
  unfold updateHeaderLinesIf at updated
  split at updated
  · exact updateHeaderLines_keeps updated
  · rw [← Except.ok.inj updated]
    exact ⟨rfl, rfl⟩

theorem updateHeaderLines_represents (segment : SegmentAt q.head.bytes 0 (h.text ++ [0]))
    (length : q.headLen = h.text.length) (few : h.headers.length < httpMaxHeaders) :
    ∃ next, q.updateHeaderLines = .ok next ∧ next.Represents h := by
  have lines : h.headers.map Header.line = (h.headers.map Header.lineText).map LineText.line := by
    rw [List.map_map]
    rfl
  have whole : h.text = h.status.line ++
          ((h.headers.map Header.lineText).map LineText.line).flatten := by
    rw [← lines]
    rfl
  obtain ⟨next, updated, head, headLen, listed⟩ :=
    updateHeaderLines_segment (whole ▸ segment) ((List.length_map _).trans_lt few)
  rw [← lines] at listed
  refine ⟨next, updated, represents_of_segment ?_ ?_ (.inl listed)⟩
  · rwa [head]
  · rwa [headLen]

/-! ## Clearing and appending -/

theorem clearHeaders_iff (q : HeaderBlock) (status : LineText) : (∃ next,
        q.clearHeaders status.line = .ok next ∧
          next.Represents { status := status, headers := [] }) ↔
      status.line.length < httpHeaderMax := by
  have text : HeaderList.text { status := status, headers := [] } = status.line := List.append_nil _
  constructor
  · intro result
    obtain ⟨next, cleared, represents⟩ := result
    have segment := represents.segment.1.inside
    rw [text, next.head.full, List.length_append] at segment
    rw [List.length_singleton] at segment
    omega
  · intro fits
    have inside : 0 + (status.line ++ [0]).length ≤ httpHeaderMax := by
      rw [List.length_append, List.length_singleton]
      omega
    obtain ⟨copied, same⟩ := q.memcpy_inside inside
    obtain ⟨segment, _, _, _⟩ := segment_of_memcpy same
    refine ⟨{ copied with
      headLen := status.line.length
      headLine := .single status.line.length
    }, ?_, ?_⟩
    · rw [clearHeaders, same]
      rfl
    · rw [← text] at segment
      exact represents_of_segment segment (congrArg List.length text.symm) (.inr rfl)

/-- A call is not refused for a limit. -/
def Allowed (outcome : Except HeaderStop HeaderBlock) : Prop :=
  ∀ error, outcome = .error (.fatal error) → error.isLimit = false

theorem bytes_headerLine (header : Header) :
    (headerLine header.key.bytes header.value.bytes).bytes =
      header.line.take (httpPerHeaderMax - 1) := by
  have keyNoNul := header.key.noNul
  have textNoNul : 0 ∉ header.key.bytes ++ separator ++ header.value.bytes := header.lineText.noNul
  have withSeparator : 0 ∉ header.key.bytes ++ separator := by
    rw [List.mem_append]
    exact not_or_intro keyNoNul (by decide)
  rw [headerLine, CString.strlcat_strlcpy keyNoNul,
    CString.strlcat_strlcpy withSeparator, CString.strlcat_strlcpy textNoNul]
  exact congrArg (List.take _) (cString_of_noNul header.lineText.line_noNul)

theorem text_append (h : HeaderList) (header : Header) :
    HeaderList.text { h with headers := h.headers ++ [header] } = h.text ++ header.line := by
  simp [HeaderList.text]

theorem appendHeaderS_copies {key value : List UInt8}
    (allowed : Allowed (q.appendHeaderS key value)) :
    ∃ copied lines, q.memcpy q.headLen ((headerLine key value).bytes ++ [0]) = .ok copied ∧
        lines.offsets = q.headLine.offsets ++ [q.headLen] ∧ q.appendHeaderS key value =
            .ok { copied with
              headLine := lines
              headLen := q.headLen + (headerLine key value).bytes.length
            } := by
  cases pushed : q.headLine.push? q.headLen with
  | none =>
    exfalso
    have refused : q.appendHeaderS key value = .error (.fatal .tooManyHeaders) := by
      rw [appendHeaderS, pushed]
    exact Bool.noConfusion (allowed _ refused)
  | some lines =>
    by_cases tooBig : q.headLen + (headerLine key value).bytes.length + 1 ≥ httpHeaderMax - 2
    · exfalso
      have refused : q.appendHeaderS key value = .error (.fatal .headerTooBig) := by
        rw [appendHeaderS, pushed]
        exact if_pos tooBig
      exact Bool.noConfusion (allowed _ refused)
    · have inside : q.headLen + ((headerLine key value).bytes ++ [0]).length ≤ httpHeaderMax := by
        rw [List.length_append, List.length_singleton]
        omega
      obtain ⟨copied, same⟩ := q.memcpy_inside inside
      refine ⟨copied, lines, same, HeaderLines.offsets_of_push? pushed, ?_⟩
      rw [appendHeaderS, pushed]
      dsimp only
      rw [if_neg tooBig, same]
      rfl

theorem starts_append (h : HeaderList) (header : Header) :
    HeaderList.starts { h with headers := h.headers ++ [header] } =
      h.starts ++ [h.text.length] := by
  rw [HeaderList.starts, List.map_append, offsets_append, HeaderList.text, List.length_append]
  rfl

theorem Represents.appendHeaderS_iff (represents : q.Represents h) (header : Header)
    (allowed : Allowed (q.appendHeaderS header.key.bytes header.value.bytes)) :
    (∃ next, q.appendHeaderS header.key.bytes header.value.bytes = .ok next ∧
          next.Represents { h with headers := h.headers ++ [header] }) ↔
      header.line.length < httpPerHeaderMax := by
  obtain ⟨segment, headLen⟩ := represents.segment
  have newLine := bytes_headerLine header
  obtain ⟨copied, lines, same, listed, appended⟩ := appendHeaderS_copies allowed
  constructor
  · intro result
    obtain ⟨next, taken, next⟩ := result
    obtain rfl := Except.ok.inj (appended.symm.trans taken)
    have length := next.segment.2
    rw [text_append, List.length_append] at length
    dsimp only at length
    rw [headLen, newLine, List.length_take, Nat.add_left_cancel_iff] at length
    have positive : 0 < httpPerHeaderMax := by decide
    omega
  · intro fits
    rw [List.take_of_length_le (Nat.le_sub_one_of_lt fits)] at newLine
    refine ⟨_, appended, ?_⟩
    obtain ⟨added, kept, _, _⟩ := segment_of_memcpy same
    rw [newLine] at added
    have before := kept 0 h.text (segmentAt_append.mp segment).1 (.inl (by omega))
    apply represents_of_segment
    · rw [text_append, List.append_assoc]
      refine segmentAt_append.mpr ⟨before, ?_⟩
      rwa [Nat.zero_add, ← headLen]
    · rw [text_append, List.length_append, headLen, newLine]
    · rw [starts_append, ← headLen]
      dsimp only
      rw [listed]
      rcases represents.lines with lines | lines
      · left
        rw [lines]
      · right
        rw [lines, List.cons_append]

/-! ## Setting the code -/

theorem strchrnul_found {c : UInt8} (noNul : 0 ∉ text) (before : c ∉ text) (rest : List UInt8) :
    strchrnul c (text ++ c :: rest) = .ok text.length := by
  induction text with
  | nil => exact if_pos (.inl rfl)
  | cons byte text ih =>
    rw [List.mem_cons, not_or] at noNul before
    have other : ¬ (byte = c ∨ byte = 0) := by
      rintro (rfl | rfl)
      · exact before.1 rfl
      · exact noNul.1 rfl
    rw [List.cons_append, strchrnul, if_neg other, ih noNul.2 before.2]
    rfl

theorem bytes_httpCode (code : LineText) : (httpCode code.bytes).bytes =
      (LineText.httpVersion.append code).line.take (httpCodeSize - 1) := by
  have withCode : 0 ∉ ascii "HTTP/1.0 " ++ code.bytes := (LineText.httpVersion.append code).noNul
  rw [httpCode, CString.strlcat_strlcpy (by decide), CString.strlcat_strlcpy withCode]
  exact congrArg (List.take _) (cString_of_noNul (LineText.httpVersion.append code).line_noNul)

theorem Represents.statusLine (represents : q.Represents h) :
    strchrnul lineFeed q.head.bytes = .ok (h.status.bytes.length + 1) := by
  obtain ⟨rest, whole⟩ := represents.segment.1.drop_eq
  have split : q.head.bytes = (h.status.bytes ++ [carriageReturn]) ++ lineFeed ::
          (HeaderList.headerText h.headers ++ [0] ++ rest) := by
    rw [List.drop_zero] at whole
    rw [whole, HeaderList.text, LineText.line]
    simp
  have noNul : 0 ∉ h.status.bytes ++ [carriageReturn] := by
    rw [List.mem_append]
    exact not_or_intro h.status.noNul (by decide)
  have noLineFeed : lineFeed ∉ h.status.bytes ++ [carriageReturn] := by
    rw [List.mem_append]
    exact not_or_intro h.status.noLineFeed (by decide)
  rw [split, strchrnul_found noNul noLineFeed, List.length_append, List.length_singleton]

theorem Represents.behindStatus (represents : q.Represents h) :
    sizeT ((q.headLen : Int) - (h.status.bytes.length + 1 + 1 : Nat)) =
      (HeaderList.headerText h.headers).length := by
  obtain ⟨segment, headLen⟩ := represents.segment
  have inside := segment.inside
  have small : httpHeaderMax = 1024 := rfl
  rw [q.head.full, small, List.length_append, ← headLen] at inside
  rw [HeaderList.text, List.length_append, LineText.length_line] at headLen
  rw [sizeT]
  omega

theorem headLen_of_setCode {code : List UInt8} (taken : q.setCode code = .ok next) :
    next.headLen = q.headLen := by
  obtain ⟨cEnd, _, taken⟩ := bind_eq_ok.mp taken
  dsimp only at taken
  split at taken
  · cases taken
  · obtain ⟨moved, isMoved, taken⟩ := bind_eq_ok.mp taken
    obtain ⟨copied, isCopied, taken⟩ := bind_eq_ok.mp taken
    rw [(updateHeaderLinesIf_keeps taken).2,
      (segment_of_memcpy isCopied).2.2.1, headLen_of_memmoveIf isMoved]

theorem Represents.setCode_eq (represents : q.Represents h) {code : List UInt8}
    (allowed : Allowed (q.setCode code)) :
    q.setCode code = (do
        let moved ← q.memmoveIf ((httpCode code).bytes.length ≠ h.status.line.length ∧
            (HeaderList.headerText h.headers).length > 0)
          (httpCode code).bytes.length h.status.line.length
          (HeaderList.headerText h.headers).length
        let copied ← moved.memcpy 0 (httpCode code).bytes
        copied.updateHeaderLinesIf ((httpCode code).bytes.length ≠ h.status.line.length)) := by
  have started : q.setCode code =
        if sizeT ((q.headLen : Int) - (h.status.bytes.length + 1 + 1 : Nat) +
            (httpCode code).bytes.length) ≥ httpHeaderMax - 2 then
          .error (.fatal .setCodeTooBig)
        else (do
          let rest := sizeT ((q.headLen : Int) - (h.status.bytes.length + 1 + 1 : Nat))
          let moved ← q.memmoveIf
            ((httpCode code).bytes.length ≠ h.status.bytes.length + 1 + 1 ∧ rest > 0)
            (httpCode code).bytes.length (h.status.bytes.length + 1 + 1) rest
          let copied ← moved.memcpy 0 (httpCode code).bytes
          copied.updateHeaderLinesIf
            ((httpCode code).bytes.length ≠ h.status.bytes.length + 1 + 1)) := by
    rw [setCode, represents.statusLine]
    rfl
  split at started
  case isTrue => exact Bool.noConfusion (allowed _ started)
  case isFalse => rw [started, represents.behindStatus, LineText.length_line]

theorem Represents.moveRest (represents : q.Represents h) {newLen : Nat}
    (shorter : newLen ≤ h.status.line.length) :
    ∃ moved, q.memmoveIf
          (newLen ≠ h.status.line.length ∧ (HeaderList.headerText h.headers).length > 0)
          newLen h.status.line.length
          (HeaderList.headerText h.headers).length = .ok moved ∧
        moved.headLen = q.headLen ∧ moved.headLine = q.headLine ∧ SegmentAt moved.head.bytes newLen
              (HeaderList.headerText h.headers ++ (h.status.line.drop newLen ++
                  HeaderList.headerText h.headers ++ [0]).drop
                    (HeaderList.headerText h.headers).length) := by
  obtain ⟨segment, headLen⟩ := represents.segment
  have inside := segment.inside
  rw [q.head.full, List.length_append, List.length_singleton,
    HeaderList.text, List.length_append] at inside
  have parts := segment
  rw [HeaderList.text, List.append_assoc, segmentAt_append, Nat.zero_add, segmentAt_append] at parts
  have within : newLen ≤ (h.text ++ [0]).length := by
    rw [HeaderList.text, List.length_append, List.length_append]
    omega
  have behind := segment.drop within
  rw [HeaderList.text, Nat.zero_add, List.append_assoc,
    List.drop_append_of_le_length shorter, ← List.append_assoc] at behind
  unfold memmoveIf
  split
  case isTrue moves =>
    have fits : newLen + (HeaderList.headerText h.headers).length ≤ httpHeaderMax := by omega
    obtain ⟨moved, copied⟩ := q.memcpy_inside fits
    obtain ⟨there, kept, sameLen, sameLine⟩ := segment_of_memcpy copied
    refine ⟨moved, ?_, sameLen, sameLine, segmentAt_append.mpr ⟨there, ?_⟩⟩
    · rw [memmove_eq_memcpy parts.2.1, copied]
    · apply kept _ _ _ (.inr le_rfl)
      apply behind.drop
      rw [List.length_append, List.length_append]
      omega
  case isFalse stays =>
    refine ⟨q, rfl, rfl, rfl, ?_⟩
    rw [not_and_or, ne_eq, not_not] at stays
    rcases stays with same | none
    · subst same
      rw [List.drop_length, List.nil_append] at behind ⊢
      rwa [List.drop_left]
    · have empty : HeaderList.headerText h.headers = [] :=
        List.eq_nil_of_length_eq_zero (Nat.eq_zero_of_not_pos none)
      rw [empty] at behind ⊢
      exact behind

theorem length_httpCode {code : LineText} {old : List UInt8}
    (sameLength : (LineText.httpVersion.append code).line.length = old.length) :
    (httpCode code.bytes).bytes.length ≤ old.length ∧ old.drop (httpCode code.bytes).bytes.length =
        old.drop (httpCodeSize - 1) := by
  rw [bytes_httpCode, List.length_take, sameLength]
  refine ⟨Nat.min_le_right _ _, ?_⟩
  by_cases long : httpCodeSize - 1 ≤ old.length
  · rw [Nat.min_eq_left long]
  · have short := Nat.le_of_not_le long
    rw [Nat.min_eq_right short, List.drop_length, List.drop_eq_nil_of_le short]

theorem Represents.setCode_segment (represents : q.Represents h) {code : LineText}
    (sameLength : (LineText.httpVersion.append code).line.length = h.status.line.length)
    (allowed : Allowed (q.setCode code.bytes)) : let rest := HeaderList.headerText h.headers
    ∃ copied : HeaderBlock, q.setCode code.bytes = copied.updateHeaderLinesIf
            ((httpCode code.bytes).bytes.length ≠ h.status.line.length) ∧
        copied.headLen = q.headLen ∧ copied.headLine = q.headLine ∧ SegmentAt copied.head.bytes 0
              ((LineText.httpVersion.append code).line.take (httpCodeSize - 1) ++
                (rest ++ (h.status.line.drop (httpCodeSize - 1) ++ rest).drop rest.length) ++
                [0]) := by
  intro rest
  obtain ⟨shorter, tail⟩ := length_httpCode sameLength
  obtain ⟨moved, isMoved, movedLen, movedLine, behind⟩ := represents.moveRest shorter
  have inside := behind.inside
  rw [moved.head.full] at inside
  have fits : 0 + (httpCode code.bytes).bytes.length ≤ httpHeaderMax := by omega
  obtain ⟨copied, isCopied⟩ := moved.memcpy_inside fits
  obtain ⟨there, kept, copiedLen, copiedLine⟩ := segment_of_memcpy isCopied
  refine ⟨copied, ?_, copiedLen.trans movedLen, copiedLine.trans movedLine, ?_⟩
  · rw [represents.setCode_eq allowed, isMoved]
    dsimp only [bind, Except.bind]
    rw [isCopied]
  · have later := kept _ _ behind (.inr (Nat.zero_add _).le)
    rw [tail, List.drop_append_of_le_length (by
      rw [List.length_append]
      exact Nat.le_add_left _ _), ← List.append_assoc] at later
    rw [← bytes_httpCode, List.append_assoc, segmentAt_append, Nat.zero_add]
    exact ⟨there, later⟩

theorem Represents.setCode_iff (represents : q.Represents h) (code : LineText)
    (allowed : Allowed (q.setCode code.bytes)) :
    (∃ next, q.setCode code.bytes = .ok next ∧ next.Represents (h.call (.setCode code))) ↔
      h.Meets (.setCode code) := by
  obtain ⟨_, headLen⟩ := represents.segment
  have split := List.take_append_drop (httpCodeSize - 1) (LineText.httpVersion.append code).line
  constructor
  · intro result
    obtain ⟨next, taken, next⟩ := result
    have sameLength : (LineText.httpVersion.append code).line.length = h.status.line.length := by
      have length := next.segment.2
      rw [headLen_of_setCode taken, headLen, HeaderList.text, HeaderList.text,
        List.length_append, List.length_append] at length
      exact Nat.add_right_cancel length.symm
    refine ⟨sameLength, ?_⟩
    obtain ⟨copied, same, _, _, segment⟩ := represents.setCode_segment sameLength allowed
    rw [same] at taken
    rw [← (updateHeaderLinesIf_keeps taken).1] at segment
    have sameText := next.text_eq segment (by
      have newNoNul := (LineText.httpVersion.append code).line_noNul
      have oldNoNul := h.status.line_noNul
      have restNoNul := HeaderList.headerText_noNul h.headers
      simp only [List.mem_append, not_or]
      refine ⟨fun member => newNoNul (List.mem_of_mem_take member), restNoNul, fun member => ?_⟩
      rcases List.mem_append.mp (List.mem_of_mem_drop member) with old | rest
      · exact oldNoNul (List.mem_of_mem_drop old)
      · exact restNoNul rest)
    apply List.append_cancel_left (sameText.trans ?_)
    rw [← List.append_assoc, split]
    rfl
  · intro meets
    obtain ⟨sameLength, sameTail⟩ := meets
    obtain ⟨copied, same, copiedLen, copiedLine, segment⟩ :=
      represents.setCode_segment sameLength allowed
    rw [sameTail, ← List.append_assoc (List.take _ _), split] at segment
    have length : copied.headLen = (h.call (.setCode code)).text.length := by
      rw [copiedLen, headLen, HeaderList.text, HeaderList.text,
        List.length_append, List.length_append]
      exact congrArg (· + _) sameLength.symm
    rw [same, updateHeaderLinesIf]
    split
    · exact updateHeaderLines_represents segment length represents.few
    · refine ⟨copied, rfl, represents_of_segment segment length ?_⟩
      have starts : (h.call (.setCode code)).starts = h.starts := by
        rw [HeaderList.starts, HeaderList.starts]
        exact congrArg (offsets · _) sameLength
      rw [copiedLine, starts]
      dsimp only [HeaderList.call]
      rw [sameLength]
      exact represents.lines

/-! ## Editing a header -/

theorem strchr_found {c : UInt8} (noNul : 0 ∉ text) (before : c ∉ text) (rest : List UInt8) :
    strchr c (text ++ c :: rest) = .ok (some text.length) := by
  have there : (text ++ c :: rest)[text.length]? = some c := by
    rw [List.getElem?_append_right le_rfl, Nat.sub_self]
    rfl
  rw [strchr, strchrnul_found noNul before]
  dsimp only [bind, Except.bind]
  rw [if_pos there]
  rfl

/--
Behind some text the head has the line of a header, of which the value is the
text behind the first colon and a blank, and then some more.
-/
structure ValueAt (q : HeaderBlock) (lead before old after : List UInt8) : Prop where
  segment : SegmentAt q.head.bytes 0 (lead ++ before ++ separator ++ old ++ (crlf ++ after ++ [0]))
  headLen : q.headLen = (lead ++ before ++ separator ++ old ++ crlf ++ after).length
  noNul : 0 ∉ before ∧ 0 ∉ old
  noColon : colon ∉ before
  noReturn : carriageReturn ∉ old

section

variable {lead before old after value : List UInt8}

theorem ValueAt.headerEnds (valueAt : q.ValueAt lead before old after) : q.headerEnds lead.length =
      .ok (lead.length + before.length, lead.length + before.length + 1 + (old.length + 1)) := by
  obtain ⟨rest, whole⟩ := valueAt.segment.drop_eq
  rw [List.drop_zero] at whole
  have fromLine : q.head.bytes.drop lead.length = before ++ colon ::
          (blank :: old ++ carriageReturn :: (lineFeed :: after ++ [0] ++ rest)) := by
    rw [whole]
    simp
  have fromBlank : q.head.bytes.drop (lead.length + before.length + 1) =
        blank :: old ++ carriageReturn :: (lineFeed :: after ++ [0] ++ rest) := by
    rw [Nat.add_assoc, ← List.drop_drop, fromLine, ← List.drop_drop, List.drop_left]
    rfl
  have isBlank : q.head.bytes[lead.length + before.length + 1]? = some blank := by
    rw [← List.head?_drop, fromBlank]
    rfl
  have noNul : 0 ∉ blank :: old := by
    rw [List.mem_cons]
    exact not_or_intro (by decide) valueAt.noNul.2
  have noReturn : carriageReturn ∉ blank :: old := by
    rw [List.mem_cons]
    exact not_or_intro (by decide) valueAt.noReturn
  rw [HeaderBlock.headerEnds, fromLine, strchr_found valueAt.noNul.1 valueAt.noColon]
  dsimp only [bind, Except.bind]
  rw [if_pos isBlank, fromBlank, strchr_found noNul noReturn]
  rfl

theorem headerEnds_bad {next : UInt8}
    (segment : SegmentAt q.head.bytes lead.length (before ++ [colon, next])) (noNul : 0 ∉ before)
    (noColon : colon ∉ before) (notBlank : next ≠ blank) :
    q.headerEnds lead.length = .error (.fatal .badHeader) := by
  obtain ⟨rest, whole⟩ := segment.drop_eq
  have fromLine : q.head.bytes.drop lead.length = before ++ colon :: (next :: rest) := by
    rw [whole]
    simp
  have isNext : q.head.bytes[lead.length + before.length + 1]? = some next := by
    rw [Nat.add_assoc, ← List.getElem?_drop, fromLine,
      List.getElem?_append_right (Nat.le_add_right _ _),
      Nat.add_sub_cancel_left]
    rfl
  rw [headerEnds, fromLine, strchr_found noNul noColon]
  dsimp only [bind, Except.bind]
  rw [isNext, if_neg fun same => notBlank (Option.some.inj same)]

theorem memmoveIf_congr {moves others : Prop} [Decidable moves] [Decidable others]
    (same : moves ↔ others) (dst src count : Nat) :
    q.memmoveIf moves dst src count = q.memmoveIf others dst src count := by
  unfold memmoveIf
  by_cases taken : others
  · rw [if_pos taken, if_pos (same.mpr taken)]
  · rw [if_neg taken, if_neg fun moves => taken (same.mp moves)]

theorem ValueAt.behind (valueAt : q.ValueAt lead before old after) :
    q.headLen = lead.length + before.length + 2 + old.length + 2 + after.length ∧
      lead.length + before.length + 2 + old.length + 3 + after.length ≤ httpHeaderMax := by
  have headLen := valueAt.headLen
  have inside := valueAt.segment.inside
  rw [q.head.full] at inside
  simp only [List.length_append, List.length_cons, List.length_nil] at *
  omega

theorem ValueAt.editHeader_eq (valueAt : q.ValueAt lead before old after)
    (allowed : Allowed (q.editHeader lead.length value)) :
    q.editHeader lead.length value = (do
        let start := lead.length + before.length + 2
        let moved ← q.memmoveIf (value.length ≠ old.length + 2)
          (start + value.length) (start + old.length) (after.length + 3)
        let copied ← moved.memcpy start value
        let ended ← copied.memcpy (start + value.length) [carriageReturn]
        let ended ← ended.memcpy (start + value.length + 1) [lineFeed]
        ended.updateHeaderLinesIf (value.length ≠ old.length + 2)) := by
  obtain ⟨headLen, inside⟩ := valueAt.behind
  have small : httpHeaderMax = 1024 := rfl
  have oldLen : lead.length + before.length + 1 + (old.length + 1) -
          (lead.length + before.length + 1) + 1 = old.length + 2 := by
    omega
  have valueEnd : lead.length + before.length + 1 + 1 + (old.length + 2) - 2 =
        lead.length + before.length + 2 + old.length := by
    omega
  have toReturn : lead.length + before.length + 1 + value.length + 1 =
        lead.length + before.length + 2 + value.length := by
    omega
  have toFeed : lead.length + before.length + 1 + value.length + 2 =
        lead.length + before.length + 2 + value.length + 1 := by
    omega
  have count : sizeT ((q.headLen : Int) -
          (lead.length + before.length + 2 + old.length : Nat) + 1) =
        after.length + 3 := by
    rw [sizeT]
    omega
  have positive : sizeT ((q.headLen : Int) - (old.length + 2 : Nat)) > 0 := by
    rw [sizeT]
    omega
  have moves : (value.length ≠ old.length + 2 ∧
          sizeT ((q.headLen : Int) - (old.length + 2 : Nat)) > 0) ↔
        value.length ≠ old.length + 2 :=
    and_iff_left positive
  unfold editHeader at allowed ⊢
  rw [valueAt.headerEnds] at allowed ⊢
  dsimp only [bind, Except.bind] at allowed ⊢
  rw [oldLen] at allowed ⊢
  split
  case isTrue tooBig => exact Bool.noConfusion (allowed .tooBig (if_pos tooBig))
  case isFalse => rw [valueEnd, count, memmoveIf_congr moves, toReturn, toFeed]

theorem segment_of_line {m copied returned ended : HeaderBlock} {start : Nat}
    (isCopied : m.memcpy start value = .ok copied)
    (isReturned : copied.memcpy (start + value.length) [carriageReturn] = .ok returned)
    (isEnded : returned.memcpy (start + value.length + 1) [lineFeed] = .ok ended) :
    SegmentAt ended.head.bytes start (value ++ crlf) ∧ (∀ place part,
        SegmentAt m.head.bytes place part →
        place + part.length ≤ start ∨ start + value.length + 2 ≤ place →
        SegmentAt ended.head.bytes place part) ∧
      ended.headLen = m.headLen ∧ ended.headLine = m.headLine := by
  obtain ⟨first, keepsFirst, firstLen, firstLine⟩ := segment_of_memcpy isCopied
  obtain ⟨second, keepsSecond, secondLen, secondLine⟩ := segment_of_memcpy isReturned
  obtain ⟨third, keepsThird, thirdLen, thirdLine⟩ := segment_of_memcpy isEnded
  refine ⟨?_, ?_, ?_, ?_⟩
  · have returned := segmentAt_append.mpr ⟨keepsSecond _ _ first (.inl le_rfl), second⟩
    have place : start + (value ++ [carriageReturn]).length = start + value.length + 1 := by
      rw [List.length_append]
      rfl
    have all := segmentAt_append.mpr ⟨keepsThird _ _ returned (.inl place.le), place ▸ third⟩
    rwa [List.append_assoc] at all
  · intro place part segment beside
    apply keepsThird _ _ _ (by
      rw [List.length_singleton]
      omega)
    apply keepsSecond _ _ _ (by
      rw [List.length_singleton]
      omega)
    exact keepsFirst _ _ segment (by omega)
  · rw [thirdLen, secondLen, firstLen]
  · rw [thirdLine, secondLine, firstLine]

theorem ValueAt.moveRest (valueAt : q.ValueAt lead before old after) {count : Nat}
    {moved : HeaderBlock} (isMoved : q.memmoveIf (value.length ≠ old.length + 2)
          (count + value.length) (count + old.length) (after.length + 3) =
        .ok moved) (start : count = lead.length + before.length + 2) :
    SegmentAt moved.head.bytes 0 (lead ++ before ++ separator) ∧ (value.length ≠ old.length + 2 →
        SegmentAt moved.head.bytes (count + value.length) (crlf ++ after ++ [0])) := by
  have parts := valueAt.segment
  rw [segmentAt_append, segmentAt_append] at parts
  obtain ⟨⟨isLead, _⟩, behind⟩ := parts
  have length : (lead ++ before ++ separator).length = count := by
    rw [start, List.length_append, List.length_append]
    rfl
  rw [List.length_append, length, Nat.zero_add] at behind
  have behindLength : (crlf ++ after ++ [0]).length = after.length + 3 := by simp
  unfold memmoveIf at isMoved
  split at isMoved
  case isTrue changes =>
    rw [← behindLength, memmove_eq_memcpy behind] at isMoved
    obtain ⟨there, kept, _, _⟩ := segment_of_memcpy isMoved
    refine ⟨kept _ _ isLead (.inl ?_), fun _ => there⟩
    rw [length]
    omega
  case isFalse stays =>
    rw [← Except.ok.inj isMoved]
    exact ⟨isLead, fun changes => absurd changes stays⟩

theorem ValueAt.ended_segment (valueAt : q.ValueAt lead before old after) {start : Nat}
    {moved copied returned ended : HeaderBlock}
    (isMoved : q.memmoveIf (value.length ≠ old.length + 2)
          (start + value.length) (start + old.length) (after.length + 3) =
        .ok moved) (isCopied : moved.memcpy start value = .ok copied)
    (isReturned : copied.memcpy (start + value.length) [carriageReturn] = .ok returned)
    (isEnded : returned.memcpy (start + value.length + 1) [lineFeed] = .ok ended)
    (isStart : start = lead.length + before.length + 2) :
    ended.headLen = q.headLen ∧ SegmentAt ended.head.bytes 0
        (lead ++ before ++ separator ++ (value ++ crlf)) ∧
        (value.length ≠ old.length + 2 → SegmentAt ended.head.bytes 0
            (lead ++ before ++ separator ++ (value ++ crlf) ++ (after ++ [0]))) := by
  obtain ⟨isLead, behind⟩ := valueAt.moveRest isMoved isStart
  obtain ⟨there, kept, endedLen, _⟩ := segment_of_line isCopied isReturned isEnded
  have length : (lead ++ before ++ separator).length = start := by
    rw [isStart, List.length_append, List.length_append]
    rfl
  have front := kept _ _ isLead (.inl (by rw [Nat.zero_add, length]))
  have whole : SegmentAt ended.head.bytes 0 (lead ++ before ++ separator ++ (value ++ crlf)) := by
    refine segmentAt_append.mpr ⟨front, ?_⟩
    rwa [Nat.zero_add, length]
  refine ⟨?_, whole, fun changes => segmentAt_append.mpr ⟨whole, ?_⟩⟩
  · rw [endedLen, headLen_of_memmoveIf isMoved]
  · have rest := behind changes
    rw [List.append_assoc, segmentAt_append] at rest
    have place : 0 + (lead ++ before ++ separator ++ (value ++ crlf)).length =
          start + value.length + crlf.length := by
      rw [List.length_append, length, List.length_append]
      omega
    rw [place]
    exact kept _ _ rest.2 (.inr le_rfl)

theorem ValueAt.editHeader_segment (valueAt : q.ValueAt lead before old after)
    (allowed : Allowed (q.editHeader lead.length value))
    (taken : q.editHeader lead.length value = .ok next) :
    next.headLen = q.headLen ∧ SegmentAt next.head.bytes 0
        (lead ++ before ++ separator ++ (value ++ crlf)) ∧
        (value.length ≠ old.length + 2 → SegmentAt next.head.bytes 0
            (lead ++ before ++ separator ++ (value ++ crlf) ++ (after ++ [0]))) := by
  rw [valueAt.editHeader_eq allowed] at taken
  obtain ⟨moved, isMoved, taken⟩ := bind_eq_ok.mp taken
  obtain ⟨copied, isCopied, taken⟩ := bind_eq_ok.mp taken
  obtain ⟨returned, isReturned, taken⟩ := bind_eq_ok.mp taken
  obtain ⟨ended, isEnded, taken⟩ := bind_eq_ok.mp taken
  obtain ⟨sameHead, sameLen⟩ := updateHeaderLinesIf_keeps taken
  rw [sameHead, sameLen]
  exact valueAt.ended_segment isMoved isCopied isReturned isEnded rfl

theorem ValueAt.editHeader_sameLength (valueAt : q.ValueAt lead before old after)
    (allowed : Allowed (q.editHeader lead.length value)) (sameLength : value.length = old.length) :
    ∃ ended : HeaderBlock, q.editHeader lead.length value = ended.updateHeaderLines ∧
        ended.headLen = q.headLen ∧ SegmentAt ended.head.bytes 0
            (lead ++ before ++ separator ++ (value ++ crlf) ++ (after ++ [0])) := by
  obtain ⟨_, inside⟩ := valueAt.behind
  have changes : value.length ≠ old.length + 2 := by omega
  have behind := (segmentAt_append.mp valueAt.segment).2
  have length : 0 + (lead ++ before ++ separator ++ old).length =
        lead.length + before.length + 2 + old.length := by
    simp only [List.length_append, List.length_cons, List.length_nil]
    omega
  have behindLength : (crlf ++ after ++ [0]).length = after.length + 3 := by simp
  rw [length] at behind
  have fits : lead.length + before.length + 2 + value.length +
          (crlf ++ after ++ [0]).length ≤ httpHeaderMax := by
    omega
  obtain ⟨moved, isMoved⟩ := q.memcpy_inside fits
  rw [← memmove_eq_memcpy behind, behindLength] at isMoved
  have isMoved : q.memmoveIf (value.length ≠ old.length + 2)
          (lead.length + before.length + 2 + value.length)
          (lead.length + before.length + 2 + old.length)
          (after.length + 3) = .ok moved :=
    (if_pos changes).trans isMoved
  obtain ⟨copied, isCopied⟩ :=
    moved.memcpy_inside (show lead.length + before.length + 2 + value.length ≤ httpHeaderMax by
        omega)
  obtain ⟨returned, isReturned⟩ :=
    copied.memcpy_inside (show lead.length + before.length + 2 + value.length +
          [carriageReturn].length ≤ httpHeaderMax by
        rw [List.length_singleton]
        omega)
  obtain ⟨ended, isEnded⟩ :=
    returned.memcpy_inside (show lead.length + before.length + 2 + value.length + 1 +
          [lineFeed].length ≤ httpHeaderMax by
        rw [List.length_singleton]
        omega)
  obtain ⟨headLen, _, segment⟩ := valueAt.ended_segment isMoved isCopied isReturned isEnded rfl
  refine ⟨ended, ?_, headLen, segment changes⟩
  rw [valueAt.editHeader_eq allowed]
  dsimp only [bind, Except.bind]
  rw [isMoved]
  dsimp only
  rw [isCopied]
  dsimp only
  rw [isReturned]
  dsimp only
  rw [isEnded]
  exact if_pos changes

end

end HeaderBlock

end Agar.Web
