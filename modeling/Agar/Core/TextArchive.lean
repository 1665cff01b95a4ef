import Agar.Core.Text
import Agar.Core.StringRecord

namespace Agar.Core

open Agar.Lib

/-!
# Archives of internationalised text

Whether `AG_TextLoad` gives the texts that `AG_TextSave` wrote.  The count of
languages is checked as if it were the code of one, so that a text in every
language is refused; and a string that is read in debug mode is not the one
that was written.
-/

namespace AgText

/-- The languages that have a text, with the text. -/
def entriesAmong (txt : AgText) (languages : List Language) : List (Language × List UInt8) :=
  languages.filterMap fun lang => (txt.text lang).map fun s => (lang, s)

/-- All languages that have a text, with the text. -/
def entries (txt : AgText) : List (Language × List UInt8) :=
  txt.entriesAmong (List.finRange langLast)

/-- Set the texts of some languages. -/
def fill (txt : AgText) (entries : List (Language × List UInt8)) : AgText :=
  entries.foldl (fun txt entry => txt.setEnt entry.1 (.ofString entry.2)) txt

end AgText

/-- The record of the text of a language. -/
def DataSource.entryRecord (ds : DataSource) (entry : Language × List UInt8) : List UInt8 :=
  (ds.typeCode sourceUint32 ++ ds.byteOrder.encode 4 entry.1) ++ ds.stringRecord entry.2

/-- The record of the flags. -/
def DataSource.flagsRecord (ds : DataSource) (flags : UInt32) : List UInt8 :=
  ds.typeCode sourceUint32 ++ ds.byteOrder.encode 4 flags.toNat

/-- The record of a text. -/
def DataSource.textRecord (ds : DataSource) (txt : AgText) : List UInt8 :=
  (ds.typeCode sourceUint8 ++ [UInt8.ofNat txt.count]) ++ (txt.entries.flatMap ds.entryRecord ++
      ds.flagsRecord (txt.flags &&& textSavedFlags))

/-! ## Entries -/

section

variable {txt : AgText}

variable {lang : Language} {s : List UInt8}

theorem AgText.mem_entries : (lang, s) ∈ txt.entries ↔ txt.text lang = some s := by
  simp only [entries, entriesAmong, List.mem_filterMap, List.mem_finRange,
    true_and, Option.map_eq_some_iff, Prod.mk.injEq]
  constructor
  · rintro ⟨_, _, text, rfl, rfl⟩
    exact text
  · intro text
    exact ⟨lang, s, text, rfl, rfl⟩

theorem AgText.length_entries : txt.entries.length = txt.count := by
  rw [entries, entriesAmong, count, List.length_filterMap_eq_countP]
  apply List.countP_congr
  intro lang _
  rw [Option.isSome_map, text, TextEnt.text, Option.isSome_map]

theorem AgText.nodup_entries : (txt.entries.map Prod.fst).Nodup := by
  have languages (list : List Language) : ((txt.entriesAmong list).map Prod.fst).Sublist list := by
    induction list with
    | nil => exact .slnil
    | cons lang rest ih =>
      rw [entriesAmong, List.filterMap_cons]
      cases txt.text lang with
      | none => exact ih.cons lang
      | some s => exact ih.cons_cons lang
  exact (List.nodup_finRange langLast).sublist (languages _)

theorem AgText.text_fill_other {entries : List (Language × List UInt8)}
    (absent : lang ∉ entries.map Prod.fst) : (txt.fill entries).text lang = txt.text lang := by
  induction entries generalizing txt with
  | nil => rfl
  | cons first rest ih =>
    rw [List.map_cons, List.mem_cons, not_or] at absent
    exact (ih absent.2).trans (text_setEnt_other txt absent.1 _)

theorem AgText.text_fill {entries : List (Language × List UInt8)}
    (once : (entries.map Prod.fst).Nodup) (noNul : 0 ∉ s) (member : (lang, s) ∈ entries) :
    (txt.fill entries).text lang = some s := by
  induction entries generalizing txt with
  | nil => cases member
  | cons first rest ih =>
    rw [List.map_cons, List.nodup_cons] at once
    rcases List.mem_cons.mp member with rfl | later
    · refine (text_fill_other once.1).trans ?_
      rw [text, setEnt_self]
      exact congrArg some (cString_terminated noNul [])
    · exact ih once.2 later

theorem AgText.text_noNul (text : txt.text lang = some s) : 0 ∉ s := by
  obtain ⟨buf, _, rfl⟩ := Option.map_eq_some_iff.mp text
  exact cString_noNul buf

theorem AgText.text_fill_entries {old : AgText} (lang : Language) :
    (old.clear.fill txt.entries).text lang = txt.text lang := by
  cases present : txt.text lang with
  | none =>
    have absent : lang ∉ txt.entries.map Prod.fst := by
      intro member
      obtain ⟨⟨_, s⟩, listed, rfl⟩ := List.mem_map.mp member
      rw [mem_entries.mp listed] at present
      cases present
    rw [text_fill_other absent]
    rfl
  | some s => exact text_fill nodup_entries (text_noNul present) (mem_entries.mpr present)

end

/-! ## Saving -/

namespace DataSource

variable {ds after : DataSource}

theorem SameSettings.entryRecord (same : ds.SameSettings after) :
    after.entryRecord = ds.entryRecord := by
  funext entry
  rw [DataSource.entryRecord, DataSource.entryRecord, stringRecord,
    stringRecord, same.typeCode, same.typeCode, same.byteOrder]

theorem SameSettings.flagsRecord (same : ds.SameSettings after) :
    after.flagsRecord = ds.flagsRecord := by
  funext flags
  rw [DataSource.flagsRecord, DataSource.flagsRecord, same.typeCode, same.byteOrder]

theorem encode_ne_nil (order : ByteOrder) (value : Nat) : order.encode 4 value ≠ [] := by
  intro empty
  have length := congrArg List.length empty
  rw [ByteOrder.length_encode] at length
  cases length

variable {start : Nat}

theorem saveEntries_wrote {txt : AgText} {languages : List Language} {flags : UInt32}
    (writes : ds.backend.WritesAt start)
    (returned : (txt.saveEntries languages ds >>= fun ds => ds.writeUint32 flags) = .ok after) :
    ds.Wrote after start
      ((txt.entriesAmong languages).flatMap ds.entryRecord ++ ds.flagsRecord flags) := by
  induction languages generalizing ds start with
  | nil => exact writeScalar_wrote writes (encode_ne_nil _ _) returned
  | cons lang rest ih =>
    rw [AgText.saveEntries] at returned
    cases allocated : (txt.ent lang).buf with
    | none =>
      rw [allocated] at returned
      have absent : txt.text lang = none := by
        rw [AgText.text, TextEnt.text, allocated]
        rfl
      have later := ih writes returned
      rwa [AgText.entriesAmong, List.filterMap_cons, absent]
    | some buf =>
      rw [allocated] at returned
      have present : txt.text lang = some (cString buf) := by
        rw [AgText.text, TextEnt.text, allocated]
        rfl
      obtain ⟨saved, entered, finished⟩ := bind_eq_ok.mp returned
      obtain ⟨coded, code, behindCode⟩ := bind_eq_ok.mp entered
      obtain ⟨s, read, behindRead⟩ := bind_eq_ok.mp behindCode
      obtain ⟨stored, string, others⟩ := bind_eq_ok.mp behindRead
      obtain rfl : cString buf = s := by
        unfold stringIn at read
        split at read
        · exact Except.ok.inj read
        · cases read
      have first := writeScalar_wrote writes (encode_ne_nil _ _) code
      have second := writeString_wrote first.stored.writes string
      have settings : ds.SameSettings coded := first.toSameSettings
      have record : coded.stringRecord = ds.stringRecord := by
        funext s
        rw [stringRecord, stringRecord, settings.typeCode, settings.byteOrder]
      rw [record] at second
      have entry := first.trans second
      have later := ih entry.stored.writes (bind_eq_ok.mpr ⟨saved, others, finished⟩)
      rw [entry.toSameSettings.entryRecord, entry.toSameSettings.flagsRecord] at later
      have both := entry.trans later
      have langCode : (UInt32.ofNat lang.val).toNat = lang.val := by
        rw [UInt32.toNat_ofNat']
        exact Nat.mod_eq_of_lt (lang.isLt.trans (by decide))
      rw [langCode] at both
      rw [AgText.entriesAmong, List.filterMap_cons, present]
      rw [Option.map_some, List.flatMap_cons, List.append_assoc]
      exact both

theorem save_wrote {txt : AgText} (writes : ds.backend.WritesAt start)
    (returned : txt.save ds = .ok after) : ds.Wrote after start (ds.textRecord txt) := by
  obtain ⟨counted, count, rest⟩ := bind_eq_ok.mp returned
  have first := writeScalar_wrote writes (List.cons_ne_nil _ _) count
  have later := saveEntries_wrote first.stored.writes rest
  rw [first.toSameSettings.entryRecord, first.toSameSettings.flagsRecord] at later
  exact first.trans later

/-! ## Loading -/

theorem entryRecord_segment {entry : Language × List UInt8} {rest : List UInt8}
    (segment : ds.backend.Segment start (ds.entryRecord entry ++ rest)) (cursor : ds.tell = start) :
    ∃ next, ds.readUint32 = .ok (UInt32.ofNat entry.1, next) ∧
        (UInt32.ofNat entry.1.val).toNat = entry.1 ∧
        ds.Consumed next (ds.typeCode sourceUint32 ++ ds.byteOrder.encode 4 entry.1).length ∧
        next.backend.Segment (start + (ds.typeCode sourceUint32 ++
          ds.byteOrder.encode 4 entry.1).length)
          (next.stringRecord entry.2 ++ rest) ∧
        next.tell = (start + (ds.typeCode sourceUint32 ++
          ds.byteOrder.encode 4 entry.1).length : Nat) := by
  rw [entryRecord, List.append_assoc] at segment
  obtain ⟨code, string⟩ := Backend.segment_append.mp segment
  have small : entry.1.val < 256 ^ 4 := entry.1.isLt.trans (by decide)
  obtain ⟨next, read, consumed⟩ := readUint32_segment code small cursor
  have value : (UInt32.ofNat entry.1.val).toNat = entry.1 := by
    rw [UInt32.toNat_ofNat']
    exact Nat.mod_eq_of_lt (entry.1.isLt.trans (by decide))
  have record : next.stringRecord entry.2 = ds.stringRecord entry.2 := by
    rw [stringRecord, stringRecord, consumed.toSameSettings.typeCode, consumed.byteOrder]
  refine ⟨next, read, value, consumed, ?_, ?_⟩
  · rw [record]
    exact consumed.kept _ _ string trivial
  · rw [consumed.cursor, cursor, Nat.cast_add]

theorem length_entryRecord (entry : Language × List UInt8) : (ds.entryRecord entry).length =
      (ds.typeCode sourceUint32 ++ ds.byteOrder.encode 4 entry.1).length +
        (ds.stringRecord entry.2).length :=
  List.length_append

theorem loadEntries_segment {txt : AgText} {allocation : Allocation}
    {entries : List (Language × List UInt8)} {start : Nat} {rest : List UInt8}
    (segment : ds.backend.Segment start (entries.flatMap ds.entryRecord ++ rest))
    (plain : entries = [] ∨ ds.debug = false) (noNul : ∀ entry ∈ entries, 0 ∉ entry.2)
    (inLimit : ∀ entry ∈ entries, entry.2.length ≤ txt.maxLen % 2 ^ 32) (cursor : ds.tell = start) :
    ((∀ entry ∈ entries, allocation.grants (entry.2.length + 1) = true) → ∃ next,
          AgText.loadEntries allocation entries.length txt ds = .ok (0, txt.fill entries, next) ∧
            ds.Consumed next (entries.flatMap ds.entryRecord).length) ∧
      ∀ result, AgText.loadEntries allocation entries.length txt ds = .ok result →
          ∀ entry ∈ entries, allocation.grants (entry.2.length + 1) = true := by
  induction entries generalizing ds txt start with
  | nil =>
    refine ⟨fun _ => ⟨ds, rfl, .refl ds⟩, fun _ _ entry member => ?_⟩
    cases member
  | cons first others ih =>
    have plain : ds.debug = false := plain.resolve_left (List.cons_ne_nil first others)
    obtain ⟨firstNoNul, othersNoNul⟩ := List.forall_mem_cons.mp noNul
    obtain ⟨firstInLimit, othersInLimit⟩ := List.forall_mem_cons.mp inLimit
    rw [List.flatMap_cons, List.append_assoc] at segment
    obtain ⟨coded, code, value, consumed, behind, there⟩ := entryRecord_segment segment cursor
    have codedPlain : coded.debug = false := consumed.debug.trans plain
    obtain ⟨string, later⟩ := Backend.segment_append.mp behind
    have known : (UInt32.ofNat first.1.val).toNat < langLast := by
      rw [value]
      exact first.1.isLt
    have language : (⟨(UInt32.ofNat first.1.val).toNat, known⟩ : Language) = first.1 :=
      Fin.ext value
    have entered {buf : List UInt8} {next : DataSource}
        (read : coded.readStringLen allocation txt.maxLen = .ok (buf, next)) :
        AgText.loadEntries allocation (first :: others).length txt ds = (stringIn buf >>= fun s =>
            AgText.loadEntries allocation others.length (txt.setEnt first.1
                { buf := some buf, maxLen := s.length + 1, len := s.length })
              next) := by
      rw [List.length_cons, AgText.loadEntries]
      simp only [code, bind, Except.bind, dif_pos known, read, language]
    by_cases granted : allocation.grants (first.2.length + 1) = true
    · obtain ⟨next, read, taken⟩ :=
        readStringLen_segment string codedPlain firstInLimit granted there
      have terminated : stringIn (first.2 ++ [0]) = .ok first.2 := by
        rw [stringIn, if_pos (by simp)]
        exact congrArg _ (cString_terminated firstNoNul [])
      have settings : ds.SameSettings next :=
        ⟨taken.debug.trans consumed.debug, taken.byteOrder.trans consumed.byteOrder⟩
      have record : coded.stringRecord first.2 = ds.stringRecord first.2 := by
        rw [stringRecord, stringRecord, consumed.toSameSettings.typeCode, consumed.byteOrder]
      have whole : ds.Consumed next (ds.entryRecord first).length := by
        rw [length_entryRecord, ← record]
        exact consumed.trans taken
      have segmentLater := whole.kept _ _ (Backend.segment_append.mp segment).2 trivial
      have cursorLater : next.tell = (start + (ds.entryRecord first).length : Nat) := by
        rw [whole.cursor, cursor, Nat.cast_add]
      rw [← settings.entryRecord] at segmentLater cursorLater
      have shape := entered read
      simp only [terminated, bind, Except.bind] at shape
      obtain ⟨loads, grants⟩ :=
        @ih next (txt.setEnt first.1 (.ofString first.2)) _
          segmentLater (.inr (settings.debug.trans plain)) othersNoNul
          othersInLimit cursorLater
      refine ⟨fun allGranted => ?_, fun result loaded => ?_⟩
      · obtain ⟨after, loaded, consumedLater⟩ :=
          loads (List.forall_mem_cons.mp allGranted).2
        refine ⟨after, shape.trans loaded, ?_⟩
        rw [settings.entryRecord] at consumedLater
        rw [List.flatMap_cons, List.length_append]
        exact whole.trans consumedLater
      · exact List.forall_mem_cons.mpr ⟨granted, grants result (shape.symm.trans loaded)⟩
    · refine ⟨fun allGranted => ?_, fun result loaded => ?_⟩
      · exact absurd (List.forall_mem_cons.mp allGranted).1 granted
      · have refused :=
          readStringLen_segment_refused string codedPlain firstInLimit
            (by simpa using granted) there
        rw [List.length_cons, AgText.loadEntries] at loaded
        simp only [code, bind, Except.bind, dif_pos known, refused] at loaded
        cases loaded

theorem read_eq_drop {size : Nat} {bytes : List UInt8} (regular : ds.backend.Regular)
    (read : ds.read size = .ok (0, bytes, after)) :
    bytes = (ds.backend.contents.drop ds.tell.toNat).take bytes.length := by
  obtain ⟨⟨status, delivered, counted⟩, called, result⟩ := bind_eq_ok.mp read
  obtain ⟨⟨transfer, backend⟩, returned, counts⟩ := bind_eq_ok.mp called
  simp only [pure_eq_ok, Prod.mk.injEq] at counts result
  obtain ⟨rfl, rfl, rfl⟩ := counts
  obtain ⟨_, rfl, rfl⟩ := result
  obtain ⟨count, delivered⟩ := Backend.read_delivers regular returned
  rw [tell, delivered, List.length_take, ← List.take_take, List.take_length]

theorem readUint32v_debug {header : List UInt8} {value : UInt32} (debug : ds.debug = true)
    (segment : ds.backend.Segment start header) (four : header.length = 4)
    (cursor : ds.tell = start) (read : ds.readUint32v = .ok (some value, after)) :
    ∃ coded, ds.byteOrder.decode header = sourceUint32.toNat ∧ ds.Consumed coded 4 ∧
        ∃ bytes, coded.read 4 = .ok (0, bytes, after) := by
  obtain ⟨coded, got, consumed⟩ := read_segment segment cursor
  rw [four] at got consumed
  obtain ⟨⟨found, counted⟩, scalar, result⟩ := bind_eq_ok.mp read
  simp only [pure_eq_ok, Prod.mk.injEq, Option.map_eq_some_iff] at result
  obtain ⟨⟨bytes, rfl, _⟩, rfl⟩ := result
  by_cases same : ds.byteOrder.decode header = sourceUint32.toNat
  · have matching : ds.typeMatches sourceUint32 = .ok (true, coded) := by
      simp [typeMatches, debug, checkTypeCode, got, bind, Except.bind,
        consumed.byteOrder, same, pure, Except.pure]
    obtain ⟨⟨matched, typed⟩, called, body⟩ := bind_eq_ok.mp scalar
    rw [matching] at called
    cases called
    obtain ⟨⟨rv, bytes, counted⟩, called, decoded⟩ := bind_eq_ok.mp body
    simp only [pure_eq_ok, Prod.mk.injEq] at decoded
    obtain ⟨kept, rfl⟩ := decoded
    split at kept
    case isTrue => cases kept
    case isFalse complete =>
      rw [not_not.mp complete] at called
      exact ⟨coded, same, consumed, bytes, called⟩
  · have mismatching : ds.typeMatches sourceUint32 = .ok (false, coded) := by
      simp [typeMatches, debug, checkTypeCode, got, bind, Except.bind,
        consumed.byteOrder, same, pure, Except.pure]
    obtain ⟨⟨matched, typed⟩, called, body⟩ := bind_eq_ok.mp scalar
    rw [mismatching] at called
    cases called
    cases body

theorem encode_sourceUint32_nul (order : ByteOrder) :
    ∃ index < 4, (order.encode 4 sourceUint32.toNat)[index]? = some 0 := by
  cases order with
  | bigEndian => exact ⟨2, by decide, by decide⟩
  | littleEndian => exact ⟨1, by decide, by decide⟩

theorem readStringBody_ends {len index : Nat} {part memory buffer : List UInt8}
    (segment : ds.backend.Segment start part) (cursor : ds.tell = start)
    (nul : part[index]? = some 0) (room : memory.length = len + 1)
    (read : ds.readStringBody len memory = .ok (buffer, after)) :
    (cString buffer).length ≤ index := by
  obtain ⟨⟨rv, bytes, counted⟩, called, result⟩ := bind_eq_ok.mp read
  dsimp only at result
  split at result
  case isTrue => cases result
  case isFalse complete =>
    cases result
    rw [not_not.mp complete] at called
    have length := (read_advanced called).1
    have filled : splice memory 0 (bytes ++ [0]) = bytes ++ [0] :=
      splice_whole (by rw [room, List.length_append, length]; rfl)
    rw [filled]
    by_cases within : index < bytes.length
    · apply length_cString_le
      have inPart : index < part.length := (List.getElem?_eq_some_iff.mp nul).1
      have delivered := read_eq_drop segment.readable.regular called
      rw [List.getElem?_append_left within, delivered,
        List.getElem?_take_of_lt within, List.getElem?_drop, cursor,
        Int.toNat_natCast, segment.held.holds index inPart, nul]
    · refine (length_cString_le ?_).trans (Nat.le_of_not_lt within)
      rw [List.getElem?_append_right le_rfl, Nat.sub_self]
      rfl

theorem readStringLen_debug {maxlen : Nat} {s rest buffer : List UInt8} {allocation : Allocation}
    (debug : ds.debug = true)
    (segment : ds.backend.Segment start (ds.stringRecord s ++ (ds.typeCode sourceUint32 ++ rest)))
    (cursor : ds.tell = start) (read : ds.readStringLen allocation maxlen = .ok (buffer, after)) :
    (cString buffer).length < s.length := by
  obtain ⟨⟨len, headed⟩, header, body⟩ := bind_eq_ok.mp read
  obtain ⟨⟨matching, typed⟩, matched, headerBody⟩ := bind_eq_ok.mp header
  rw [stringRecord, List.append_assoc, List.append_assoc] at segment
  obtain ⟨code, behindCode⟩ := Backend.segment_append.mp segment
  obtain ⟨coded, matches_, consumed⟩ := typeMatches_segment code cursor
  rw [matched] at matches_
  cases matches_
  have there : typed.tell = (start + (ds.typeCode sourceString).length : Nat) := by
    rw [consumed.cursor, cursor, Nat.cast_add]
  obtain ⟨⟨length, counted⟩, asked, checked⟩ := bind_eq_ok.mp headerBody
  cases length with
  | none => cases checked
  | some value =>
    dsimp only at checked
    split at checked
    case isTrue => cases checked
    case isFalse =>
      cases checked
      obtain ⟨lengthSegment, stringSegment⟩ :=
        Backend.segment_append.mp (consumed.kept _ _ behindCode trivial)
      obtain ⟨behindLength, same, taken, four, readFour⟩ :=
        readUint32v_debug (consumed.debug.trans debug) lengthSegment
          (ByteOrder.length_encode ..) there asked
      rw [consumed.byteOrder, ByteOrder.decode_encode] at same
      have long : 4 ≤ s.length := by
        have value : sourceUint32.toNat = 0x41470005 := rfl
        omega
      have lengthFour : (s.take 4).length = 4 := by rw [List.length_take, Nat.min_eq_left long]
      have whole : s = s.take 4 ++ s.drop 4 := (List.take_append_drop 4 s).symm
      rw [whole, List.append_assoc, ByteOrder.length_encode] at stringSegment
      obtain ⟨front, back⟩ := Backend.segment_append.mp (taken.kept _ _ stringSegment trivial)
      have cursorFront : behindLength.tell =
            (start + (ds.typeCode sourceString).length + 4 : Nat) := by
        rw [taken.cursor, there, Nat.cast_add _ 4]
        rfl
      obtain ⟨behindFront, readFront, passed⟩ := read_segment front cursorFront
      rw [lengthFour] at readFront passed back
      rw [readFour] at readFront
      cases readFront
      have cursorBack : headed.tell =
            (start + (ds.typeCode sourceString).length + 4 + 4 : Nat) := by
        rw [passed.cursor, cursorFront, Nat.cast_add _ 4]
        rfl
      have segmentBack := passed.kept _ _ back trivial
      have typeBytes : ds.typeCode sourceUint32 = ds.byteOrder.encode 4 sourceUint32.toNat := by
        rw [typeCode, if_pos debug]
      obtain ⟨index, below, nul⟩ := encode_sourceUint32_nul ds.byteOrder
      have nulBack : (s.drop 4 ++ (ds.typeCode sourceUint32 ++ rest))[
            s.length - 4 + index]? = some 0 := by
        have lengthBack : (s.drop 4).length = s.length - 4 := List.length_drop
        rw [List.getElem?_append_right (by omega), lengthBack,
          Nat.add_sub_cancel_left, typeBytes, List.getElem?_append_left, nul]
        rwa [ByteOrder.length_encode]
      have ends : (cString buffer).length ≤ s.length - 4 + index := by
        dsimp only at body
        split at body
        case h_1 => cases body
        case h_2 memory granted =>
          obtain ⟨_, rfl⟩ := tryRealloc_eq_some.mp granted
          split at body
          case isTrue =>
            exact readStringBody_ends segmentBack cursorBack nulBack (length_resize _ _ _) body
          case isFalse =>
            cases body
            have first : (splice (resize allocation.fresh (value.toNat + 1) []) 0
                  [0])[0]? = some 0 :=
              rfl
            exact (length_cString_le first).trans (Nat.zero_le _)
      omega

end DataSource

/-! ## What is loaded -/

namespace AgText

/-- The languages that have a text. -/
def languages (txt : AgText) : Finset Language :=
  Finset.univ.filter fun lang => (txt.text lang).isSome

theorem card_languages (txt : AgText) : txt.languages.card = txt.count := by
  have listed : txt.languages = ((List.finRange langLast).filter fun lang =>
          (txt.ent lang).buf.isSome).toFinset := by
    ext lang
    simp [languages, text, TextEnt.text]
  rw [listed, List.toFinset_card_of_nodup, ← List.countP_eq_length_filter]
  · rfl
  · exact (List.nodup_finRange langLast).filter _

theorem languages_setEnt (txt : AgText) (lang : Language) (buf : List UInt8) (maxLen len : Nat) :
    (txt.setEnt lang ⟨some buf, maxLen, len⟩).languages = insert lang txt.languages := by
  ext other
  by_cases same : other = lang
  · subst same
    simp [languages, text, TextEnt.text]
  · simp [languages, text_setEnt_other _ same, same]

variable {allocation : Allocation} {count : Nat} {txt loaded : AgText} {ds after : DataSource}

theorem loadEntries_succ
    (returned : loadEntries allocation (count + 1) txt ds = .ok (0, loaded, after)) :
    ∃ code coded buf next, ∃ known : UInt32.toNat code < langLast,
        ds.readUint32 = .ok (code, coded) ∧
          coded.readStringLen allocation txt.maxLen = .ok (buf, next) ∧ 0 ∈ buf ∧
          loadEntries allocation count (txt.setEnt ⟨code.toNat, known⟩
                ⟨some buf, (cString buf).length + 1, (cString buf).length⟩)
              next = .ok (0, loaded, after) := by
  obtain ⟨⟨code, coded⟩, asked, rest⟩ := bind_eq_ok.mp returned
  dsimp only at rest
  split at rest
  case isTrue known =>
    obtain ⟨⟨buf, next⟩, read, rest⟩ := bind_eq_ok.mp rest
    obtain ⟨s, string, rest⟩ := bind_eq_ok.mp rest
    unfold stringIn at string
    split at string
    case isTrue terminated =>
      obtain rfl := Except.ok.inj string
      exact ⟨code, coded, buf, next, known, asked, read, terminated, rest⟩
    case isFalse => cases string
  case isFalse => cases rest

theorem loadEntries_languages
    (returned : loadEntries allocation count txt ds = .ok (0, loaded, after)) :
    loaded.languages.card ≤ txt.languages.card + count ∧ ∀ lang ∈ txt.languages,
        loaded.text lang = txt.text lang ∨ loaded.languages.card < txt.languages.card + count := by
  induction count generalizing txt ds with
  | zero =>
    cases returned
    exact ⟨le_rfl, fun _ _ => .inl rfl⟩
  | succ count ih =>
    obtain ⟨code, coded, buf, next, known, _, _, _, later⟩ := loadEntries_succ returned
    obtain ⟨bound, kept⟩ := ih later
    rw [languages_setEnt] at bound kept
    have most := Finset.card_insert_le (⟨code.toNat, known⟩ : Language) txt.languages
    refine ⟨by omega, fun lang member => ?_⟩
    by_cases different : lang = ⟨code.toNat, known⟩
    · right
      rw [← different, Finset.insert_eq_of_mem member] at bound
      omega
    · rcases kept lang (Finset.mem_insert_of_mem member) with same | fewer
      · left
        rw [same, text_setEnt_other _ different]
      · right
        omega

theorem loadEntries_short
    (returned : loadEntries allocation count txt ds = .ok (0, loaded, after)) {lang : Language}
    {s : List UInt8} (present : loaded.text lang = some s) :
    txt.text lang = some s ∨ s.length ≤ txt.maxLen % 2 ^ 32 := by
  induction count generalizing txt ds with
  | zero =>
    cases returned
    exact .inl present
  | succ count ih =>
    obtain ⟨code, coded, buf, next, known, _, read, terminated, later⟩ := loadEntries_succ returned
    rcases ih later with old | short
    · by_cases same : lang = ⟨code.toNat, known⟩
      · right
        rw [same, text, setEnt_self] at old
        obtain rfl := Option.some.inj old
        obtain ⟨len, length, inLimit, _⟩ := DataSource.readStringLen_eq_ok read
        have shorter := length_cString_lt terminated
        omega
      · left
        rwa [text_setEnt_other _ same] at old
    · exact .inr short

end AgText

/--
A text is loaded with the texts that were saved, and the cursor is left where
saving left it.
-/
def RestoresText (back wrote : DataSource) (allocation : Allocation) (old txt : AgText) : Prop :=
  ∃ loaded after, old.load allocation back = .ok (0, loaded, after) ∧ after.tell = wrote.tell ∧
        ∀ lang, loaded.text lang = txt.text lang

/--
What a text was saved as: its record, between the position where it is loaded
from and the one where saving ended.
-/
structure SavedText (ds back wrote : DataSource) (start : Nat)
    (txt : AgText) : Prop extends ds.SameSettings back where
  segment : back.backend.Segment start (back.textRecord txt)
  cursor : back.tell = start
  reached : wrote.tell = (start + (back.textRecord txt).length : Nat)

section

variable {ds back wrote : DataSource} {start : Nat} {txt old : AgText} {allocation : Allocation}

theorem savedText_of_save (writes : ds.backend.WritesAt start) (addressable : start < 2 ^ 63)
    (written : txt.save ds = .ok wrote) :
    ∃ back, wrote.seek start .seekSet = (0, back) ∧ SavedText ds back wrote start txt := by
  have record := DataSource.save_wrote writes written
  have nonempty : ds.textRecord txt ≠ [] := by
    intro empty
    have length := congrArg List.length empty
    simp [DataSource.textRecord] at length
  obtain ⟨back, sought, same, there, kept⟩ :=
    DataSource.seek_segment record.stored.segment nonempty addressable
  have settings : ds.SameSettings back :=
    ⟨same.debug.trans record.debug, same.byteOrder.trans record.byteOrder⟩
  have sameRecord : back.textRecord txt = ds.textRecord txt := by
    rw [DataSource.textRecord, DataSource.textRecord, settings.entryRecord,
      settings.flagsRecord, settings.typeCode]
  refine ⟨back, sought, settings, ?_, there, ?_⟩
  · rw [sameRecord]
    exact kept _ _ record.stored.segment trivial
  · rw [sameRecord]
    exact record.stored.writes.cursor

theorem SavedText.count (saved : SavedText ds back wrote start txt) : ∃ counted place,
      back.readUint8 = .ok (UInt8.ofNat txt.count, counted) ∧
        (UInt8.ofNat txt.count).toNat = txt.count ∧ back.SameSettings counted ∧
        counted.tell = (place : Nat) ∧ place + (txt.entries.flatMap back.entryRecord).length +
            (back.flagsRecord (txt.flags &&& textSavedFlags)).length =
          start + (back.textRecord txt).length ∧
        counted.backend.Segment place (txt.entries.flatMap counted.entryRecord ++
            counted.flagsRecord (txt.flags &&& textSavedFlags)) := by
  have small : txt.count < 256 := by
    have most : txt.count ≤ (List.finRange langLast).length := List.countP_le_length
    rw [List.length_finRange] at most
    exact most.trans_lt (by decide)
  have byte : (UInt8.ofNat txt.count).toNat = txt.count :=
    (UInt8.toNat_ofNat' ..).trans (Nat.mod_eq_of_lt small)
  have encoded : [UInt8.ofNat txt.count] = back.byteOrder.encode 1 txt.count := by
    cases back.byteOrder <;> rfl
  have whole := saved.segment
  rw [DataSource.textRecord] at whole
  obtain ⟨first, later⟩ := Backend.segment_append.mp whole
  rw [encoded] at first later
  obtain ⟨counted, read, consumed⟩ :=
    DataSource.readUint_segment first (by simpa using small) saved.cursor
  refine ⟨counted, start + (back.typeCode sourceUint8 ++ back.byteOrder.encode 1 txt.count).length,
    ?_, byte, consumed.toSameSettings, ?_, ?_, ?_⟩
  · simp only [DataSource.readUint8, read, bind, Except.bind]
    rfl
  · rw [consumed.cursor, saved.cursor, ← Nat.cast_add]
  · rw [DataSource.textRecord, encoded]
    simp only [List.length_append]
    omega
  · rw [consumed.toSameSettings.entryRecord, consumed.toSameSettings.flagsRecord]
    exact consumed.kept _ _ later trivial

theorem SavedText.count_lt (saved : SavedText ds back wrote start txt)
    (restores : RestoresText back wrote allocation old txt) : txt.count < langLast := by
  obtain ⟨counted, _, read, byte, _⟩ := saved.count
  obtain ⟨loaded, after, returned, _⟩ := restores
  by_contra every
  have refused : (UInt8.ofNat txt.count).toNat ≥ langLast := by omega
  simp only [AgText.load, read, bind, Except.bind, if_pos refused] at returned
  cases congrArg Prod.fst (Except.ok.inj returned)

theorem loadEntries_of_restores {counted : DataSource}
    (read : back.readUint8 = .ok (UInt8.ofNat txt.count, counted))
    (byte : (UInt8.ofNat txt.count).toNat = txt.count)
    (restores : RestoresText back wrote allocation old txt) :
    ∃ loaded next, AgText.loadEntries allocation txt.count old.clear counted =
          .ok (0, loaded, next) ∧
        ∀ lang, loaded.text lang = txt.text lang := by
  obtain ⟨restored, after, returned, _, same⟩ := restores
  obtain ⟨⟨count, source⟩, asked, rest⟩ := bind_eq_ok.mp returned
  rw [read] at asked
  cases asked
  dsimp only at rest
  split at rest
  case isTrue => cases congrArg Prod.fst (Except.ok.inj rest)
  case isFalse =>
    obtain ⟨⟨status, loaded, next⟩, entries, rest⟩ := bind_eq_ok.mp rest
    dsimp only at rest
    split at rest
    case isTrue zero =>
      obtain ⟨⟨flags, final⟩, _, result⟩ := bind_eq_ok.mp rest
      cases result
      rw [byte, zero] at entries
      exact ⟨loaded, next, entries, same⟩
    case isFalse => cases congrArg Prod.fst (Except.ok.inj rest)

theorem SavedText.plain (saved : SavedText ds back wrote start txt)
    (restores : RestoresText back wrote allocation old txt) :
    txt.entries = [] ∨ back.debug = false := by
  obtain ⟨counted, place, read, byte, settings, there, _, segment⟩ := saved.count
  obtain ⟨loaded, final, entries, same⟩ := loadEntries_of_restores read byte restores
  by_contra neither
  rw [not_or, Bool.not_eq_false] at neither
  obtain ⟨nonempty, debug⟩ := neither
  obtain ⟨⟨lang, s⟩, others, shape⟩ := List.exists_cons_of_ne_nil nonempty
  have size : txt.count = others.length + 1 := by
    rw [← AgText.length_entries, shape, List.length_cons]
  rw [size] at entries
  obtain ⟨code, coded, buf, next, known, asked, string, _, later⟩ := AgText.loadEntries_succ entries
  rw [shape, List.flatMap_cons, List.append_assoc] at segment
  obtain ⟨behind, askedToo, value, consumed, stringSegment, cursor⟩ :=
    DataSource.entryRecord_segment segment there
  rw [asked] at askedToo
  cases askedToo
  have codeThere : ∃ rest, others.flatMap counted.entryRecord ++
          counted.flagsRecord (txt.flags &&& textSavedFlags) =
        coded.typeCode sourceUint32 ++ rest := by
    rw [consumed.toSameSettings.typeCode]
    cases others with
    | nil => exact ⟨_, rfl⟩
    | cons first rest =>
      simp only [List.flatMap_cons, DataSource.entryRecord, List.append_assoc]
      exact ⟨_, rfl⟩
  obtain ⟨rest, starts⟩ := codeThere
  rw [starts] at stringSegment
  have shorter :=
    DataSource.readStringLen_debug
      ((consumed.debug.trans settings.debug).trans debug) stringSegment cursor
      string
  -- the languages are as many as were read, so none was replaced
  obtain ⟨_, kept⟩ := AgText.loadEntries_languages later
  rw [AgText.languages_setEnt] at kept
  have cleared : old.clear.languages = ∅ := by
    apply Finset.filter_eq_empty_iff.mpr
    intro lang _
    exact Bool.false_ne_true
  have allLoaded : loaded.languages = txt.languages := by simp only [AgText.languages, same]
  have language : (⟨(UInt32.ofNat lang.val).toNat, known⟩ : Language) = lang := Fin.ext value
  have present : txt.text lang = some s := by
    apply AgText.mem_entries.mp
    rw [shape]
    exact List.mem_cons_self
  rcases kept lang (by rw [language]; exact Finset.mem_insert_self _ _) with
    unchanged | fewer
  · rw [same, present, language, AgText.text, AgText.setEnt_self] at unchanged
    have text : s = cString buf := Option.some.inj unchanged
    rw [text] at shorter
    exact lt_irrefl _ shorter
  · rw [allLoaded, AgText.card_languages, size, cleared] at fewer
    rw [insert_empty_eq, Finset.card_singleton] at fewer
    omega

end

/--
A text that was saved is restored from the same position exactly when not
every language has one, the source is not in debug mode (or there is nothing
to load), and each text is within the low 32 bits of the limit of the text that
it is loaded into and is granted its memory.
-/
theorem text_restored_iff {ds wrote : DataSource} {start : Nat} {txt : AgText}
    (writes : ds.backend.WritesAt start) (addressable : start < 2 ^ 63)
    (written : txt.save ds = .ok wrote) (allocation : Allocation) (old : AgText) :
    ∃ back, wrote.seek start .seekSet = (0, back) ∧ (RestoresText back wrote allocation old txt ↔
          txt.count < langLast ∧ (txt.count = 0 ∨ ds.debug = false) ∧ ∀ lang s,
              txt.text lang = some s → s.length ≤ old.maxLen % 2 ^ 32 ∧
                  allocation.grants (s.length + 1) = true) := by
  obtain ⟨back, sought, saved⟩ := savedText_of_save writes addressable written
  refine ⟨back, sought, ?_⟩
  obtain ⟨counted, place, read, byte, settings, there, size, segment⟩ := saved.count
  have noNul : ∀ entry ∈ txt.entries, 0 ∉ entry.2 :=
    fun entry member => AgText.text_noNul (AgText.mem_entries.mp member)
  constructor
  · intro restores
    have plain := saved.plain restores
    obtain ⟨loaded, final, entries, same⟩ := loadEntries_of_restores read byte restores
    have inLimit : ∀ entry ∈ txt.entries, entry.2.length ≤ old.maxLen % 2 ^ 32 := by
      intro entry member
      have present := AgText.mem_entries.mp member
      rw [← same] at present
      rcases AgText.loadEntries_short entries present with cleared | short
      · cases cleared
      · exact short
    have plainCounted : txt.entries = [] ∨ counted.debug = false :=
      plain.imp_right settings.debug.trans
    rw [← AgText.length_entries] at entries
    have granted :=
      (@DataSource.loadEntries_segment counted old.clear allocation _ _ _
        segment plainCounted noNul inLimit there).2 _ entries
    refine ⟨saved.count_lt restores, ?_, fun lang s present => ?_⟩
    · rw [← AgText.length_entries, List.length_eq_zero_iff, ← saved.debug]
      exact plain
    · have member := AgText.mem_entries.mpr present
      exact ⟨inLimit _ member, granted _ member⟩
  · rintro ⟨notAll, plain, fits⟩
    have plainCounted : txt.entries = [] ∨ counted.debug = false := by
      rw [← AgText.length_entries, List.length_eq_zero_iff] at plain
      exact plain.imp_right fun plain => settings.debug.trans (saved.debug.trans plain)
    obtain ⟨next, loaded, consumed⟩ :=
      (@DataSource.loadEntries_segment counted old.clear allocation _ _ _ segment plainCounted noNul
        (fun entry member => (fits _ _ (AgText.mem_entries.mp member)).1)
        there).1 fun entry member => (fits _ _ (AgText.mem_entries.mp member)).2
    have flagsSegment := consumed.kept _ _ (Backend.segment_append.mp segment).2 trivial
    rw [← consumed.toSameSettings.flagsRecord] at flagsSegment
    have cursor : next.tell = (place + (txt.entries.flatMap counted.entryRecord).length : Nat) := by
      rw [consumed.cursor, there, Nat.cast_add]
    have small : (txt.flags &&& textSavedFlags).toNat < 256 ^ 4 :=
      (txt.flags &&& textSavedFlags).toNat_lt
    obtain ⟨after, flags, taken⟩ := DataSource.readUint32_segment flagsSegment small cursor
    rw [AgText.length_entries] at loaded
    refine ⟨{ old.clear.fill txt.entries with
      flags := (old.clear.fill txt.entries).flags &&& ~~~ textSavedFlags |||
        UInt32.ofNat (txt.flags &&& textSavedFlags).toNat &&& textSavedFlags
    }, after, ?_, ?_, ?_⟩
    · have few : ¬ txt.count ≥ langLast :=
        Nat.not_le_of_lt notAll
      simp only [AgText.load, read, bind, Except.bind, byte, if_neg few, loaded, if_true, flags]
      rfl
    · have lengths : (next.typeCode sourceUint32 ++ next.byteOrder.encode 4
            (txt.flags &&& textSavedFlags).toNat).length =
            (back.flagsRecord (txt.flags &&& textSavedFlags)).length := by
        rw [DataSource.flagsRecord, consumed.toSameSettings.typeCode,
          settings.typeCode, consumed.byteOrder, settings.byteOrder]
      rw [taken.cursor, cursor, lengths, saved.reached, ← size,
        settings.entryRecord, ← Nat.cast_add]
    · exact fun lang => AgText.text_fill_entries lang

theorem AgText.saves_to_file {txt : AgText}
    (terminated : ∀ lang buf, (txt.ent lang).buf = some buf → 0 ∈ buf) {ds : DataSource}
    (healthy : ds.Healthy) : ∃ wrote, txt.save ds = .ok wrote := by
  have entries (languages : List Language) {ds : DataSource} (healthy : ds.Healthy) :
      ∃ wrote, txt.saveEntries languages ds = .ok wrote ∧ wrote.Healthy := by
    induction languages generalizing ds with
    | nil => exact ⟨ds, rfl, healthy⟩
    | cons lang rest ih =>
      cases allocated : (txt.ent lang).buf with
      | none =>
        obtain ⟨wrote, saved, healthyAfter⟩ := ih healthy
        refine ⟨wrote, ?_, healthyAfter⟩
        rw [AgText.saveEntries, allocated]
        exact saved
      | some buf =>
        have string : stringIn buf = .ok (cString buf) := if_pos (terminated lang buf allocated)
        obtain ⟨coded, code, healthyCoded⟩ :=
          healthy.writeScalar sourceUint32 (ds.byteOrder.encode 4 (UInt32.ofNat lang).toNat)
        obtain ⟨stored, wrote, healthyStored⟩ := healthyCoded.writeString (cString buf)
        obtain ⟨after, saved, healthyAfter⟩ := ih healthyStored
        refine ⟨after, ?_, healthyAfter⟩
        rw [AgText.saveEntries, allocated]
        simp only [DataSource.writeUint32, code, bind, Except.bind, string, wrote, saved]
  obtain ⟨counted, count, healthyCounted⟩ := healthy.writeScalar sourceUint8 [UInt8.ofNat txt.count]
  obtain ⟨entered, saved, healthyEntered⟩ := entries (List.finRange langLast) healthyCounted
  obtain ⟨wrote, flags, _⟩ :=
    healthyEntered.writeScalar sourceUint32
      (entered.byteOrder.encode 4 (txt.flags &&& textSavedFlags).toNat)
  refine ⟨wrote, ?_⟩
  simp only [AgText.save, DataSource.writeUint8, count, bind, Except.bind,
    saved, DataSource.writeUint32, flags]

theorem text_restored_iff_one_language : ∃ wrote back,
      ((AgText.init 100).setEnt 1 (.ofString [97])).save
          (DataSource.openFileHandle .zeroed ⟨[], 0, none⟩) = .ok wrote ∧
        wrote.seek 0 .seekSet = (0, back) ∧
        RestoresText back wrote .zeroed (.init 100)
          ((AgText.init 100).setEnt 1 (.ofString [97])) := by
  have terminated : ∀ lang buf,
        (((AgText.init 100).setEnt 1 (.ofString [97])).ent lang).buf = some buf → 0 ∈ buf := by
    intro lang buf allocated
    by_cases same : lang = 1
    · rw [same, AgText.setEnt_self] at allocated
      obtain rfl := Option.some.inj allocated
      decide
    · rw [AgText.setEnt_other _ same] at allocated
      cases allocated
  obtain ⟨wrote, written⟩ :=
    AgText.saves_to_file terminated (DataSource.openFileHandle_healthy .zeroed ⟨[], 0, none⟩ rfl)
  obtain ⟨back, sought, restored⟩ :=
    text_restored_iff (DataSource.openFileHandle_writesAt .zeroed ⟨[], 0, none⟩ rfl)
      (by decide) written .zeroed (.init 100)
  refine ⟨wrote, back, written, sought, restored.mpr ⟨?_, .inr rfl, ?_⟩⟩
  · decide +kernel
  · intro lang s present
    by_cases same : lang = 1
    · rw [same, AgText.text, AgText.setEnt_self] at present
      obtain rfl := Option.some.inj present
      decide
    · rw [AgText.text_setEnt_other _ same] at present
      cases present

theorem full_text_refused : ∃ wrote back,
      ({ AgText.init 100 with ent := fun _ => .ofString [97] } : AgText).save
          (DataSource.openFileHandle .zeroed ⟨[], 0, none⟩) = .ok wrote ∧
        wrote.seek 0 .seekSet = (0, back) ∧
        ¬ RestoresText back wrote .zeroed (.init 100)
          { AgText.init 100 with ent := fun _ => .ofString [97] } := by
  have saves : ∃ wrote, ({ AgText.init 100 with ent := fun _ => .ofString [97] } : AgText).save
          (DataSource.openFileHandle .zeroed ⟨[], 0, none⟩) = .ok wrote := by
    apply AgText.saves_to_file
    · intro lang buf allocated
      obtain rfl : [97] ++ [0] = buf := Option.some.inj allocated
      decide
    · exact DataSource.openFileHandle_healthy .zeroed ⟨[], 0, none⟩ rfl
  obtain ⟨wrote, written⟩ := saves
  obtain ⟨back, sought, saved⟩ :=
    savedText_of_save (DataSource.openFileHandle_writesAt .zeroed ⟨[], 0, none⟩ rfl)
      (by decide) written
  refine ⟨wrote, back, written, sought, fun restores => ?_⟩
  have few := saved.count_lt restores
  have every : ({ AgText.init 100 with ent := fun _ => .ofString [97] } : AgText).count =
        langLast := by
    decide +kernel
  omega

end Agar.Core
