import Agar.Core.UnicodeRoundTrip
import Agar.Lib.Outcome

namespace Agar.Core

open Agar.Lib

/-!
# The buffers of the Unicode conversions

Whether `AG_ExportUnicode` stays inside the buffer that it is given, and
`AG_ImportUnicode` inside the string that it reads and the buffer that it
allocates.  A buffer has exactly the bytes that the functions are told of, and
a string ends with its terminator, so that an access beyond them has no defined
result.
-/

/-! ## Export -/

theorem length_storeChar (ch1 i uch : Nat) : (storeChar ch1 i uch []).length = i + 1 := by
  rw [storeChar_eq, List.append_nil, List.length_cons, length_tailBytes]

theorem sequenceOf_pos {uch chlen ch1 : Nat} (selected : sequenceOf uch = some (chlen, ch1)) :
    0 < chlen := by
  unfold sequenceOf at selected
  split_ifs at selected <;> cases selected <;> decide

theorem memWrite_terminator {dst : List UInt8} {len : Nat} (inside : len < dst.length) : ∃ after,
      memWrite dst len [0] = .ok after ∧ after.length = dst.length ∧ 0 ∈ after := by
  have written : memWrite dst len [0] = .ok (splice dst len [0]) := memWrite_inside inside
  refine ⟨_, written, length_splice inside, ?_⟩
  rw [splice, List.mem_append, List.mem_append]
  exact .inl (.inr List.mem_cons_self)

/--
What an export reports, and the buffer that it leaves, which ends a string
where the export succeeds.
-/
def Terminates (dst : List UInt8) (outcome : Except Stop (Int × List UInt8)) : Prop :=
  ∃ rv after, outcome = .ok (rv, after) ∧ after.length = dst.length ∧ (rv = 0 → 0 ∈ after)

theorem terminates_of_terminator {dst : List UInt8} {len : Nat} (inside : len < dst.length) :
    Terminates dst (do
      let dst ← memWrite dst len [0]
      return (0, dst)) := by
  obtain ⟨after, written, sameLength, terminated⟩ := memWrite_terminator inside
  refine ⟨0, after, ?_, sameLength, fun _ => terminated⟩
  rw [written]
  rfl

theorem terminates_refused (dst : List UInt8) : Terminates dst (.ok (-1, dst)) :=
  ⟨-1, dst, rfl, rfl, nofun⟩

theorem exportUTF8_terminates {ucs : List UInt32} (terminated : 0 ∈ ucs) {dst : List UInt8}
    {len : Nat} (room : len < dst.length) : Terminates dst (exportUTF8 ucs dst dst.length len) := by
  induction ucs generalizing dst len with
  | nil => cases terminated
  | cons uch ucs ih =>
    unfold exportUTF8
    split
    case isTrue => exact terminates_of_terminator room
    case isFalse unfinished =>
      split
      case h_1 => exact terminates_refused dst
      case h_2 chlen ch1 selected =>
        have positive := sequenceOf_pos selected
        split
        case isTrue => exact terminates_refused dst
        case isFalse fits =>
          have length := length_storeChar ch1 (chlen - 1) uch.toNat
          have inside : len + (storeChar ch1 (chlen - 1) uch.toNat []).length ≤ dst.length := by
            omega
          have sameLength := length_splice inside
          have later : 0 ∈ ucs := by
            rcases List.mem_cons.mp terminated with zero | later
            · exact absurd (.inl zero.symm) unfinished
            · exact later
          rw [memWrite_inside inside, ok_bind, ← sameLength, Terminates, ← sameLength]
          exact ih later (by rw [sameLength]; omega)

/-- What US-ASCII export writes without noticing the end of the buffer. -/
def FillsWithASCII (room : Nat) (ucs : List UInt32) : Prop :=
  room ≤ (ucs.takeWhile (· ≠ 0)).length ∧ ∀ uch ∈ (ucs.takeWhile (· ≠ 0)).take room, uch < 0x80

instance (room : Nat) (ucs : List UInt32) : Decidable (FillsWithASCII room ucs) :=
  inferInstanceAs (Decidable (_ ∧ _))

theorem exportASCII_cases {ucs : List UInt32} (terminated : 0 ∈ ucs) {dst : List UInt8}
    {len room : Nat} (size : len + room = dst.length) :
    (FillsWithASCII room ucs → exportASCII ucs dst dst.length len = .error .undefined) ∧
      (¬ FillsWithASCII room ucs → Terminates dst (exportASCII ucs dst dst.length len)) := by
  induction ucs generalizing dst len room with
  | nil => cases terminated
  | cons uch ucs ih =>
    unfold exportASCII FillsWithASCII
    cases room with
    | zero =>
      refine ⟨fun _ => ?_, fun notFilled => ?_⟩
      · have outside : memWrite dst len [0] = .error .undefined := by
          rw [memWrite, if_neg]
          rw [List.length_singleton]
          omega
        rw [if_pos (.inr (by omega)), outside]
        rfl
      · exact absurd ⟨Nat.zero_le _, by simp⟩ notFilled
    | succ room =>
      by_cases zero : uch = 0
      · subst zero
        refine ⟨fun filled => ?_, fun _ => ?_⟩
        · exact absurd filled.1 (by simp)
        · rw [if_pos (.inl rfl)]
          exact terminates_of_terminator (by omega)
      · have unfinished : ¬ (uch = 0 ∨ len ≥ dst.length) :=
          not_or.mpr ⟨zero, by omega⟩
        have later : 0 ∈ ucs := (List.mem_cons.mp terminated).resolve_left (Ne.symm zero)
        rw [if_neg unfinished, List.takeWhile_cons_of_pos (by simpa using zero),
          List.length_cons, Nat.succ_le_succ_iff, List.take_succ_cons,
          List.forall_mem_cons]
        by_cases ascii : uch < 0x80
        · have inside : len + [uch.toUInt8].length ≤ dst.length := by
            rw [List.length_singleton]
            omega
          have sameLength := length_splice inside
          have rest :=
            @ih later (splice dst len [uch.toUInt8]) (len + 1) room (by rw [sameLength]; omega)
          rw [sameLength] at rest
          rw [if_neg (UInt32.not_le.mpr ascii), memWrite_inside inside, ok_bind]
          refine ⟨fun filled => rest.1 ⟨filled.1, filled.2.2⟩, fun notFilled => ?_⟩
          obtain ⟨rv, after, exported, length, ends⟩ :=
            rest.2 fun filled => notFilled ⟨filled.1, ascii, filled.2⟩
          exact ⟨rv, after, exported, length.trans sameLength, ends⟩
        · rw [if_pos (UInt32.not_lt.mp ascii)]
          exact ⟨fun filled => absurd filled.2.1 ascii, fun _ => terminates_refused dst⟩

/--
An export to a buffer writes nothing outside it, and ends a string in it where
it succeeds, exactly when it does not fill the buffer with US-ASCII characters:
the loop then stops at the end of the buffer and stores the terminator there.
-/
theorem export_inside_iff {ucs : List UInt32} (terminated : 0 ∈ ucs) {dst : List UInt8}
    (nonempty : 1 ≤ dst.length) (encoding : Encoding) :
    Terminates dst (exportUnicode encoding dst ucs dst.length) ↔
      (encoding = .usAscii → ¬ FillsWithASCII dst.length ucs) := by
  cases encoding with
  | utf8 => exact iff_of_true (exportUTF8_terminates terminated nonempty) nofun
  | usAscii =>
    obtain ⟨overrun, inside⟩ := exportASCII_cases terminated (Nat.zero_add dst.length)
    refine ⟨fun terminates _ filled => ?_, fun notFilled => inside (notFilled rfl)⟩
    obtain ⟨_, _, exported, _⟩ := terminates
    cases (overrun filled).symm.trans exported
  | unknown => exact iff_of_true (terminates_refused dst) nofun

theorem export_inside_iff_two_bytes : Terminates [1, 1] (exportUnicode .usAscii [1, 1] [65, 0] 2) :=
  (@export_inside_iff [65, 0] (by decide) [1, 1] (by decide) .usAscii).mpr fun _ => by decide

theorem export_overruns_one_byte : exportUnicode .usAscii [1] [65, 0] 1 = .error .undefined ∧
      ¬ Terminates [1] (exportUnicode .usAscii [1] [65, 0] 1) := by
  refine ⟨rfl, ?_⟩
  rintro ⟨_, _, exported, _⟩
  cases exported

/-! ## Import -/

/-- So many sequences, each as long as its first byte says. -/
inductive WholeSequences : Nat → List UInt8 → Prop where
  | nil : WholeSequences 0 []
  | cons {lead : UInt8} {tail rest : List UInt8} {count : Nat}
      (announced : charLengthUTF8 lead = some (tail.length + 1))
      (later : WholeSequences count rest) :
      WholeSequences (count + 1) (lead :: (tail ++ rest))

/-- So many sequences, and then one that is shorter than its first byte says. -/
def CutOff (count : Nat) (text : List UInt8) : Prop :=
  ∃ front lead tail n, text = front ++ lead :: tail ∧ WholeSequences count front ∧
      charLengthUTF8 lead = some n ∧ tail.length + 1 < n

/-- Some sequences, and then a byte that starts none. -/
def Stray (text : List UInt8) : Prop :=
  ∃ count front lead rest, text = front ++ lead :: rest ∧
      WholeSequences count front ∧ charLengthUTF8 lead = none

theorem charLengthUTF8_pos {lead : UInt8} {n : Nat} (announced : charLengthUTF8 lead = some n) :
    0 < n := by
  unfold charLengthUTF8 at announced
  split_ifs at announced <;> cases announced <;> decide

theorem sequences_cases (text : List UInt8) :
    (∃ count, WholeSequences count text) ∨ (∃ count, CutOff count text) ∨ Stray text := by
  induction length : text.length using Nat.strong_induction_on generalizing text with
  | _ size ih =>
    cases text with
    | nil => exact .inl ⟨0, .nil⟩
    | cons lead others =>
      cases announced : charLengthUTF8 lead with
      | none => exact .inr (.inr ⟨0, [], lead, others, rfl, .nil, announced⟩)
      | some n =>
        have positive := charLengthUTF8_pos announced
        by_cases whole : n ≤ others.length + 1
        · have split := List.take_append_drop (n - 1) others
          have tail : (others.take (n - 1)).length + 1 = n := by
            rw [List.length_take]
            omega
          rw [← tail] at announced
          have shorter : (others.drop (n - 1)).length < size := by
            rw [← length, List.length_drop, List.length_cons]
            omega
          rcases ih _ shorter (others.drop (n - 1)) rfl with ⟨count, later⟩ |
              ⟨count, front, cut, tail, m, shape, later, short⟩ |
              ⟨count, front, stray, rest, shape, later, bad⟩
          · left
            rw [← split]
            exact ⟨count + 1, later.cons announced⟩
          · right; left
            refine ⟨count + 1, _, cut, tail, m, ?_, later.cons announced, short⟩
            rw [List.cons_append, List.append_assoc, ← shape, split]
          · right; right
            refine ⟨count + 1, _, stray, rest, ?_, later.cons announced, bad⟩
            rw [List.cons_append, List.append_assoc, ← shape, split]
        · exact .inr (.inl ⟨0, [], lead, others, n, rfl, .nil, announced, Nat.lt_of_not_le whole⟩)

section WholeSequences

variable {count : Nat} {front : List UInt8} (sequences : WholeSequences count front)

include sequences

theorem WholeSequences.count_le : count ≤ front.length := by
  induction sequences with
  | nil => exact Nat.le_refl 0
  | cons announced later ih =>
    rw [List.length_cons, List.length_append]
    omega

theorem lengthLoop_sequences (noNul : 0 ∉ front) (rest : List UInt8) (fuel rv : Nat) :
    lengthLoop (fuel + count) (front ++ rest) rv = lengthLoop fuel rest (rv + count) := by
  induction sequences generalizing rv with
  | nil => rfl
  | @cons lead tail others count announced later ih =>
    rw [← List.cons_append, List.mem_append, not_or] at noNul
    rw [← List.cons_append, List.append_assoc, ← Nat.add_assoc]
    conv_lhs => unfold lengthLoop
    rw [List.cons_append]
    simp only [announced]
    rw [← List.length_cons (a := lead), ← List.cons_append, List.take_left,
      List.drop_left, if_neg noNul.1, if_neg (Nat.lt_irrefl _),
      ih noNul.2, Nat.add_assoc, Nat.add_comm 1]

theorem importLoop_sequences (rest : List UInt8) (fuel left : Nat) {ucs : List UInt32} {size : Nat}
    (room : ucs.length + count ≤ size) :
    ∃ chars, chars.length = count ∧
        importLoop (fuel + count) (front ++ rest) (front.length + left) ucs size =
          importLoop fuel rest left (ucs ++ chars) size := by
  induction sequences generalizing ucs with
  | nil =>
    refine ⟨[], rfl, ?_⟩
    rw [List.length_nil, Nat.zero_add, List.append_nil]
    rfl
  | @cons lead tail others count announced later ih =>
    have stored : storeUcs ucs size (decodeChar (lead :: tail)) =
          .ok (ucs ++ [UInt32.ofNat (decodeChar (lead :: tail))]) :=
      if_pos (by omega)
    obtain ⟨chars, length, imported⟩ :=
      @ih (ucs ++ [UInt32.ofNat (decodeChar (lead :: tail))])
        (by rw [List.length_append, List.length_singleton]; omega)
    refine ⟨UInt32.ofNat (decodeChar (lead :: tail)) :: chars, ?_, ?_⟩
    · rw [List.length_cons, length]
    · have unfinished : (lead :: (tail ++ others)).length + left ≠ 0 := by
        rw [List.length_cons]
        omega
      have behind : (lead :: (tail ++ others)).length + left - (tail.length + 1) =
            others.length + left := by
        rw [List.length_cons, List.length_append]
        omega
      rw [← Nat.add_assoc]
      conv_lhs => unfold importLoop
      rw [if_neg unfinished, List.cons_append]
      simp only [announced, behind]
      rw [← List.length_cons (a := lead), List.append_assoc,
        ← List.cons_append, List.take_left, List.drop_left,
        if_neg (Nat.lt_irrefl _), stored, ok_bind, imported,
        List.append_assoc, List.singleton_append]

end WholeSequences

theorem importLoop_cut {lead : UInt8} {tail : List UInt8} {n count : Nat} {ucs : List UInt32}
    (fuel : Nat) (announced : charLengthUTF8 lead = some n) (short : tail.length + 1 < n)
    (full : ucs.length = count) :
    importLoop (fuel + tail.length + 1 + 1) (lead :: (tail ++ [0]))
          (tail.length + 1) ucs (count + 1) =
        .error .undefined ∨
      ∃ longer, longer.length = count + 1 ∧
          importLoop (fuel + tail.length + 1 + 1) (lead :: (tail ++ [0]))
              (tail.length + 1) ucs (count + 1) =
            .ok (some longer) := by
  have size : (lead :: (tail ++ [0])).length = tail.length + 2 := by
    rw [List.length_cons, List.length_append, List.length_singleton]
  have stored (value : Nat) : storeUcs ucs (count + 1) value = .ok (ucs ++ [UInt32.ofNat value]) :=
    if_pos (by omega)
  unfold importLoop
  rw [if_neg (Nat.succ_ne_zero _)]
  simp only [announced, List.length_take, size, stored, ok_bind]
  by_cases beyond : min n (tail.length + 2) < n
  · rw [if_pos beyond]
    exact .inl rfl
  · rw [if_neg beyond]
    refine .inr ⟨ucs ++ [UInt32.ofNat (decodeChar ((lead :: (tail ++ [0])).take n))], ?_, ?_⟩
    · rw [List.length_append, full, List.length_singleton]
    · unfold importLoop
      rw [if_pos (by omega)]
      rfl

/--
Importing a string reads nothing behind its terminator, writes nothing outside
the buffer that it allocates, and where it succeeds the output ends with a
terminator behind as many characters as are reported.
-/
def ImportsSafely (allocation : Allocation) (text : List UInt8) : Prop :=
  ∃ result,
    importUnicode .utf8 allocation (text ++ [0]) = .ok result ∧ ∀ imported, result = some imported →
          ∃ chars,
            imported.ucs = chars ++ [0] ∧
              imported.outLen = chars.length ∧
              imported.outSize = 4 * (chars.length + 1)

section Import

variable {text : List UInt8} (noNul : 0 ∉ text)

include noNul

theorem lengthUTF8_text : lengthUTF8 (text ++ [0]) =
      lengthLoop (text ++ [0]).length (text ++ [0]) 0 := by
  cases text with
  | nil => rfl
  | cons first rest =>
    have nonzero : first ≠ 0 := by
      rintro rfl
      exact noNul List.mem_cons_self
    unfold lengthUTF8
    split
    case h_1 same => cases same
    case h_2 same => exact absurd (List.cons.inj same).1 nonzero
    case h_3 => rfl

theorem import_sequences {count : Nat} (sequences : WholeSequences count text)
    (allocation : Allocation) :
    ∃ chars, chars.length = count ∧
        importUnicode .utf8 allocation (text ++ [0]) =
          .ok (if allocation.grants (4 * (count + 1)) then
            some
              { ucs := chars ++ [0]
                outLen := count
                outSize := 4 * (count + 1) }
          else
            none) := by
  have few := sequences.count_le
  have counted : lengthUTF8 (text ++ [0]) = .ok (some count) := by
    obtain ⟨fuel, enough⟩ := Nat.exists_eq_add_of_le few
    rw [lengthUTF8_text noNul, List.length_append, enough, List.length_singleton,
      Nat.add_assoc, Nat.add_comm,
      lengthLoop_sequences sequences noNul [0] (fuel + 1) 0, Nat.zero_add]
    rfl
  obtain ⟨fuel, enough⟩ := Nat.exists_eq_add_of_le few
  obtain ⟨chars, length, imported⟩ :=
    @importLoop_sequences count text sequences [0] (fuel + 1) 0 [] (count + 1)
      (by rw [List.length_nil]; omega)
  refine ⟨chars, length, ?_⟩
  rw [importUnicode, cString_terminated noNul []]
  simp only [counted, ok_bind]
  split
  · have turns : text.length + 1 = fuel + 1 + count := by
      omega
    rw [← turns] at imported
    rw [← Nat.add_zero text.length] at imported ⊢
    rw [imported, List.nil_append]
    simp only [importLoop, if_true, pure_bind, terminateUcs, storeUcs, length,
      if_pos (Nat.lt_succ_self count)]
    rfl
  · rfl

theorem import_cutOff {count : Nat} (cutOff : CutOff count text) (allocation : Allocation) :
    importUnicode .utf8 allocation (text ++ [0]) = if allocation.grants (4 * (count + 1)) then
        .error .undefined
      else
        .ok none := by
  obtain ⟨front, lead, tail, n, rfl, sequences, announced, short⟩ := cutOff
  have few := sequences.count_le
  obtain ⟨fuel, enough⟩ := Nat.exists_eq_add_of_le few
  have noNulFront : 0 ∉ front := fun nul => noNul (List.mem_append_left _ nul)
  have counted : lengthUTF8 (front ++ lead :: tail ++ [0]) = .ok (some count) := by
    have terminated : 0 ∈ (lead :: (tail ++ [0])).take n := by
      rw [List.take_of_length_le]
      · exact List.mem_cons_of_mem _ (List.mem_append_right _ List.mem_cons_self)
      · rw [List.length_cons, List.length_append, List.length_singleton]
        omega
    have turns : (front ++ (lead :: (tail ++ [0]))).length =
          fuel + tail.length + 1 + 1 + count := by
      rw [List.length_append, enough, List.length_cons, List.length_append, List.length_singleton]
      omega
    rw [lengthUTF8_text noNul, List.append_assoc, List.cons_append, turns,
      lengthLoop_sequences sequences noNulFront _ _ 0, Nat.zero_add]
    simp only [lengthLoop, announced, if_pos terminated]
  obtain ⟨chars, length, imported⟩ :=
    @importLoop_sequences count front sequences (lead :: (tail ++ [0]))
      (fuel + tail.length + 1 + 1) (tail.length + 1) [] (count + 1)
      (by rw [List.length_nil]; omega)
  have turns : (front ++ lead :: tail).length + 1 = fuel + tail.length + 1 + 1 + count := by
    rw [List.length_append, List.length_cons]
    omega
  have left : (front ++ lead :: tail).length = front.length + (tail.length + 1) := by
    rw [List.length_append, List.length_cons]
  rw [importUnicode, cString_terminated noNul []]
  simp only [counted, ok_bind]
  split
  case isTrue =>
    rw [turns, left, List.append_assoc, List.cons_append, imported, List.nil_append]
    rcases importLoop_cut fuel announced short length with
      beyond | ⟨longer, full, read⟩
    · rw [beyond]
      rfl
    · have overrun : terminateUcs longer (count + 1) = .error .undefined := by
        rw [terminateUcs, storeUcs, if_neg (by omega)]
        rfl
      rw [read, ok_bind]
      exact overrun
  case isFalse => rfl

theorem import_stray (stray : Stray text) (allocation : Allocation) :
    importUnicode .utf8 allocation (text ++ [0]) = .ok none := by
  obtain ⟨count, front, lead, rest, rfl, sequences, bad⟩ := stray
  have few := sequences.count_le
  obtain ⟨fuel, enough⟩ := Nat.exists_eq_add_of_le few
  have noNulFront : 0 ∉ front := fun nul => noNul (List.mem_append_left _ nul)
  have turns : (front ++ (lead :: (rest ++ [0]))).length = fuel + rest.length + 1 + 1 + count := by
    rw [List.length_append, enough, List.length_cons, List.length_append, List.length_singleton]
    omega
  have refused : lengthUTF8 (front ++ lead :: rest ++ [0]) = .ok none := by
    rw [lengthUTF8_text noNul, List.append_assoc, List.cons_append, turns,
      lengthLoop_sequences sequences noNulFront _ _ 0]
    simp only [lengthLoop, bad]
  rw [importUnicode]
  simp only [refused, ok_bind]
  rfl

/--
A string is imported safely exactly when it does not end inside a sequence, or
the memory for the sequences in front of that one is not granted: the sequence
that the terminator cuts off is not counted, and is decoded all the same.
-/
theorem import_safe_iff (allocation : Allocation) : ImportsSafely allocation text ↔ ∀ count,
        CutOff count text → allocation.grants (4 * (count + 1)) = false := by
  constructor
  · rintro ⟨result, imported, _⟩ count cutOff
    rw [import_cutOff noNul cutOff] at imported
    by_contra granted
    rw [if_pos (Bool.eq_true_of_not_eq_false granted)] at imported
    cases imported
  · intro refused
    rcases sequences_cases text with ⟨count, whole⟩ | ⟨count, cutOff⟩ | stray
    · obtain ⟨chars, length, imported⟩ :=
        import_sequences noNul whole allocation
      refine ⟨_, imported, fun given same => ?_⟩
      split at same
      · cases same
        exact ⟨chars, rfl, length.symm, by rw [length]⟩
      · cases same
    · refine ⟨none, ?_, nofun⟩
      rw [import_cutOff noNul cutOff, refused count cutOff]
      rfl
    · exact ⟨none, import_stray noNul stray allocation, nofun⟩

end Import

theorem import_safe_iff_stray_byte : ImportsSafely .zeroed [65, 0x80] := by
  refine (@import_safe_iff [65, 0x80] (by decide) .zeroed).mpr ?_
  rintro count ⟨front, lead, tail, n, shape, _, announced, short⟩
  rcases front with _ | ⟨first, _ | ⟨second, more⟩⟩
  · obtain ⟨rfl, rfl⟩ := List.cons.inj shape
    cases announced
    cases short
    contradiction
  · obtain ⟨-, rest⟩ := List.cons.inj shape
    obtain ⟨rfl, -⟩ := List.cons.inj rest
    cases announced
  · simp at shape

theorem import_overruns_cut_sequence :
    importUnicode .utf8 .zeroed ([0xc3] ++ [0]) = .error .undefined ∧
      ¬ ImportsSafely .zeroed [0xc3] := by
  refine ⟨rfl, ?_⟩
  rintro ⟨_, imported, _⟩
  cases imported

end Agar.Core
