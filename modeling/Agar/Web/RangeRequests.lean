import Agar.Core.GeneratedName
import Agar.Web.TypedArguments

namespace Agar.Web

open Agar.Lib
open Agar.Core

/-!
# Ranges of a response

`ParseRange` reads the two numbers of a `Range` header, and
`WEB_FlushQuery_RANGE` sends the bytes between them.  The numbers are of type
`int`, and so is their sum; the response is a status, two headers and bytes of
the data.

The page that comes with a refusal is left out.
-/

/-- How a request for a range is answered -/
inductive RangeAnswer where
  /-- `206 Partial Content`, two headers and what is sent behind them -/
  | partialContent (contentRange contentLength body : List UInt8)
  /-- `416 Range Not Satisfiable` -/
  | notSatisfiable
  deriving DecidableEq

/-- A number as `%d`, `%u` or `%lu` print it -/
def decimal (n : Nat) : List UInt8 := (decimalDigits n).reverse

/-- The value of `Content-Range` for a range of data -/
def contentRange (first last dataLen : Nat) : List UInt8 :=
  ascii "bytes " ++ decimal first ++ ascii "-" ++ decimal last ++ ascii "/" ++ decimal dataLen

/-- The sum of two `int`, as it is compared with a `size_t` -/
def intSum (first last : Int) : Nat := sizeT (Int.bmod (first + last) (2 ^ 32))

/-- `WEB_FlushQuery_RANGE` -/
def flushQueryRange (q : WebQuery) (data : List UInt8) : RangeAnswer :=
  if q.rangeFrom > q.rangeTo ∨ sizeT q.rangeTo > data.length ∨
      intSum q.rangeFrom q.rangeTo > data.length then
    .notSatisfiable
  else
    let rangeLen := ((q.rangeTo - q.rangeFrom) % 2 ^ 32).toNat
    .partialContent (contentRange q.rangeFrom.toNat q.rangeTo.toNat data.length) (decimal rangeLen)
      (if q.method ≠ .head then (data.drop q.rangeFrom.toNat).take rangeLen else [])

/-- The answer to a request with a `Range` header, of which `s` is the value -/
def answerRange (q : WebQuery) (s data : List UInt8) : RangeAnswer :=
  match parseRange q s with
  | .error _ => .notSatisfiable
  | .ok q => flushQueryRange q data

/-- A range names a byte of the data. -/
def Satisfiable (first last dataLen : Nat) : Prop := first ≤ last ∧ first < dataLen

/--
The answer has the bytes of the range, where they all are there, with headers
that say so; and it is a refusal exactly where the range names none.
-/
structure AnswersRange (q : WebQuery) (first last : Nat) (data : List UInt8)
    (answer : RangeAnswer) : Prop where
  carries : first ≤ last → last < data.length → answer =
      .partialContent (contentRange first last data.length) (decimal (last - first + 1))
        (if q.method ≠ .head then (data.drop first).take (last - first + 1) else [])
  refuses : answer = .notSatisfiable ↔ ¬ Satisfiable first last data.length

/-! ## Numbers in the header -/

theorem isDigit_decimal {n : Nat} {c : UInt8} (inside : c ∈ decimal n) : isDigit c = true := by
  rw [decimal, List.mem_reverse, decimalDigits] at inside
  split at inside
  · rw [List.mem_singleton] at inside
    subst c
    rfl
  · obtain ⟨digit, member, rfl⟩ := List.mem_map.mp inside
    have small : digit < 10 := Nat.digits_lt_base (by decide) member
    interval_cases digit <;> rfl

theorem decimal_ne_nil (n : Nat) : decimal n ≠ [] := by
  rw [decimal, ne_eq, List.reverse_eq_nil_iff, decimalDigits_cons]
  exact List.cons_ne_nil _ _

theorem foldl_decimal (n : Nat) :
    (decimal n).foldl (fun value c => 10 * value + (c.toNat - 48)) 0 = n := by
  rw [decimal, List.foldl_reverse]
  conv_rhs => rw [← ofDigits_decimalDigits n]
  rw [Nat.ofDigits_eq_foldr, List.foldr_map]
  congr 1
  funext c value
  simp [Nat.add_comm]

theorem signOf_decimal (n : Nat) : signOf (decimal n) = (1, decimal n) := by
  unfold signOf
  split
  · rename_i same
    have digit := isDigit_decimal (same ▸ List.mem_cons_self)
    cases digit
  · rename_i same
    have digit := isDigit_decimal (same ▸ List.mem_cons_self)
    cases digit
  · rfl

theorem dropWhile_decimal (n : Nat) : (decimal n).dropWhile isSpace = decimal n := by
  cases text : decimal n with
  | nil => rfl
  | cons c rest =>
    have first : isDigit c = true := isDigit_decimal (text ▸ List.mem_cons_self)
    have space : ¬ isSpace c = true := fun space =>
      Bool.false_ne_true ((isDigit_of_isSpace space).symm.trans first)
    exact List.dropWhile_cons_of_neg space

theorem strtoll_decimal (n : Nat) : strtoll (decimal n) = (min (2 ^ 63 - 1) (n : Int), []) := by
  have all : (decimal n).takeWhile isDigit = decimal n :=
    List.takeWhile_eq_self_iff.mpr fun _ => isDigit_decimal
  have value := foldl_decimal n
  simp only [strtoll, dropWhile_decimal, signOf_decimal, all, value,
    decimal_ne_nil, if_false, List.drop_length, one_mul]
  congr 1
  omega

theorem strtonum_decimal (n : Nat) : strtonum (decimal n) 0 intMax =
      if n < 2 ^ 31 then some (n : Int) else none := by
  simp only [strtonum, strtoll_decimal, decimal_ne_nil, false_or, ne_eq, not_true_eq_false, intMax]
  by_cases small : n < 2 ^ 31
  · rw [if_pos small, if_neg (by omega)]
    congr 1
    omega
  · rw [if_neg small, if_pos (by omega)]

theorem strsep_decimal (first last : Nat) :
    strsep (ascii "-") (decimal first ++ ascii "-" ++ decimal last) =
      [decimal first, decimal last] := by
  have plain : ∀ n, ∀ c ∈ decimal n, (ascii "-").contains c = false := by
    intro n c inside
    have digit := isDigit_decimal inside
    rw [Bool.eq_false_iff]
    intro hyphen
    obtain rfl : c = 45 := by simpa [ascii] using hyphen
    cases digit
  have between : ascii "-" = [45] := rfl
  rw [strsep, between, List.append_assoc, List.singleton_append, ← between,
    List.splitOnP_append_cons_of_forall_mem (plain first) 45 rfl,
    List.splitOnP_eq_singleton (plain last)]

/-! ## The answers -/

theorem answerRange_unit (q : WebQuery) (rest data : List UInt8) :
    answerRange q (ascii "bytes=" ++ rest) data = .notSatisfiable := by
  have refused : ∀ text : List UInt8, strtonum (98 :: text) 0 intMax = none := by
    intro text
    have read : strtoll (98 :: text) = (0, 98 :: text) := rfl
    simp [strtonum, read]
  have unit : ascii "bytes=" ++ rest = 98 :: (ascii "ytes=" ++ rest) := rfl
  have token : ∃ text tokens, strsep (ascii "-") (98 :: (ascii "ytes=" ++ rest)) =
          (98 :: text) :: tokens := by
    unfold strsep
    rw [List.splitOnP_cons_eq_if_modifyHead, if_neg (by decide)]
    obtain ⟨text, tokens, same⟩ :=
      List.exists_cons_of_ne_nil (List.splitOnP_ne_nil (fun c => (ascii "-").contains c)
          (ascii "ytes=" ++ rest))
    rw [same]
    exact ⟨text, tokens, rfl⟩
  obtain ⟨text, tokens, tokenized⟩ := token
  rw [answerRange, parseRange, unit]
  split
  · rename_i failed
    rfl
  · rename_i parsed
    rw [tokenized] at parsed
    split at parsed
    · cases parsed
    · cases tokens with
      | nil => cases parsed
      | cons last tokens => simp [refused] at parsed

theorem intSum_zero {last : Nat} (small : last < 2 ^ 31) : intSum (0 : Nat) last = last := by
  unfold intSum sizeT
  rw [Int.bmod_def]
  split <;> omega

theorem eq_zero_of_intSum_le {first last len : Nat} (small : first < 2 ^ 31) (also : last < 2 ^ 31)
    (same : len ≤ last) (sum : intSum first last ≤ len) : first = 0 := by
  unfold intSum sizeT at sum
  rw [Int.bmod_def] at sum
  split at sum <;> omega

theorem answerRange_decimal (q : WebQuery) (first last : Nat) (data : List UInt8) :
    answerRange q (decimal first ++ ascii "-" ++ decimal last) data =
      if first < 2 ^ 31 ∧ last < 2 ^ 31 ∧ first ≤ last ∧
          last ≤ data.length ∧ intSum first last ≤ data.length then
        .partialContent (contentRange first last data.length) (decimal (last - first))
          (if q.method ≠ .head then (data.drop first).take (last - first) else [])
      else
        .notSatisfiable := by
  have noComma : (ascii ",").any (decimal first ++ ascii "-" ++ decimal last).contains = false := by
    rw [Bool.eq_false_iff]
    intro found
    have comma : (44 : UInt8) ∈ decimal first ++ ascii "-" ++ decimal last := by
      simpa [ascii] using found
    rcases List.mem_append.mp comma with front | back
    · rcases List.mem_append.mp front with digit | hyphen
      · cases isDigit_decimal digit
      · revert hyphen
        decide
    · cases isDigit_decimal back
  rw [answerRange, parseRange, noComma, if_neg Bool.false_ne_true, strsep_decimal]
  dsimp only
  rw [strtonum_decimal, strtonum_decimal]
  by_cases small : first < 2 ^ 31
  · by_cases also : last < 2 ^ 31
    · rw [if_pos small, if_pos also]
      have size : sizeT (last : Int) = last := by
        unfold sizeT
        omega
      have length : (((last : Int) - first) % 2 ^ 32).toNat = last - first ∨ last < first := by
        omega
      simp only [flushQueryRange, WebQuery.setFlag, size, Int.toNat_natCast]
      by_cases refused : last < first ∨ data.length < last ∨ data.length < intSum first last
      · rw [if_pos (by omega), if_neg (by omega)]
      · rw [if_neg (by omega), if_pos (by omega), length.resolve_right (by omega)]
        rfl
    · rw [if_pos small, if_neg also, if_neg fun all => also all.2.1]
  · have outside : ¬ (first < 2 ^ 31 ∧ last < 2 ^ 31 ∧ first ≤ last ∧
          last ≤ data.length ∧ intSum first last ≤ data.length) :=
      fun all => small all.1
    rw [if_neg small, if_neg outside]

theorem decimal_injective {first second : Nat} (same : decimal first = decimal second) :
    first = second := by
  rw [← foldl_decimal first, same, foldl_decimal]

/--
A range with its unit is answered right exactly where it is not satisfiable.
One without is, exactly where it is empty, or lies behind the data and is not
its first byte, or is all of the data and one byte more.
-/
theorem answersRange_iff (q : WebQuery) (first last : Nat) (data : List UInt8) :
    (AnswersRange q first last data (answerRange q
            (ascii "bytes=" ++ (decimal first ++ ascii "-" ++ decimal last))
            data) ↔
        ¬ Satisfiable first last data.length) ∧
      (AnswersRange q first last data
          (answerRange q (decimal first ++ ascii "-" ++ decimal last) data) ↔
        last < first ∨ (data.length ≤ first ∧ 0 < last) ∨
            (first = 0 ∧ last = data.length ∧ 0 < last ∧ last < 2 ^ 31)) := by
  constructor
  · rw [answerRange_unit]
    constructor
    · exact fun right => right.refuses.mp rfl
    · intro outside
      refine ⟨fun ordered inside => ?_, iff_of_true rfl outside⟩
      exact absurd ⟨ordered, by omega⟩ outside
  · rw [answerRange_decimal]
    have short : ∀ body other, RangeAnswer.partialContent (contentRange first last data.length)
            (decimal (last - first)) body ≠
          .partialContent (contentRange first last data.length)
            (decimal (last - first + 1)) other := by
      intro body other same
      have lengths := decimal_injective (RangeAnswer.partialContent.inj same).2.1
      omega
    by_cases within : first ≤ last ∧ last < data.length
    · refine iff_of_false ?_ (by omega)
      intro right
      have carried := right.carries within.1 within.2
      split at carried
      · exact short _ _ carried
      · cases carried
    · have right_iff : ∀ answer, AnswersRange q first last data answer ↔ (answer = .notSatisfiable ↔
              ¬ Satisfiable first last data.length) := by
        intro answer
        refine ⟨fun right => right.refuses, fun refuses => ⟨?_, refuses⟩⟩
        exact fun ordered inside => absurd ⟨ordered, inside⟩ within
      rw [right_iff]
      unfold Satisfiable
      split
      · rename_i sent
        obtain ⟨small, also, ordered, inside, sum⟩ := sent
        have start := eq_zero_of_intSum_le small also (by omega) sum
        simp only [reduceCtorEq, false_iff, not_not]
        omega
      · rename_i refused
        have start : last < 2 ^ 31 → intSum (0 : Nat) last = last := intSum_zero
        simp only [true_iff]
        constructor
        · intro outside
          by_cases none : first = 0 ∧ last = 0
          · obtain ⟨rfl, rfl⟩ := none
            have sum := start (by decide)
            omega
          · omega
        · rintro (backwards | ⟨behind, -⟩ | ⟨rfl, rfl, positive, also⟩)
          · omega
          · omega
          · have sum := start also
            omega

theorem first_byte_missing : ¬ AnswersRange (queryInit ⟨0, 0⟩ []) 0 0 (ascii "ab")
        (answerRange (queryInit ⟨0, 0⟩ []) (ascii "0-0") (ascii "ab")) := by
  intro right
  have sent := right.carries (Nat.le_refl 0) (by decide)
  revert sent
  decide

end Agar.Web
