import Mathlib

namespace Agar.Lib

/-!
# Integers of C

Integer types with their ranges, and values that lie in them.  Operands are
promoted to `int`, which has 32 bits, and converted to a common type before
they are computed with.  A result that a signed type does not hold is
undefined; one of an unsigned type wraps, and so does a conversion.
-/

/-! ## Types -/

/-- The widths of integers -/
inductive Width where
  | w8
  | w16
  | w32
  | w64
  deriving Repr, DecidableEq

namespace Width

/-- The number of bits -/
def bits : Width → Nat
  | .w8 => 8
  | .w16 => 16
  | .w32 => 32
  | .w64 => 64

/-- Whether `int` holds every number of the width -/
def narrow : Width → Bool
  | .w8 => true
  | .w16 => true
  | .w32 => false
  | .w64 => false

end Width

/-- An integer type -/
structure CType where
  width : Width
  signed : Bool
  deriving Repr, DecidableEq

namespace CType

/-- The number of values -/
def size (t : CType) : Int := 2 ^ t.width.bits

/-- The least value -/
def least (t : CType) : Int :=
  if t.signed then -2 ^ (t.width.bits - 1) else 0

/-- The greatest value -/
def greatest (t : CType) : Int :=
  if t.signed then 2 ^ (t.width.bits - 1) - 1 else 2 ^ t.width.bits - 1

/-- A type holds a number. -/
def Holds (t : CType) (value : Int) : Prop := t.least ≤ value ∧ value ≤ t.greatest

instance (t : CType) (value : Int) : Decidable (t.Holds value) :=
  inferInstanceAs (Decidable (_ ∧ _))

/-- The number of a type that a number wraps to -/
def wrap (t : CType) (value : Int) : Int := (value - t.least) % t.size + t.least

/-- `int` -/
def int : CType := ⟨.w32, true⟩

/-- The type that an operand is promoted to -/
def promoted (t : CType) : CType :=
  if t.width.narrow then int else t

/-- The type that two operands are converted to -/
def common (t u : CType) : CType :=
  let t := t.promoted
  let u := u.promoted
  if t.width = u.width then ⟨t.width, t.signed && u.signed⟩
  else if t.width.bits < u.width.bits then u
  else t

end CType

/-! ## Values -/

/-- A value of an integer type -/
structure CInt (t : CType) where
  val : Int
  holds : t.Holds val
  deriving DecidableEq

namespace CType

variable {t u : CType} {value : Int}

theorem holds_wrap (t : CType) (value : Int) : t.Holds (t.wrap value) := by
  obtain ⟨width, signed⟩ := t
  unfold Holds wrap
  cases width <;> cases signed <;>
    simp only [least, greatest, size, Width.bits] <;> norm_num <;> omega

theorem wrap_of_holds (holds : t.Holds value) : t.wrap value = value := by
  obtain ⟨width, signed⟩ := t
  unfold Holds at holds
  unfold wrap
  cases width <;> cases signed <;>
    simp only [least, greatest, size, Width.bits] at holds ⊢ <;>
    norm_num at holds ⊢ <;> omega

theorem wrap_eq_of_holds {turns : Int} (holds : t.Holds (value - turns * t.size)) :
    t.wrap value = value - turns * t.size := by
  have same : t.wrap (value - turns * t.size) = t.wrap value := by
    unfold wrap
    rw [sub_right_comm, Int.sub_mul_emod_self_right]
  rw [← same, wrap_of_holds holds]

theorem holds_promoted (holds : t.Holds value) : t.promoted.Holds value := by
  obtain ⟨width, signed⟩ := t
  unfold Holds at holds ⊢
  cases width <;> cases signed <;>
    simp only [promoted, Width.narrow, int, least, greatest, Width.bits,
      Bool.false_eq_true, if_true, if_false] at holds ⊢ <;>
    norm_num at holds ⊢ <;> omega

@[simp] theorem promoted_int : int.promoted = int := rfl

@[simp] theorem promoted_promoted (t : CType) : t.promoted.promoted = t.promoted := by
  obtain ⟨width, signed⟩ := t
  cases width <;> rfl

@[simp] theorem common_self (t : CType) : t.common t = t.promoted := by simp [common]

@[simp] theorem common_promoted_left (t u : CType) : t.promoted.common u = t.common u := by
  simp [common]

@[simp] theorem common_promoted_right (t u : CType) : t.common u.promoted = t.common u := by
  simp [common]

@[simp] theorem common_int (t : CType) : t.common int = t.promoted := by
  obtain ⟨width, signed⟩ := t
  cases width <;> cases signed <;> rfl

@[simp] theorem int_common (t : CType) : int.common t = t.promoted := by
  obtain ⟨width, signed⟩ := t
  cases width <;> cases signed <;> rfl

theorem holds_promoted_of_int (holds : int.Holds value) (nonneg : 0 ≤ value) :
    t.promoted.Holds value := by
  obtain ⟨width, signed⟩ := t
  unfold Holds at holds ⊢
  cases width <;> cases signed <;>
    simp only [promoted, Width.narrow, int, least, greatest, Width.bits,
      Bool.false_eq_true, if_true, if_false] at holds ⊢ <;>
    norm_num at holds ⊢ <;> omega

theorem int_wrap_promoted (t : CType) (holds : int.Holds value) :
    int.wrap (t.promoted.wrap value) = value := by
  obtain ⟨width, signed⟩ := t
  unfold Holds at holds
  unfold wrap
  cases width <;> cases signed <;>
    simp only [promoted, Width.narrow, int, least, greatest, size, Width.bits,
      Bool.false_eq_true, if_true, if_false] at holds ⊢ <;>
    norm_num at holds ⊢ <;> omega

theorem least_nonpos (t : CType) : t.least ≤ 0 := by
  obtain ⟨width, signed⟩ := t
  cases width <;> cases signed <;> decide

theorem zero_le_greatest (t : CType) : 0 ≤ t.greatest := by
  obtain ⟨width, signed⟩ := t
  cases width <;> cases signed <;> decide

theorem least_of_unsigned (unsigned : t.signed = false) : t.least = 0 := by
  rw [least, unsigned]
  rfl

theorem greatest_of_unsigned (unsigned : t.signed = false) : t.greatest = t.size - 1 := by
  rw [greatest, unsigned]
  rfl

theorem Holds.between {low high : Int} (holdsLow : t.Holds low) (holdsHigh : t.Holds high)
    (above : low ≤ value) (below : value ≤ high) : t.Holds value :=
  ⟨holdsLow.1.trans above, below.trans holdsHigh.2⟩

end CType

namespace CInt

variable {t u : CType}

/-- A value converted to a type -/
def convert (u : CType) (a : CInt t) : CInt u := ⟨u.wrap a.val, u.holds_wrap a.val⟩

/-- `a < b` -/
def lt (a : CInt t) (b : CInt u) : Bool :=
  (a.convert (t.common u)).val < (b.convert (t.common u)).val

end CInt

/-- The result of an operation, none where it is undefined -/
def CType.compute (t : CType) (value : Int) : Option (CInt t) :=
  if t.signed = true ∧ ¬ t.Holds value then none else some ⟨t.wrap value, t.holds_wrap value⟩

namespace CInt

variable {t u : CType}

/-- `a + b` -/
def add (a : CInt t) (b : CInt u) : Option (CInt (t.common u)) :=
  (t.common u).compute ((a.convert (t.common u)).val + (b.convert (t.common u)).val)

/-- `a - b` -/
def sub (a : CInt t) (b : CInt u) : Option (CInt (t.common u)) :=
  (t.common u).compute ((a.convert (t.common u)).val - (b.convert (t.common u)).val)

/-- `a * b` -/
def mul (a : CInt t) (b : CInt u) : Option (CInt (t.common u)) :=
  (t.common u).compute ((a.convert (t.common u)).val * (b.convert (t.common u)).val)

/-- `a / b`, which is truncated towards zero -/
def div (a : CInt t) (b : CInt u) : Option (CInt (t.common u)) :=
  if (b.convert (t.common u)).val = 0 then none
  else (t.common u).compute ((a.convert (t.common u)).val.tdiv (b.convert (t.common u)).val)

/-! ## Values that need no conversion -/

variable {a : CInt t} {b : CInt u}

theorem eq_of_val_eq {first second : CInt t} (same : first.val = second.val) : first = second := by
  cases first
  cases second
  cases same
  rfl

theorem convert_val (holds : u.Holds a.val) : (a.convert u).val = a.val := CType.wrap_of_holds holds

theorem lt_eq (left : (t.common u).Holds a.val) (right : (t.common u).Holds b.val) :
    a.lt b = decide (a.val < b.val) := by
  rw [lt, convert_val left, convert_val right]

theorem add_eq (left : (t.common u).Holds a.val) (right : (t.common u).Holds b.val) :
    a.add b = (t.common u).compute (a.val + b.val) := by
  rw [add, convert_val left, convert_val right]

theorem sub_eq (left : (t.common u).Holds a.val) (right : (t.common u).Holds b.val) :
    a.sub b = (t.common u).compute (a.val - b.val) := by
  rw [sub, convert_val left, convert_val right]

theorem mul_eq (left : (t.common u).Holds a.val) (right : (t.common u).Holds b.val) :
    a.mul b = (t.common u).compute (a.val * b.val) := by
  rw [mul, convert_val left, convert_val right]

theorem div_eq (left : (t.common u).Holds a.val) (right : (t.common u).Holds b.val)
    (nonzero : b.val ≠ 0) : a.div b = (t.common u).compute (a.val.tdiv b.val) := by
  rw [div, convert_val left, convert_val right, if_neg nonzero]

theorem holds_common_self (a : CInt t) : (t.common t).Holds a.val := by
  rw [CType.common_self]
  exact CType.holds_promoted a.holds

end CInt

namespace CType

variable {t : CType} {value : Int}

theorem compute_of_holds (holds : t.Holds value) : t.compute value = some ⟨value, holds⟩ := by
  rw [compute, if_neg fun undefined => undefined.2 holds]
  simp only [wrap_of_holds holds]

theorem compute_of_signed (signed : t.signed = true) (outside : ¬ t.Holds value) :
    t.compute value = none :=
  if_pos ⟨signed, outside⟩

theorem compute_of_unsigned (unsigned : t.signed = false) (value : Int) :
    t.compute value = some ⟨t.wrap value, t.holds_wrap value⟩ :=
  if_neg fun undefined => Bool.false_ne_true (unsigned.symm.trans undefined.1)

theorem compute_of_wraps {turns : Int} (unsigned : t.signed = false)
    (holds : t.Holds (value - turns * t.size)) :
    ∃ result, t.compute value = some result ∧ result.val = value - turns * t.size :=
  ⟨_, compute_of_unsigned unsigned value, wrap_eq_of_holds holds⟩

theorem wrap_of_unsigned (unsigned : t.signed = false) (value : Int) :
    t.wrap value = value % t.size := by
  rw [wrap, least_of_unsigned unsigned, Int.sub_zero, Int.add_zero]

theorem wrap_mem_of_unsigned (unsigned : t.signed = false) (nonneg : 0 ≤ value) :
    0 ≤ t.wrap value ∧ t.wrap value ≤ value := by
  have positive : 0 < t.size := by
    unfold size
    positivity
  have whole := Int.mul_ediv_add_emod value t.size
  have turns : 0 ≤ t.size * (value / t.size) :=
    Int.mul_nonneg positive.le (Int.ediv_nonneg nonneg positive.le)
  rw [wrap_of_unsigned unsigned]
  exact ⟨Int.emod_nonneg value positive.ne', by omega⟩

theorem Holds.of_le {high : Int} (holds : t.Holds high) (nonneg : 0 ≤ value)
    (below : value ≤ high) : t.Holds value :=
  ⟨t.least_nonpos.trans nonneg, below.trans holds.2⟩

theorem promoted_of_unsigned (unsigned : t.promoted.signed = false) :
    t.promoted = t ∧ t.signed = false := by
  obtain ⟨width, signed⟩ := t
  cases width <;> cases signed <;> revert unsigned <;> decide

theorem twice_int_lt_size (unsigned : t.promoted.signed = false) :
    2 * int.greatest < t.promoted.size := by
  obtain ⟨width, signed⟩ := t
  cases width <;> cases signed <;> revert unsigned <;> decide

end CType

namespace CInt

variable {t : CType} {a b : CInt t}

theorem add_of_holds (holds : t.promoted.Holds (a.val + b.val)) :
    ∃ sum, a.add b = some sum ∧ sum.val = a.val + b.val := by
  rw [add_eq a.holds_common_self b.holds_common_self,
    CType.compute_of_holds (by rwa [CType.common_self])]
  exact ⟨_, rfl, rfl⟩

theorem sub_of_holds (holds : t.promoted.Holds (a.val - b.val)) :
    ∃ difference, a.sub b = some difference ∧ difference.val = a.val - b.val := by
  rw [sub_eq a.holds_common_self b.holds_common_self,
    CType.compute_of_holds (by rwa [CType.common_self])]
  exact ⟨_, rfl, rfl⟩

theorem add_of_not_holds (nonneg : 0 ≤ b.val) (outside : ¬ t.promoted.Holds (a.val + b.val)) :
    t.promoted.signed = true ∧ a.add b = none ∨ t.promoted.signed = false ∧ t.promoted = t ∧
        ∃ sum, a.add b = some sum ∧ sum.val < a.val := by
  rw [add_eq a.holds_common_self b.holds_common_self]
  cases signed : t.promoted.signed with
  | true =>
    refine .inl ⟨rfl, CType.compute_of_signed ?_ ?_⟩ <;>
      rwa [CType.common_self]
  | false =>
    obtain ⟨same, unsigned⟩ := CType.promoted_of_unsigned signed
    have once : (t.common t).Holds (a.val + b.val - 1 * (t.common t).size) := by
      have left := a.holds
      have right := b.holds
      rw [CType.common_self, same]
      rw [same] at outside
      unfold CType.Holds at left right outside ⊢
      rw [CType.least_of_unsigned unsigned,
        CType.greatest_of_unsigned unsigned] at left right outside ⊢
      omega
    obtain ⟨result, computed, value⟩ := CType.compute_of_wraps (by rwa [CType.common_self]) once
    refine .inr ⟨rfl, same, result, computed, ?_⟩
    have sizes : (t.common t).size = t.size := by rw [CType.common_self, same]
    have small := b.holds.2
    rw [CType.greatest_of_unsigned unsigned] at small
    omega

theorem sub_of_not_holds (nonneg : 0 ≤ b.val) (outside : ¬ t.promoted.Holds (a.val - b.val)) :
    t.promoted.signed = true ∧ a.sub b = none ∨ t.promoted.signed = false ∧ t.promoted = t ∧
        ∃ difference, a.sub b = some difference ∧ a.val < difference.val := by
  rw [sub_eq a.holds_common_self b.holds_common_self]
  cases signed : t.promoted.signed with
  | true =>
    refine .inl ⟨rfl, CType.compute_of_signed ?_ ?_⟩ <;>
      rwa [CType.common_self]
  | false =>
    obtain ⟨same, unsigned⟩ := CType.promoted_of_unsigned signed
    have once : (t.common t).Holds (a.val - b.val - (-1) * (t.common t).size) := by
      have left := a.holds
      have right := b.holds
      rw [CType.common_self, same]
      rw [same] at outside
      unfold CType.Holds at left right outside ⊢
      rw [CType.least_of_unsigned unsigned,
        CType.greatest_of_unsigned unsigned] at left right outside ⊢
      omega
    obtain ⟨result, computed, value⟩ := CType.compute_of_wraps (by rwa [CType.common_self]) once
    refine .inr ⟨rfl, same, result, computed, ?_⟩
    have sizes : (t.common t).size = t.size := by rw [CType.common_self, same]
    have small := b.holds.2
    rw [CType.greatest_of_unsigned unsigned] at small
    omega

theorem div_of_nonneg {u : CType} {a : CInt t} {b : CInt u} (left : (t.common u).Holds a.val)
    (right : (t.common u).Holds b.val) (nonneg : 0 ≤ a.val) (positive : 0 < b.val) :
    ∃ quotient, a.div b = some quotient ∧ quotient.val = a.val / b.val := by
  have holds : (t.common u).Holds (a.val / b.val) :=
    left.of_le (Int.ediv_nonneg nonneg positive.le) (Int.ediv_le_self _ nonneg)
  rw [div_eq left right positive.ne', Int.tdiv_eq_ediv_of_nonneg nonneg,
    CType.compute_of_holds holds]
  exact ⟨_, rfl, rfl⟩

end CInt

/-! ## Defined results -/

namespace CType

/-- A result is defined: an unsigned one wraps, and a signed one has to fit. -/
def Defined (t : CType) (value : Int) : Prop := t.signed = true → t.Holds value

section

variable {t u : CType} {value : Int}

theorem Holds.defined (holds : t.Holds value) : t.Defined value := fun _ => holds

theorem defined_of_unsigned (unsigned : t.signed = false) : t.Defined value :=
  fun signed => absurd (unsigned.symm.trans signed) Bool.false_ne_true

theorem compute_of_defined (defined : t.Defined value) :
    ∃ result, t.compute value = some result ∧ result.val = t.wrap value :=
  ⟨_, if_neg fun undefined => undefined.2 (defined undefined.1), rfl⟩

theorem compute_of_not_defined (undefined : ¬ t.Defined value) : t.compute value = none :=
  if_pos (Classical.not_imp.mp undefined)

theorem holds_common_of_signed (signed : (t.common u).signed = true) (holds : t.Holds value) :
    (t.common u).Holds value := by
  have wider : (t.common u).least ≤ t.least ∧ t.greatest ≤ (t.common u).greatest := by
    obtain ⟨width, sign⟩ := t
    obtain ⟨otherWidth, otherSign⟩ := u
    cases width <;> cases sign <;> cases otherWidth <;> cases otherSign <;>
      revert signed <;> decide
  exact ⟨wider.1.trans holds.1, holds.2.trans wider.2⟩

theorem common_comm (t u : CType) : t.common u = u.common t := by
  obtain ⟨width, signed⟩ := t
  obtain ⟨otherWidth, otherSigned⟩ := u
  cases width <;> cases signed <;> cases otherWidth <;> cases otherSigned <;>
    rfl

theorem wrap_mul_wrap (unsigned : t.signed = false) (value other : Int) :
    t.wrap (t.wrap value * t.wrap other) = t.wrap (value * other) := by
  rw [wrap_of_unsigned unsigned, wrap_of_unsigned unsigned,
    wrap_of_unsigned unsigned, wrap_of_unsigned unsigned, ← Int.mul_emod]

theorem wrap_sub_wrap (unsigned : t.signed = false) (value other : Int) :
    t.wrap (t.wrap value - t.wrap other) = t.wrap (value - other) := by
  rw [wrap_of_unsigned unsigned, wrap_of_unsigned unsigned,
    wrap_of_unsigned unsigned, wrap_of_unsigned unsigned, ← Int.sub_emod]

theorem wrap_add_wrap (unsigned : t.signed = false) (value other : Int) :
    t.wrap (t.wrap value + t.wrap other) = t.wrap (value + other) := by
  rw [wrap_of_unsigned unsigned, wrap_of_unsigned unsigned,
    wrap_of_unsigned unsigned, wrap_of_unsigned unsigned, ← Int.add_emod]

theorem Holds.tdiv {divisor : Int} (holds : t.Holds value) (positive : 0 < divisor) :
    t.Holds (value.tdiv divisor) := by
  rcases le_total 0 value with nonneg | nonpos
  · rw [Int.tdiv_eq_ediv_of_nonneg nonneg]
    exact holds.of_le (Int.ediv_nonneg nonneg positive.le) (Int.ediv_le_self _ nonneg)
  · have bound := Int.tdiv_nonneg (neg_nonneg.mpr nonpos) positive.le
    have small : (-value).tdiv divisor ≤ -value := by
      rw [Int.tdiv_eq_ediv_of_nonneg (neg_nonneg.mpr nonpos)]
      exact Int.ediv_le_self _ (neg_nonneg.mpr nonpos)
    rw [Int.neg_tdiv] at bound small
    refine ⟨holds.1.trans (by omega), le_trans (by omega : _ ≤ (0 : Int)) ?_⟩
    exact t.zero_le_greatest

end

end CType

namespace CInt

variable {t u : CType} {a : CInt t} {b : CInt u}

theorem converted_of_signed (signed : (t.common u).signed = true) :
    (a.convert (t.common u)).val = a.val ∧ (b.convert (t.common u)).val = b.val := by
  refine ⟨convert_val (CType.holds_common_of_signed signed a.holds), convert_val ?_⟩
  rw [CType.common_comm] at signed ⊢
  exact CType.holds_common_of_signed signed b.holds

theorem mul_eq_compute (a : CInt t) (b : CInt u) :
    a.mul b = (t.common u).compute (a.val * b.val) := by
  rw [mul]
  cases signed : (t.common u).signed with
  | true =>
    obtain ⟨left, right⟩ := @converted_of_signed t u a b signed
    rw [left, right]
  | false =>
    rw [CType.compute_of_unsigned signed, CType.compute_of_unsigned signed]
    simp only [convert, CType.wrap_mul_wrap signed]

theorem sub_eq_compute (a : CInt t) (b : CInt u) :
    a.sub b = (t.common u).compute (a.val - b.val) := by
  rw [sub]
  cases signed : (t.common u).signed with
  | true =>
    obtain ⟨left, right⟩ := @converted_of_signed t u a b signed
    rw [left, right]
  | false =>
    rw [CType.compute_of_unsigned signed, CType.compute_of_unsigned signed]
    simp only [convert, CType.wrap_sub_wrap signed]

theorem add_eq_compute (a : CInt t) (b : CInt u) :
    a.add b = (t.common u).compute (a.val + b.val) := by
  rw [add]
  cases signed : (t.common u).signed with
  | true =>
    obtain ⟨left, right⟩ := @converted_of_signed t u a b signed
    rw [left, right]
  | false =>
    rw [CType.compute_of_unsigned signed, CType.compute_of_unsigned signed]
    simp only [convert, CType.wrap_add_wrap signed]

theorem convert_convert_int {promoted : CType} (isPromoted : promoted = t.promoted)
    (a : CInt .int) : ((a.convert promoted).convert .int).val = a.val := by
  subst isPromoted
  exact CType.int_wrap_promoted t a.holds

theorem div_of_pos (left : (t.common u).Holds a.val) (right : (t.common u).Holds b.val)
    (positive : 0 < b.val) :
    ∃ quotient, a.div b = some quotient ∧ quotient.val = a.val.tdiv b.val := by
  rw [div_eq left right positive.ne', CType.compute_of_holds (left.tdiv positive)]
  exact ⟨_, rfl, rfl⟩

end CInt

end Agar.Lib
