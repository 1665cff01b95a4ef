import Agar.Core.DataSource
import Agar.Lib.OwnedHeap

namespace Agar.Core

open Agar.Lib

/-!
# Comparing network addresses

`AG_NetAddrCompare` subtracts families, ports and addresses, and compares the
paths of local addresses.  The order of IPv4 addresses is that of differences
modulo `2 ^ 32`; of IPv6 addresses, the code subtracts the pointers to the
arrays, which is defined within one record only, and so is what it does behind
two equal IPv4 addresses.
-/

/-- The path of a socket: a string without a NUL byte -/
structure NetPath where
  bytes : List UInt8
  noNul : 0 ∉ bytes

instance : DecidableEq NetPath :=
  fun path other =>
    decidable_of_iff (path.bytes = other.bytes) (by
      cases path
      cases other
      rw [NetPath.mk.injEq])

/-- The data of an address, which its family selects -/
inductive NetAddrData where
  | none
  | localPath (path : Option NetPath)
  | inet4 (addr : UInt32)
  | inet6 (addr : Vector UInt8 16)
  deriving DecidableEq

/-- `enum ag_net_addr_family` -/
def NetAddrData.family : NetAddrData → Int
  | .none => 0
  | .localPath _ => 1
  | .inet4 _ => 2
  | .inet6 _ => 3

/-- `AG_NetAddr` -/
structure NetAddr where
  port : Int32
  data : NetAddrData
  deriving DecidableEq

/-- The family of an address -/
def NetAddr.family (addr : NetAddr) : Int := addr.data.family

/-- What the difference of two values of type `int` is -/
def intDiff (x y : Int) : Except Stop Int :=
  if -2 ^ 31 ≤ x - y ∧ x - y < 2 ^ 31 then .ok (x - y) else .error .undefined

/-- A value of type `Uint32` as an `int` -/
def intOf (value : UInt32) : Int :=
  if value.toNat < 2 ^ 31 then value.toNat else value.toNat - 2 ^ 32

/-- `strcmp` -/
def strcmp : List UInt8 → List UInt8 → Int
  | [], [] => 0
  | [], b :: _ => -b.toNat
  | a :: _, [] => a.toNat
  | a :: as, b :: bs => if a = b then strcmp as bs else a.toNat - b.toNat

/-- The difference of the pointers to the arrays in two records -/
def arrayDiff (b a : Nat) : Except Stop Int :=
  if b = a then .ok 0 else .error .undefined

/-- `AG_NetAddrCompare` -/
def netAddrCompare (memory : Nat → Option NetAddr) (a b : Nat) : Except Stop Int :=
  match memory a, memory b with
  | some aAddr, some bAddr =>
    if aAddr.family ≠ bAddr.family then .ok (bAddr.family - aAddr.family)
    else if aAddr.port ≠ bAddr.port then intDiff bAddr.port.toInt aAddr.port.toInt
    else
      match aAddr.data, bAddr.data with
      | .localPath (some aPath), .localPath (some bPath) => .ok (strcmp bPath.bytes aPath.bytes)
      | .localPath _, .localPath _ => .error .undefined
      | .inet4 aInet4, .inet4 bInet4 =>
        -- equal addresses fall through to the next case
        if intOf (bInet4 - aInet4) ≠ 0 then .ok (intOf (bInet4 - aInet4)) else arrayDiff b a
      | .inet6 _, .inet6 _ => arrayDiff b a
      | _, _ => .ok 0
  | _, _ => .error .undefined

/--
A comparison orders some addresses totally: it returns zero exactly for equal
addresses, the opposite sign the other way around, and is transitive.
-/
structure ComparesTotally (memory : Nat → Option NetAddr) (compare : Nat → Nat → Except Stop Int)
    (addrs : Set Nat) : Prop where
  defined : ∀ a ∈ addrs, ∀ b ∈ addrs, ∃ diff, compare a b = .ok diff
  zero_iff : ∀ a ∈ addrs, ∀ b ∈ addrs, compare a b = .ok 0 ↔ memory a = memory b
  opposite : ∀ a ∈ addrs, ∀ b ∈ addrs, ∀ diff back,
      compare a b = .ok diff → compare b a = .ok back → diff.sign = -back.sign
  transitive : ∀ a ∈ addrs, ∀ b ∈ addrs, ∀ c ∈ addrs, ∀ first second all,
      compare a b = .ok first → compare b c = .ok second →
        compare a c = .ok all → 0 ≤ first → 0 ≤ second → 0 ≤ all

/-- An address of a family that is listed in the header -/
def Usable (memory : Nat → Option NetAddr) (addrs : Set Nat) : Prop :=
  ∀ a ∈ addrs, ∃ addr, memory a = some addr ∧ addr.data ≠ .none

/--
Where one of three IPv4 addresses is such that the others follow it by less
than `2 ^ 31`, modulo `2 ^ 32`, none of them follow each other in a circle.
-/
def HalfCircle (x y z : UInt32) : Prop :=
  ∃ first ∈ [x, y, z], ∀ other ∈ [x, y, z], (other - first).toNat < 2 ^ 31

/--
Local addresses have paths; no two records stand for the same IPv4 address and
port, or for IPv6 addresses with the same port; ports have differences of type
`int`; and three IPv4 addresses with the same port lie in a half circle.
-/
structure Comparable (memory : Nat → Option NetAddr) (addrs : Set Nat) : Prop where
  paths : ∀ a ∈ addrs, ∀ port, memory a ≠ some ⟨port, .localPath none⟩
  ports : ∀ a ∈ addrs, ∀ b ∈ addrs, ∀ aAddr bAddr, memory a = some aAddr → memory b = some bAddr →
        aAddr.family = bAddr.family → bAddr.port.toInt - aAddr.port.toInt < 2 ^ 31
  inet4 : ∀ a ∈ addrs, ∀ b ∈ addrs, ∀ port x,
      memory a = some ⟨port, .inet4 x⟩ → memory b = some ⟨port, .inet4 x⟩ → a = b
  inet6 : ∀ a ∈ addrs, ∀ b ∈ addrs, ∀ port x y,
      memory a = some ⟨port, .inet6 x⟩ → memory b = some ⟨port, .inet6 y⟩ → a = b
  halfCircle : ∀ a ∈ addrs, ∀ b ∈ addrs, ∀ c ∈ addrs, ∀ port x y z,
      memory a = some ⟨port, .inet4 x⟩ → memory b = some ⟨port, .inet4 y⟩ →
        memory c = some ⟨port, .inet4 z⟩ → HalfCircle x y z

/-! ## Paths -/

theorem strcmp_neg_iff {as bs : List UInt8} (aNoNul : 0 ∉ as) (bNoNul : 0 ∉ bs) :
    strcmp as bs < 0 ↔ as.map UInt8.toNat < bs.map UInt8.toNat := by
  have positive {byte : UInt8} {bytes : List UInt8} (noNul : 0 ∉ byte :: bytes) :
      0 < byte.toNat := by
    refine Nat.pos_of_ne_zero fun zero => ?_
    exact noNul (List.mem_cons.mpr (.inl (UInt8.toNat_inj.mp zero.symm)))
  induction as generalizing bs with
  | nil =>
    cases bs with
    | nil => simp [strcmp]
    | cons b bs =>
      have := positive bNoNul
      simp [strcmp]
      omega
  | cons a as ih =>
    cases bs with
    | nil => simp [strcmp]
    | cons b bs =>
      rw [strcmp, List.map_cons, List.map_cons, List.cons_lt_cons_iff]
      split
      case isTrue same =>
        have later := ih (List.not_mem_of_not_mem_cons aNoNul) (List.not_mem_of_not_mem_cons bNoNul)
        simpa [same] using later
      case isFalse different =>
        have differ : a.toNat ≠ b.toNat := fun same => different (UInt8.toNat_inj.mp same)
        simp only [differ, false_and, or_false]
        omega

theorem strcmp_swap (as bs : List UInt8) : strcmp as bs = -strcmp bs as := by
  induction as generalizing bs with
  | nil => cases bs <;> simp [strcmp]
  | cons a as ih =>
    cases bs with
    | nil => simp [strcmp]
    | cons b bs =>
      rw [strcmp, strcmp]
      by_cases same : a = b
      · rw [if_pos same, if_pos same.symm, ih]
      · rw [if_neg same, if_neg (Ne.symm same)]
        omega

theorem strcmp_nonneg_iff (p q : NetPath) : 0 ≤ strcmp p.bytes q.bytes ↔
      q.bytes.map UInt8.toNat ≤ p.bytes.map UInt8.toNat := by
  rw [← not_lt, strcmp_neg_iff p.noNul q.noNul, not_lt]

theorem strcmp_eq_zero_iff (p q : NetPath) : strcmp p.bytes q.bytes = 0 ↔ p = q := by
  constructor
  · intro zero
    have below := (strcmp_nonneg_iff p q).mp (Int.le_of_eq zero.symm)
    have above := (strcmp_nonneg_iff q p).mp (by rw [strcmp_swap, zero]; exact Int.le_refl _)
    have same := le_antisymm above below
    have injective : Function.Injective UInt8.toNat := fun _ _ => UInt8.toNat_inj.mp
    have bytes := List.map_injective_iff.mpr injective same
    cases p
    cases q
    congr
  · rintro rfl
    have swap := strcmp_swap p.bytes p.bytes
    omega

/-! ## IPv4 addresses -/

theorem intOf_sub_eq_zero {x y : UInt32} : intOf (y - x) = 0 ↔ x = y := by
  have xBound := x.toNat_lt
  have yBound := y.toNat_lt
  rw [intOf, UInt32.toNat_sub, ← UInt32.toNat_inj]
  split <;> omega

theorem intOf_nonneg_iff {value : UInt32} : 0 ≤ intOf value ↔ value.toNat < 2 ^ 31 := by
  have bound := value.toNat_lt
  rw [intOf]
  split <;> omega

theorem halfCircle_iff {x y z : UInt32} : HalfCircle x y z ↔
      (0 ≤ intOf (y - x) ∧ 0 ≤ intOf (z - x)) ∨ (0 ≤ intOf (x - y) ∧ 0 ≤ intOf (z - y)) ∨
        (0 ≤ intOf (x - z) ∧ 0 ≤ intOf (y - z)) := by
  have self (value : UInt32) : (value - value).toNat < 2 ^ 31 := by
    rw [UInt32.sub_self]
    decide
  simp only [HalfCircle, List.mem_cons, List.not_mem_nil, or_false,
    exists_eq_or_imp, exists_eq_left, forall_eq_or_imp, forall_eq,
    intOf_nonneg_iff, self, true_and, and_true]

theorem intOf_sub_opposite {x y : UInt32} (half : HalfCircle x y y) :
    (intOf (y - x)).sign = -(intOf (x - y)).sign := by
  have xBound := x.toNat_lt
  have yBound := y.toNat_lt
  have swap : intOf (y - x) = -intOf (x - y) := by
    simp only [halfCircle_iff, intOf_nonneg_iff, UInt32.toNat_sub] at half
    simp only [intOf, UInt32.toNat_sub]
    split <;> split <;> omega
  rw [swap, Int.sign_neg]

theorem intOf_sub_transitive {x y z : UInt32} (half : HalfCircle x y z) (first : 0 ≤ intOf (y - x))
    (second : 0 ≤ intOf (z - y)) : 0 ≤ intOf (z - x) := by
  have xBound := x.toNat_lt
  have yBound := y.toNat_lt
  have zBound := z.toNat_lt
  simp only [halfCircle_iff, intOf_nonneg_iff, UInt32.toNat_sub] at half first second ⊢
  omega

theorem halfCircle_of_laws {x y z : UInt32}
    (opposite : ∀ a ∈ [x, y, z], ∀ b ∈ [x, y, z], (intOf (b - a)).sign = -(intOf (a - b)).sign)
    (transitive : ∀ a ∈ [x, y, z], ∀ b ∈ [x, y, z], ∀ c ∈ [x, y, z],
        0 ≤ intOf (b - a) → 0 ≤ intOf (c - b) → 0 ≤ intOf (c - a)) : HalfCircle x y z := by
  have isX : x ∈ [x, y, z] := by simp
  have isY : y ∈ [x, y, z] := by simp
  have isZ : z ∈ [x, y, z] := by simp
  have total {a b : UInt32} (isA : a ∈ [x, y, z]) (isB : b ∈ [x, y, z])
      (notFirst : ¬ 0 ≤ intOf (b - a)) :
      0 ≤ intOf (a - b) := by
    have negative := Int.sign_eq_neg_one_of_neg (not_le.mp notFirst)
    have swap := opposite a isA b isB
    rw [negative] at swap
    by_contra alsoNegative
    rw [Int.sign_eq_neg_one_of_neg (not_le.mp alsoNegative)] at swap
    cases swap
  rw [halfCircle_iff]
  by_cases xy : 0 ≤ intOf (y - x)
  · by_cases xz : 0 ≤ intOf (z - x)
    · exact .inl ⟨xy, xz⟩
    · have zx := total isX isZ xz
      exact .inr (.inr ⟨zx, transitive z isZ x isX y isY zx xy⟩)
  · have yx := total isX isY xy
    by_cases yz : 0 ≤ intOf (z - y)
    · exact .inr (.inl ⟨yx, yz⟩)
    · have zy := total isY isZ yz
      exact .inr (.inr ⟨transitive z isZ y isY x isX zy yx, zy⟩)

/-! ## Comparing -/

/-- What is compared of the data, where the comparison is defined -/
def dataOutcome : NetAddrData → NetAddrData → Int
  | .localPath (some aPath), .localPath (some bPath) => strcmp bPath.bytes aPath.bytes
  | .inet4 aInet4, .inet4 bInet4 => intOf (bInet4 - aInet4)
  | _, _ => 0

/-- What is compared of two records -/
def netAddrOutcome (a b : NetAddr) : Int :=
  if a.family ≠ b.family then b.family - a.family
  else if a.port ≠ b.port then b.port.toInt - a.port.toInt
  else dataOutcome a.data b.data

theorem outcome_nonneg_iff {a b : NetAddr} : 0 ≤ netAddrOutcome a b ↔ a.family < b.family ∨
        a.family = b.family ∧ (a.port.toInt < b.port.toInt ∨
            a.port = b.port ∧ 0 ≤ dataOutcome a.data b.data) := by
  rw [netAddrOutcome]
  split
  case isTrue different => omega
  case isFalse same =>
    rw [not_not] at same
    split
    case isTrue different =>
      have apart : a.port.toInt ≠ b.port.toInt := fun equal => different (Int32.toInt_inj.mp equal)
      simp only [different, false_and, or_false]
      omega
    case isFalse samePort =>
      rw [not_not] at samePort
      simp [same, samePort]

theorem kinds_of_same_family {a b : NetAddrData} (same : a.family = b.family) :
    (a = .none ∧ b = .none) ∨ (∃ aPath bPath, a = .localPath aPath ∧ b = .localPath bPath) ∨
      (∃ x y, a = .inet4 x ∧ b = .inet4 y) ∨
      ∃ x y, a = .inet6 x ∧ b = .inet6 y := by
  cases a <;> cases b <;>
    first
      | (simp [NetAddrData.family] at same; done)
      | simp

section Compare

variable {memory : Nat → Option NetAddr} {addrs : Set Nat}
variable {a b c : Nat} {aAddr bAddr cAddr : NetAddr}

theorem compare_eq_outcome (comparable : Comparable memory addrs) (isA : a ∈ addrs)
    (isB : b ∈ addrs) (foundA : memory a = some aAddr) (foundB : memory b = some bAddr) :
    netAddrCompare memory a b = .ok (netAddrOutcome aAddr bAddr) := by
  rw [netAddrCompare, foundA, foundB, netAddrOutcome]
  dsimp only
  split
  case isTrue => rfl
  case isFalse family =>
    rw [not_not] at family
    split
    case isTrue =>
      have below := comparable.ports a isA b isB _ _ foundA foundB family
      have above := comparable.ports b isB a isA _ _ foundB foundA family.symm
      rw [intDiff, if_pos ⟨by omega, below⟩]
    case isFalse port =>
      rw [not_not] at port
      obtain ⟨aPort, aData⟩ := aAddr
      obtain ⟨bPort, bData⟩ := bAddr
      obtain rfl : aPort = bPort := port
      obtain ⟨rfl, rfl⟩ | ⟨aPath, bPath, rfl, rfl⟩ | ⟨x, y, rfl, rfl⟩ |
        ⟨x, y, rfl, rfl⟩ := kinds_of_same_family family
      · rfl
      · cases aPath with
        | none => exact absurd foundA (comparable.paths a isA aPort)
        | some aPath =>
          cases bPath with
          | none => exact absurd foundB (comparable.paths b isB aPort)
          | some bPath => rfl
      · dsimp only [dataOutcome]
        split
        case isTrue => rfl
        case isFalse zero =>
          rw [not_not] at zero
          obtain rfl := intOf_sub_eq_zero.mp zero
          rw [comparable.inet4 a isA b isB aPort x foundA foundB, arrayDiff, if_pos rfl, zero]
      · rw [comparable.inet6 a isA b isB aPort x y foundA foundB, arrayDiff]
        dsimp only [dataOutcome]
        rw [if_pos rfl]

theorem outcome_eq_zero_iff (comparable : Comparable memory addrs) (isA : a ∈ addrs)
    (isB : b ∈ addrs) (foundA : memory a = some aAddr) (foundB : memory b = some bAddr) :
    netAddrOutcome aAddr bAddr = 0 ↔ aAddr = bAddr := by
  rw [netAddrOutcome]
  split
  case isTrue different =>
    refine ⟨fun zero => ?_, fun same => absurd (congrArg _ same) different⟩
    omega
  case isFalse family =>
    rw [not_not] at family
    split
    case isTrue different =>
      refine ⟨fun zero => ?_, fun same => absurd (congrArg _ same) different⟩
      exact absurd (Int32.toInt_inj.mp (by omega)) different
    case isFalse port =>
      rw [not_not] at port
      obtain ⟨aPort, aData⟩ := aAddr
      obtain ⟨bPort, bData⟩ := bAddr
      obtain rfl : aPort = bPort := port
      obtain ⟨rfl, rfl⟩ | ⟨aPath, bPath, rfl, rfl⟩ | ⟨x, y, rfl, rfl⟩ |
        ⟨x, y, rfl, rfl⟩ := kinds_of_same_family family
      · simp [dataOutcome]
      · cases aPath with
        | none => exact absurd foundA (comparable.paths a isA aPort)
        | some aPath =>
          cases bPath with
          | none => exact absurd foundB (comparable.paths b isB aPort)
          | some bPath =>
            rw [dataOutcome, strcmp_eq_zero_iff]
            simp [eq_comm]
      · simp [dataOutcome, intOf_sub_eq_zero]
      · have same := comparable.inet6 a isA b isB aPort x y foundA foundB
        rw [same, foundB] at foundA
        simpa [dataOutcome, eq_comm] using foundA

theorem outcome_opposite (comparable : Comparable memory addrs) (isA : a ∈ addrs) (isB : b ∈ addrs)
    (foundA : memory a = some aAddr) (foundB : memory b = some bAddr) :
    (netAddrOutcome aAddr bAddr).sign = -(netAddrOutcome bAddr aAddr).sign := by
  rw [netAddrOutcome, netAddrOutcome]
  by_cases family : aAddr.family = bAddr.family
  · rw [if_neg (not_not.mpr family), if_neg (not_not.mpr family.symm)]
    by_cases port : aAddr.port = bAddr.port
    · rw [if_neg (not_not.mpr port), if_neg (not_not.mpr port.symm)]
      obtain ⟨aPort, aData⟩ := aAddr
      obtain ⟨bPort, bData⟩ := bAddr
      obtain rfl : aPort = bPort := port
      obtain ⟨rfl, rfl⟩ | ⟨aPath, bPath, rfl, rfl⟩ | ⟨x, y, rfl, rfl⟩ |
        ⟨x, y, rfl, rfl⟩ := kinds_of_same_family family
      · rfl
      · cases aPath with
        | none => exact absurd foundA (comparable.paths a isA aPort)
        | some aPath =>
          cases bPath with
          | none => exact absurd foundB (comparable.paths b isB aPort)
          | some bPath =>
            dsimp only [dataOutcome]
            rw [strcmp_swap, Int.sign_neg]
      · exact intOf_sub_opposite (comparable.halfCircle a isA b isB b isB aPort x y y foundA foundB
            foundB)
      · rfl
    · rw [if_pos port, if_pos (Ne.symm port), ← Int.sign_neg, Int.neg_sub]
  · rw [if_pos family, if_pos (Ne.symm family), ← Int.sign_neg, Int.neg_sub]

theorem outcome_transitive (comparable : Comparable memory addrs) (isA : a ∈ addrs)
    (isB : b ∈ addrs) (isC : c ∈ addrs) (foundA : memory a = some aAddr)
    (foundB : memory b = some bAddr) (foundC : memory c = some cAddr)
    (first : 0 ≤ netAddrOutcome aAddr bAddr) (second : 0 ≤ netAddrOutcome bAddr cAddr) :
    0 ≤ netAddrOutcome aAddr cAddr := by
  rw [outcome_nonneg_iff] at first second ⊢
  rcases first with family | ⟨family, first⟩
  · rcases second with later | ⟨later, _⟩ <;> exact .inl (by omega)
  rcases second with later | ⟨later, second⟩
  · exact .inl (by omega)
  refine .inr ⟨family.trans later, ?_⟩
  rcases first with port | ⟨port, first⟩
  · rcases second with laterPort | ⟨laterPort, _⟩
    · exact .inl (by omega)
    · exact .inl (laterPort ▸ port)
  rcases second with laterPort | ⟨laterPort, second⟩
  · exact .inl (port ▸ laterPort)
  refine .inr ⟨port.trans laterPort, ?_⟩
  obtain ⟨aPort, aData⟩ := aAddr
  obtain ⟨bPort, bData⟩ := bAddr
  obtain ⟨cPort, cData⟩ := cAddr
  obtain rfl : aPort = bPort := port
  obtain rfl : aPort = cPort := laterPort
  obtain ⟨rfl, rfl⟩ | ⟨aPath, bPath, rfl, rfl⟩ | ⟨x, y, rfl, rfl⟩ |
    ⟨x, y, rfl, rfl⟩ := kinds_of_same_family family
  · exact first
  · cases cData with
    | localPath cPath =>
      cases aPath with
      | none => exact absurd foundA (comparable.paths a isA aPort)
      | some aPath =>
        cases bPath with
        | none => exact absurd foundB (comparable.paths b isB aPort)
        | some bPath =>
          cases cPath with
          | none => exact absurd foundC (comparable.paths c isC aPort)
          | some cPath =>
            dsimp only [dataOutcome] at first second ⊢
            rw [strcmp_nonneg_iff] at first second ⊢
            exact le_trans first second
    | _ => simp [NetAddr.family, NetAddrData.family] at later
  · cases cData with
    | inet4 z =>
      exact intOf_sub_transitive (comparable.halfCircle a isA b isB c isC aPort x y z foundA foundB
          foundC)
        first second
    | _ => simp [NetAddr.family, NetAddrData.family] at later
  · cases cData <;> exact Int.le_refl 0

theorem comparesTotally_of_comparable (usable : Usable memory addrs)
    (comparable : Comparable memory addrs) :
    ComparesTotally memory (netAddrCompare memory) addrs := by
  refine ⟨fun a isA b isB => ?_, fun a isA b isB => ?_,
    fun a isA b isB diff back forth backward => ?_,
    fun a isA b isB c isC first second all isFirst isSecond isAll => ?_⟩ <;>
    obtain ⟨aAddr, foundA, -⟩ := usable a isA <;>
    obtain ⟨bAddr, foundB, -⟩ := usable b isB
  · exact ⟨_, compare_eq_outcome comparable isA isB foundA foundB⟩
  · rw [compare_eq_outcome comparable isA isB foundA foundB, foundA, foundB,
      Except.ok.injEq, Option.some.injEq]
    exact outcome_eq_zero_iff comparable isA isB foundA foundB
  · rw [compare_eq_outcome comparable isA isB foundA foundB] at forth
    rw [compare_eq_outcome comparable isB isA foundB foundA] at backward
    obtain rfl := Except.ok.inj forth
    obtain rfl := Except.ok.inj backward
    exact outcome_opposite comparable isA isB foundA foundB
  · obtain ⟨cAddr, foundC, -⟩ := usable c isC
    rw [compare_eq_outcome comparable isA isB foundA foundB] at isFirst
    rw [compare_eq_outcome comparable isB isC foundB foundC] at isSecond
    rw [compare_eq_outcome comparable isA isC foundA foundC] at isAll
    obtain rfl := Except.ok.inj isFirst
    obtain rfl := Except.ok.inj isSecond
    obtain rfl := Except.ok.inj isAll
    exact outcome_transitive comparable isA isB isC foundA foundB foundC

theorem compare_inet4 {port : Int32} {x y : UInt32} (foundA : memory a = some ⟨port, .inet4 x⟩)
    (foundB : memory b = some ⟨port, .inet4 y⟩) :
    netAddrCompare memory a b = if intOf (y - x) ≠ 0 then
        .ok (intOf (y - x))
      else
        arrayDiff b a := by
  simp [netAddrCompare, foundA, foundB, NetAddr.family, NetAddrData.family]

theorem comparable_of_comparesTotally
    (totally : ComparesTotally memory (netAddrCompare memory) addrs) : Comparable memory addrs := by
  have inet4 {a b : Nat} {port : Int32} {x y : UInt32} (isA : a ∈ addrs) (isB : b ∈ addrs)
      (foundA : memory a = some ⟨port, .inet4 x⟩)
      (foundB : memory b = some ⟨port, .inet4 y⟩) :
      netAddrCompare memory a b = .ok (intOf (y - x)) ∧ (x = y → a = b) := by
    obtain ⟨diff, defined⟩ := totally.defined a isA b isB
    rw [compare_inet4 foundA foundB] at defined ⊢
    by_cases zero : intOf (y - x) = 0
    · rw [if_neg (not_not.mpr zero), arrayDiff] at defined ⊢
      split at defined
      case isTrue same =>
        rw [if_pos same, zero]
        exact ⟨rfl, fun _ => same.symm⟩
      case isFalse => cases defined
    · rw [if_pos zero]
      exact ⟨rfl, fun same => absurd (intOf_sub_eq_zero.mpr same) zero⟩
  refine ⟨fun a isA port found => ?_, fun a isA b isB aAddr bAddr foundA foundB family => ?_,
    fun a isA b isB port x foundA foundB => ?_,
    fun a isA b isB port x y foundA foundB => ?_,
    fun a isA b isB c isC port x y z foundA foundB foundC => ?_⟩
  · obtain ⟨diff, defined⟩ := totally.defined a isA a isA
    simp [netAddrCompare, found] at defined
  · obtain ⟨diff, defined⟩ := totally.defined a isA b isB
    rw [netAddrCompare, foundA, foundB] at defined
    dsimp only at defined
    rw [if_neg (not_not.mpr family)] at defined
    by_cases port : aAddr.port = bAddr.port
    · rw [port]
      omega
    · rw [if_pos port, intDiff] at defined
      split at defined
      case isTrue range => exact range.2
      case isFalse => cases defined
  · exact (inet4 isA isB foundA foundB).2 rfl
  · obtain ⟨diff, defined⟩ := totally.defined a isA b isB
    simp only [netAddrCompare, foundA, foundB, NetAddr.family,
      NetAddrData.family, ne_eq, not_true_eq_false, if_false, arrayDiff]
      at defined
    split at defined
    case isTrue same => exact same.symm
    case isFalse => cases defined
  · have named : ∀ value ∈ [x, y, z], ∃ node ∈ addrs, memory node = some ⟨port, .inet4 value⟩ := by
      simp only [List.forall_mem_cons]
      exact ⟨⟨a, isA, foundA⟩, ⟨b, isB, foundB⟩, ⟨c, isC, foundC⟩,
        fun value member => absurd member List.not_mem_nil⟩
    refine halfCircle_of_laws (fun p isP q isQ => ?_) fun p isP q isQ r isR first second => ?_
    · obtain ⟨pNode, pMember, foundP⟩ := named p isP
      obtain ⟨qNode, qMember, foundQ⟩ := named q isQ
      exact totally.opposite pNode pMember qNode qMember _ _ (inet4 pMember qMember foundP foundQ).1
        (inet4 qMember pMember foundQ foundP).1
    · obtain ⟨pNode, pMember, foundP⟩ := named p isP
      obtain ⟨qNode, qMember, foundQ⟩ := named q isQ
      obtain ⟨rNode, rMember, foundR⟩ := named r isR
      exact totally.transitive pNode pMember qNode qMember rNode rMember _ _ _
        (inet4 pMember qMember foundP foundQ).1
        (inet4 qMember rMember foundQ foundR).1
        (inet4 pMember rMember foundP foundR).1 first second

/--
`AG_NetAddrCompare` orders addresses totally if and only if they are
comparable.
-/
theorem netAddrCompare_total_iff (usable : Usable memory addrs) :
    ComparesTotally memory (netAddrCompare memory) addrs ↔ Comparable memory addrs :=
  ⟨comparable_of_comparesTotally, comparesTotally_of_comparable usable⟩

end Compare

def threeAddrs : Nat → Option NetAddr
  | 1 => some ⟨0, .localPath (some ⟨[47, 97], by decide⟩)⟩
  | 2 => some ⟨80, .inet4 0x0a000001⟩
  | 3 => some ⟨80, .inet4 0x7f000001⟩
  | _ => none

theorem netAddrCompare_total_three :
    ComparesTotally threeAddrs (netAddrCompare threeAddrs) {1, 2, 3} := by
  have isOne {a : Nat} (isA : a ∈ ({1, 2, 3} : Set Nat)) : a = 1 ∨ a = 2 ∨ a = 3 := isA
  refine (netAddrCompare_total_iff fun a isA => ?_).mpr
    ⟨fun a isA port found => ?_, fun a isA b isB aAddr bAddr foundA foundB family => ?_,
      fun a isA b isB port x foundA foundB => ?_,
      fun a isA b isB port x y foundA foundB => ?_,
      fun a isA b isB c isC port x y z foundA foundB foundC => ?_⟩
  · rcases isOne isA with rfl | rfl | rfl <;> exact ⟨_, rfl, nofun⟩
  · rcases isOne isA with rfl | rfl | rfl <;> cases found
  · rcases isOne isA with rfl | rfl | rfl <;> cases foundA <;>
      rcases isOne isB with rfl | rfl | rfl <;> cases foundB <;> decide
  · rcases isOne isA with rfl | rfl | rfl <;> cases foundA <;>
      rcases isOne isB with rfl | rfl | rfl <;> cases foundB <;> rfl
  · rcases isOne isA with rfl | rfl | rfl <;> cases foundA
  · rcases isOne isA with rfl | rfl | rfl <;> cases foundA <;>
      rcases isOne isB with rfl | rfl | rfl <;> cases foundB <;>
      rcases isOne isC with rfl | rfl | rfl <;> cases foundC <;>
      rw [halfCircle_iff] <;> decide

def oppositeAddrs : Nat → Option NetAddr
  | 1 => some ⟨80, .inet4 0⟩
  | 2 => some ⟨80, .inet4 0x80000000⟩
  | _ => none

theorem opposite_addrs_not_ordered : Usable oppositeAddrs {1, 2} ∧
      ¬ ComparesTotally oppositeAddrs (netAddrCompare oppositeAddrs) {1, 2} := by
  constructor
  · rintro a (rfl | rfl) <;> exact ⟨_, rfl, nofun⟩
  · intro totally
    have signs :=
      totally.opposite 1 (by simp) 2 (by simp) (-2 ^ 31) (-2 ^ 31) (by decide) (by decide)
    exact absurd signs (by decide)

end Agar.Core
