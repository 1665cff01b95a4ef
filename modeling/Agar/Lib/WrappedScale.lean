import Mathlib

namespace Agar.Lib

/-!
# Scaling with products that wrap

A place in a range is scaled by a product and a truncated quotient, where the
product wraps at a size.  Scaling there and back keeps the order exactly if no
product wraps, apart from the ranges that are one less than the size, scaled
to a divisor of it.
-/

/-- A place of a range, scaled to an extent -/
def scaled (size range extent place : Nat) : Nat := place * extent % size / range

/-- The order of the places up to a last one is kept. -/
def ScalesInOrder (size range extent last : Nat) : Prop :=
  ∀ place next, place ≤ next → next ≤ last →
      scaled size range extent place ≤ scaled size range extent next

section

variable {size range extent place next : Nat}

theorem scaled_le : scaled size range extent place ≤ place * extent / range :=
  Nat.div_le_div_right (Nat.mod_le _ _)

theorem scaled_of_lt (small : place * extent < size) :
    scaled size range extent place = place * extent / range := by
  rw [scaled, Nat.mod_eq_of_lt small]

theorem scaled_le_extent (inside : place ≤ range) : scaled size range extent place ≤ extent := by
  refine scaled_le.trans ?_
  rcases Nat.eq_zero_or_pos range with empty | positive
  · rw [empty, Nat.div_zero]
    exact Nat.zero_le _
  · exact Nat.div_le_of_le_mul (Nat.mul_le_mul_right extent inside)

theorem scalesInOrder_of_lt {last : Nat} (small : last * extent < size) :
    ScalesInOrder size range extent last := by
  intro place next ordered inside
  have smallNext : next * extent < size := (Nat.mul_le_mul_right extent inside).trans_lt small
  have smallPlace : place * extent < size :=
    (Nat.mul_le_mul_right extent ordered).trans_lt smallNext
  rw [scaled_of_lt smallPlace, scaled_of_lt smallNext]
  exact Nat.div_le_div_right (Nat.mul_le_mul_right extent ordered)

theorem scaled_scaled_le : scaled size range extent (scaled size extent range place) ≤ place := by
  refine scaled_le.trans ?_
  rcases Nat.eq_zero_or_pos range with empty | positive
  · rw [empty, Nat.div_zero]
    exact Nat.zero_le _
  · refine Nat.div_le_of_le_mul ?_
    calc
      scaled size extent range place * extent
          ≤ place * range / extent * extent := Nat.mul_le_mul_right _ scaled_le
      _ ≤ place * range := Nat.div_mul_le_self _ _
      _ = range * place := Nat.mul_comm _ _

theorem scaled_scaled_of_dvd (positive : 0 < range) (small : range * extent < size)
    (divides : extent ∣ range) (inside : place ≤ extent) :
    scaled size range extent (scaled size extent range place) = place := by
  obtain ⟨share, rfl⟩ := divides
  have extentPositive : 0 < extent := Nat.pos_of_mul_pos_right positive
  have smallPlace : place * (extent * share) < size := by
    refine lt_of_le_of_lt ?_ small
    rw [Nat.mul_comm (extent * share)]
    exact Nat.mul_le_mul_right _ inside
  have product : place * (extent * share) / extent * extent = place * (extent * share) := by
    refine Nat.div_mul_cancel ?_
    exact (Nat.dvd_mul_right extent share).mul_left place
  rw [scaled_of_lt smallPlace, scaled_of_lt (by rwa [product]), product,
    Nat.mul_div_cancel _ positive]

/-! ## Products that wrap -/

theorem mod_of_add_eq {first second rest : Nat} (sum : first + second = size * next)
    (remains : second % size = rest) (positive : 0 < rest) (small : rest < size) :
    first % size = size - rest := by
  have whole := Nat.div_add_mod second size
  rw [remains] at whole
  have fewer : second / size < next := by
    by_contra more
    have := Nat.mul_le_mul_left size (Nat.le_of_not_lt more)
    omega
  obtain ⟨more, rfl⟩ := Nat.exists_eq_add_of_lt fewer
  have shape : first = size - rest + size * more := by
    have parts : size * (second / size + more + 1) =
        size * (second / size) + size * more + size := by
      ring
    omega
  rw [shape, Nat.add_mul_mod_self_left, Nat.mod_eq_of_lt (by omega)]

theorem size_lt_of_inOrder (inOrder : ScalesInOrder size range extent range) (positive : 0 < extent)
    (fits : extent ≤ size) (wraps : size ≤ range * extent) : size < range + extent := by
  by_contra large
  -- `first` is the last place whose product does not wrap
  have rangePositive : 0 < range := by
    rcases Nat.eq_zero_or_pos range with empty | some
    · rw [empty] at wraps
      omega
    · exact some
  set first := (size - 1) / extent with isFirst
  have product := Nat.div_add_mod (size - 1) extent
  have rest := Nat.mod_lt (size - 1) positive
  rw [← isFirst, Nat.mul_comm] at product
  have inside : first + 1 ≤ range := by
    have := Nat.lt_of_mul_lt_mul_right (show first * extent < range * extent by omega)
    omega
  have kept := inOrder first (first + 1) (Nat.le_succ _) inside
  have wrapped : (first + 1) * extent % size = (first + 1) * extent - size := by
    rw [Nat.mod_eq_sub_mod (by rw [Nat.succ_mul]; omega),
      Nat.mod_eq_of_lt (by rw [Nat.succ_mul]; omega)]
  rw [scaled_of_lt (by omega), scaled, wrapped] at kept
  have drop : (first + 1) * extent - size + range ≤ first * extent := by
    rw [Nat.succ_mul]
    omega
  have quotients := Nat.div_le_div_right (c := range) drop
  rw [Nat.add_div_right _ rangePositive] at quotients
  omega

theorem mod_lt_range_of_inOrder (inOrder : ScalesInOrder size range extent range)
    (fits : 2 * extent ≤ size) (large : size < range + extent) (smaller : range < size)
    (inside : place < range) : place * extent % size < range := by
  by_contra high
  have rest := Nat.mod_lt (place * extent) (by omega : 0 < size)
  have kept := inOrder place (place + 1) (Nat.le_succ _) inside
  have wrapped : (place + 1) * extent % size = place * extent % size + extent - size := by
    rw [Nat.succ_mul, Nat.add_mod, Nat.mod_eq_of_lt (by omega : extent < size),
      Nat.mod_eq_sub_mod (by omega), Nat.mod_eq_of_lt (by omega)]
  have positive : 0 < place * extent % size / range :=
    Nat.div_pos (Nat.le_of_not_lt high) (by omega)
  have zero : scaled size range extent (place + 1) = 0 := by
    rw [scaled, wrapped]
    exact Nat.div_eq_of_lt (by omega)
  rw [zero] at kept
  exact absurd kept (Nat.not_le.mpr positive)

theorem not_reached_of_inOrder {unit steps count : Nat}
    (inOrder : ScalesInOrder size range extent range) (fits : 2 * extent ≤ size)
    (large : size < range + extent) (smaller : range < size)
    (reaches : steps * extent % size = unit) (positive : 0 < count * unit)
    (near : count * unit ≤ size - range) (inside : count * steps ≤ size)
    (far : size - range < count * steps) : False := by
  have product : (size - count * steps) * extent + count * steps * extent = size * extent := by
    rw [← Nat.add_mul, Nat.sub_add_cancel inside]
  have rest : count * steps * extent % size = count * unit := by
    have same : steps * extent ≡ unit [MOD size] := by rw [Nat.ModEq, ← reaches, Nat.mod_mod]
    have multiples : count * (steps * extent) % size = count * unit % size := same.mul_left count
    rw [Nat.mul_assoc, multiples, Nat.mod_eq_of_lt (by omega)]
  have reached := mod_of_add_eq product rest positive (by omega)
  have below := mod_lt_range_of_inOrder inOrder fits large smaller
    (show size - count * steps < range by omega)
  omega

theorem lacks_lt_gcd_of_inOrder (inOrder : ScalesInOrder size range extent range)
    (positive : 0 < extent) (fits : 2 * extent ≤ size) (large : size < range + extent)
    (smaller : range < size) : size - range < extent.gcd size := by
  by_contra more
  have divides : extent.gcd size ∣ size := Nat.gcd_dvd_right _ _
  have least : extent.gcd size ≤ extent := Nat.gcd_le_left _ positive
  have some : 0 < extent.gcd size := Nat.gcd_pos_of_pos_left _ positive
  obtain ⟨steps, few, reaches⟩ := Nat.exists_mul_mod_eq_gcd (show extent.gcd size < size by omega)
  rw [Nat.mul_comm] at reaches
  rcases Nat.lt_or_ge 1 (extent.gcd size) with shared | coprime
  · -- a period before the size, the same multiple is reached
    obtain ⟨period, isSize⟩ := divides
    obtain ⟨share, isExtent⟩ : extent.gcd size ∣ extent := Nat.gcd_dvd_left _ _
    set unit := extent.gcd size with isUnit
    have periodPositive : 0 < period := by
      rcases Nat.eq_zero_or_pos period with empty | some
      · rw [empty, Nat.mul_zero] at isSize
        omega
      · exact some
    have rest := Nat.mod_lt steps periodPositive
    have turns : period * extent = size * share := by
      rw [isSize]
      conv_lhs => rw [isExtent]
      ring
    have last : period * (unit - 1) + period = size := by
      rw [← Nat.mul_succ, Nat.succ_eq_add_one, Nat.sub_add_cancel some, isSize, Nat.mul_comm]
    have half : 2 * period ≤ size := by
      rw [isSize]
      exact Nat.mul_le_mul_right period shared
    have later : (steps % period + period * (unit - 1)) * extent % size = unit := by
      have shift : (steps % period + period * (unit - 1)) * extent =
            steps % period * extent + size * (share * (unit - 1)) := by
        rw [Nat.add_mul, Nat.mul_right_comm, turns, Nat.mul_assoc]
      have back : steps * extent = steps % period * extent + size * (share * (steps / period)) := by
        conv_lhs => rw [← Nat.mod_add_div steps period]
        rw [Nat.add_mul, Nat.mul_right_comm, turns, Nat.mul_assoc]
      rw [shift, Nat.add_mul_mod_self_left, ← reaches, back, Nat.add_mul_mod_self_left]
    exact @not_reached_of_inOrder _ _ _ _ _ 1 inOrder fits large smaller later
      (by omega) (by omega) (by omega) (by omega)
  · -- every rest is reached, and some of them from a place in the range
    have one : extent.gcd size = 1 := by omega
    rw [one] at reaches
    have several : 2 ≤ steps := by
      by_contra fewer
      have cases : steps = 0 ∨ steps = 1 := by omega
      rcases cases with rfl | rfl
      · rw [Nat.zero_mul, Nat.zero_mod] at reaches
        omega
      · rw [Nat.one_mul, Nat.mod_eq_of_lt (by omega)] at reaches
        omega
    set lacks := size - range with isLacks
    have quotient := Nat.div_add_mod lacks steps
    have rest := Nat.mod_lt lacks (show 0 < steps by omega)
    have half : lacks / steps ≤ lacks / 2 := Nat.div_le_div_left several (by decide)
    have product : (lacks / steps + 1) * steps = steps * (lacks / steps) + steps := by ring
    have inside : (lacks / steps + 1) * steps ≤ size := by
      rw [product]
      rcases Nat.lt_or_ge lacks steps with beyond | within
      · rw [Nat.div_eq_of_lt beyond]
        omega
      · omega
    have far : lacks < (lacks / steps + 1) * steps := by
      rw [product]
      omega
    have near : (lacks / steps + 1) * 1 ≤ lacks := by omega
    exact not_reached_of_inOrder inOrder fits large smaller reaches
      (Nat.mul_pos (Nat.succ_pos _) Nat.one_pos) near inside far

/-! ## Scaling back -/

theorem dvd_of_inOrder (inOrder : ScalesInOrder size extent range (extent - 1))
    (fits : 2 * extent ≤ size) (smaller : range < size) (lacks : size - range < extent.gcd size)
    (positive : 0 < extent) : range + 1 = size ∧ extent ∣ size := by
  have least : extent.gcd size ≤ extent := Nat.gcd_le_left _ positive
  have back : ∀ place, 0 < place → place * (size - range) ≤ size → scaled size extent range place =
        (size - place * (size - range)) / extent := by
    intro place some within
    obtain ⟨before, rfl⟩ := Nat.exists_eq_add_of_lt some
    have nonzero : 0 < (0 + before + 1) * (size - range) := Nat.mul_pos some (by omega)
    have product : (0 + before + 1) * range =
          size - (0 + before + 1) * (size - range) + size * before := by
      have sum : (0 + before + 1) * range + (0 + before + 1) * (size - range) =
            size * before + size := by
        rw [← Nat.mul_add, Nat.add_sub_of_le smaller.le]
        ring
      omega
    rw [scaled, product, Nat.add_mul_mod_self_left, Nat.mod_eq_of_lt (by omega)]
  set missing := size - range with isMissing
  have remainder := Nat.mod_lt size positive
  have whole := Nat.div_add_mod size extent
  have divides : extent.gcd size ∣ size % extent :=
    (Nat.dvd_mod_iff (Nat.gcd_dvd_left _ _)).mpr (Nat.gcd_dvd_right _ _)
  have first := back 1 Nat.one_pos (by omega)
  -- a place from which `count` times what is missing crosses a multiple
  have crosses : ∀ place bound, 0 < place → place ≤ extent - 1 →
      bound ≤ size - missing → size < bound + place * missing →
      place * missing ≤ size → extent ∣ bound → False := by
    intro place bound some inside above below within divides
    have kept := inOrder 1 place some inside
    rw [first, back place some within, Nat.one_mul] at kept
    obtain ⟨share, rfl⟩ := divides
    have high : share ≤ (size - missing) / extent :=
      (Nat.le_div_iff_mul_le positive).mpr (by rwa [Nat.mul_comm])
    have low : (size - place * missing) / extent < share :=
      (Nat.div_lt_iff_lt_mul positive).mpr (by
        rw [Nat.mul_comm share]
        omega)
    exact absurd (high.trans kept) (Nat.not_le.mpr low)
  rcases Nat.lt_or_ge (size % extent) missing with few | many
  · have none : size % extent = 0 :=
      Nat.eq_zero_of_dvd_of_lt divides (by omega)
    refine ⟨?_, Nat.dvd_of_mod_eq_zero none⟩
    by_contra several
    have quotient := Nat.div_add_mod extent missing
    have rest := Nat.mod_lt extent (show 0 < missing by omega)
    have half : extent / missing ≤ extent / 2 := Nat.div_le_div_left (by omega) (by decide)
    have product : (extent / missing + 1) * missing = missing * (extent / missing) + missing := by
      ring
    refine crosses (extent / missing + 1) (size - extent) (Nat.succ_pos _)
      (by omega) (by omega) (by rw [product]; omega) (by rw [product]; omega)
      ?_
    exact Nat.dvd_sub (Nat.dvd_of_mod_eq_zero none) dvd_rfl
  · have quotient := Nat.div_add_mod (size % extent) missing
    have rest := Nat.mod_lt (size % extent) (show 0 < missing by omega)
    have shares : extent.gcd size ≤ extent - size % extent :=
      Nat.le_of_dvd (Nat.sub_pos_of_lt (Nat.mod_lt size positive))
        (Nat.dvd_sub (Nat.gcd_dvd_left _ _) divides)
    have fewer : size % extent / missing ≤ size % extent := Nat.div_le_self _ _
    have product : (size % extent / missing + 1) * missing =
        missing * (size % extent / missing) + missing := by
      ring
    refine absurd (crosses (size % extent / missing + 1)
      (extent * (size / extent)) (Nat.succ_pos _) (by omega) (by omega)
      (by rw [product]; omega) (by rw [product]; omega)
      (Nat.dvd_mul_right _ _)) id

/-! ## Both ways -/

theorem scaled_eq_zero_of_dvd (lacksOne : range + 1 = size) (divides : extent ∣ size)
    (several : 2 ≤ extent) (place : Nat) : scaled size range extent place = 0 := by
  refine Nat.div_eq_of_lt ?_
  have below := Nat.mod_lt (place * extent) (show 0 < size by omega)
  have multiple : extent ∣ place * extent % size :=
    (Nat.dvd_mod_iff divides).mpr (Nat.dvd_mul_left _ _)
  have gap : extent ≤ size - place * extent % size :=
    Nat.le_of_dvd (by omega) (Nat.dvd_sub divides multiple)
  omega

theorem scalesInOrder_of_dvd (lacksOne : range + 1 = size) (divides : extent ∣ size)
    (positive : 0 < extent) : ScalesInOrder size extent range (extent - 1) := by
  obtain ⟨share, isSize⟩ := divides
  have constant : ∀ place, 0 < place → place ≤ extent - 1 →
      scaled size extent range place = share - 1 := by
    intro place some inside
    have shares : 0 < share := by
      rcases Nat.eq_zero_or_pos share with none | shares
      · rw [none, Nat.mul_zero] at isSize
        omega
      · exact shares
    have parts : extent * (share - 1) + extent = size := by
      rw [← Nat.mul_succ, Nat.succ_eq_add_one, Nat.sub_add_cancel shares, isSize]
    have product : place * range = size - place + size * (place - 1) := by
      have sum : place * range + place = size * (place - 1) + size := by
        rw [← Nat.mul_succ, ← Nat.mul_succ, Nat.succ_eq_add_one,
          Nat.succ_eq_add_one, lacksOne, Nat.sub_add_cancel some, Nat.mul_comm]
      have fewer : place ≤ size := by omega
      omega
    rw [scaled, product, Nat.add_mul_mod_self_left, Nat.mod_eq_of_lt (by omega),
      show size - place = extent - place + extent * (share - 1) by omega,
      Nat.add_mul_div_left _ _ positive, Nat.div_eq_of_lt (by omega),
      Nat.zero_add]
  intro place next ordered inside
  rcases Nat.eq_zero_or_pos place with rfl | some
  · rw [scaled, Nat.zero_mul, Nat.zero_mod, Nat.zero_div]
    exact Nat.zero_le _
  · rw [constant place some (by omega), constant next (by omega) inside]

theorem scale_in_order_iff (positive : 0 < extent) (fits : 2 * extent ≤ size)
    (smaller : range < size) :
    ScalesInOrder size range extent range ∧ ScalesInOrder size extent range (extent - 1) ↔
      range * extent < size ∨ range + 1 = size ∧ extent ∣ size := by
  rcases Nat.lt_or_ge (range * extent) size with small | wraps
  · refine iff_of_true ⟨scalesInOrder_of_lt small, scalesInOrder_of_lt ?_⟩ (.inl small)
    refine lt_of_le_of_lt ?_ small
    rw [Nat.mul_comm]
    exact Nat.mul_le_mul_left range (Nat.sub_le _ _)
  · rw [or_iff_right (Nat.not_lt.mpr wraps)]
    constructor
    · rintro ⟨there, back⟩
      have large := size_lt_of_inOrder there positive (by omega) wraps
      exact dvd_of_inOrder back fits smaller
        (lacks_lt_gcd_of_inOrder there positive fits large smaller) positive
    · rintro ⟨lacksOne, divides⟩
      have several : 2 ≤ extent := by
        by_contra one
        obtain rfl : extent = 1 := by omega
        omega
      refine ⟨fun place next _ _ => ?_, scalesInOrder_of_dvd lacksOne divides positive⟩
      rw [scaled_eq_zero_of_dvd lacksOne divides several]
      exact Nat.zero_le _

end

end Agar.Lib
