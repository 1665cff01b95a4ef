import Mathlib.Data.Matrix.Mul
import Mathlib.Data.Matrix.Basic
import Mathlib.Tactic.Abel

namespace Agar.Lib

open Matrix

/-!
# Chains of affine maps

Maps of a linear part and a shift that are composed along a chain.  Where the
linear parts are taken as they are for the composition, and transposed for the
vectors, both agree under a condition on the products along the chain.
-/

variable {ι R : Type}

/-- A linear part, and a shift behind it -/
structure Affinity (ι R : Type) where
  linear : Matrix ι ι R
  shift : ι → R

variable [Fintype ι] [DecidableEq ι] [CommRing R]

namespace Affinity

/-- The shift of a chain, from the first to the last, where parts are as given -/
def shifts (part : Affinity ι R → Matrix ι ι R) : List (Affinity ι R) → ι → R
  | [] => 0
  | a :: chain => part a *ᵥ shifts part chain + a.shift

/-- The linear parts of a chain -/
def linears (chain : List (Affinity ι R)) : List (Matrix ι ι R) := chain.map linear

/-- A vector is mapped by the transposed parts, from the last to the first. -/
def inTurn (chain : List (Affinity ι R)) (v : ι → R) : ι → R :=
  chain.foldr (fun a v => a.linearᵀ *ᵥ v + a.shift) v

/--
How far shifts go apart: each is taken through the product of the parts in front
of it, less the transposed product in reverse order.
-/
def skew (front : List (Matrix ι ι R)) : List (Affinity ι R) → ι → R
  | [] => 0
  | a :: chain => (front.prod - front.reverse.prodᵀ) *ᵥ a.shift + skew (front ++ [a.linear]) chain

/-- Products are the same in both orders, and shifts do not go apart. -/
structure Aligned (chain : List (Affinity ι R)) : Prop where
  products : (linears chain).prod = (linears chain).reverse.prod
  shifts : skew [] chain = 0

variable {chain : List (Affinity ι R)}

theorem inTurn_eq (v : ι → R) : inTurn chain v = (linears chain).reverse.prodᵀ *ᵥ v +
        shifts (fun a => a.linearᵀ) chain := by
  induction chain with
  | nil => simp [inTurn, linears, shifts]
  | cons a chain ih =>
    have step : inTurn (a :: chain) v = a.linearᵀ *ᵥ inTurn chain v + a.shift := rfl
    have parts : linears (a :: chain) = a.linear :: linears chain := rfl
    rw [step, ih, parts, List.reverse_cons, List.prod_append,
      List.prod_singleton, transpose_mul, ← mulVec_mulVec, mulVec_add,
      shifts, add_assoc]

theorem skew_eq (front : List (Matrix ι ι R)) : skew front chain =
      front.prod *ᵥ shifts linear chain -
        front.reverse.prodᵀ *ᵥ shifts (fun a => a.linearᵀ) chain := by
  induction chain generalizing front with
  | nil => simp [skew, shifts]
  | cons a chain ih =>
    rw [skew, ih, List.prod_append, List.prod_singleton,
      List.reverse_append, List.reverse_singleton, List.singleton_append,
      List.prod_cons, transpose_mul, ← mulVec_mulVec, ← mulVec_mulVec, shifts,
      shifts, mulVec_add, mulVec_add, sub_mulVec]
    abel

omit [DecidableEq ι] in
theorem maps_eq_iff {A B : Matrix ι ι R} {s t : ι → R} :
    (∀ v, A *ᵥ v + s = B *ᵥ v + t) ↔ A = B ∧ s = t := by
  constructor
  · intro same
    have shift := same 0
    rw [mulVec_zero, mulVec_zero, zero_add, zero_add] at shift
    refine ⟨?_, shift⟩
    apply Matrix.mulVec_injective
    funext v
    have atV := same v
    rw [shift] at atV
    exact add_right_cancel atV
  · rintro ⟨rfl, rfl⟩ v
    rfl

theorem transposed_iff : (∀ v, (linears chain).prodᵀ *ᵥ v + shifts linear chain = inTurn chain v) ↔
      Aligned chain := by
  simp only [inTurn_eq]
  rw [maps_eq_iff, transpose_inj]
  have apart := @skew_eq ι R _ _ _ chain []
  rw [List.prod_nil, List.reverse_nil, List.prod_nil, transpose_one, one_mulVec,
    one_mulVec] at apart
  constructor
  · rintro ⟨products, shifts⟩
    exact ⟨products, by rw [apart, shifts, sub_self]⟩
  · rintro ⟨products, shifts⟩
    exact ⟨products, sub_eq_zero.mp (apart ▸ shifts)⟩

theorem skew_of_symmetric (symmetric : ∀ a ∈ chain, a.linearᵀ = a.linear) : skew [] chain = 0 := by
  have same : shifts (fun a => a.linearᵀ) chain = shifts linear chain := by
    induction chain with
    | nil => rfl
    | cons a chain ih =>
      rw [shifts, shifts, symmetric a List.mem_cons_self, ih fun b among =>
          symmetric b (List.mem_cons_of_mem _ among)]
  rw [skew_eq, same]
  simp

theorem prod_reverse_of_commute {parts : List (Matrix ι ι R)} (commute : parts.Pairwise Commute) :
    parts.prod = parts.reverse.prod := by
  induction parts with
  | nil => rfl
  | cons A parts ih =>
    rw [List.pairwise_cons] at commute
    rw [List.prod_cons, List.reverse_cons, List.prod_append, List.prod_singleton, ← ih commute.2]
    exact Commute.list_prod_right parts A commute.1

theorem aligned_of_symmetric (symmetric : ∀ a ∈ chain, a.linearᵀ = a.linear)
    (commute : (linears chain).Pairwise Commute) : Aligned chain :=
  ⟨prod_reverse_of_commute commute, skew_of_symmetric symmetric⟩

end Affinity

end Agar.Lib
