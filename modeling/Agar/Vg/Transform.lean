import Mathlib
import Agar.Lib.AffineChain

namespace Agar.Vg

open Agar.Lib
open Matrix

/-!
# Transformations of nodes

`VG_NodeTransform` multiplies the matrices of a node and its parents.  The
product is that of columns, and `VG_MultMatrixByVector` maps a vector by the
columns for the shift, but by the rows for the rest.  `VG_SetPosition` takes
the position of the parent into account, and not how the parent is turned.
-/

/-! ## Matrices and vectors -/

/-- `VG_Matrix` -/
abbrev VGMatrix := Matrix (Fin 3) (Fin 3) ℚ

/-- `VG_Vector` -/
@[ext] structure VGVector where
  x : ℚ
  y : ℚ
  deriving DecidableEq

/-- `VG_MatrixIdentity` -/
def matrixIdentity : VGMatrix := !![1, 0, 0; 0, 1, 0; 0, 0, 1]

/-- `VG_MultMatrix` -/
def multMatrix (T A : VGMatrix) : VGMatrix :=
  .of fun m n => T m 0 * A 0 n + T m 1 * A 1 n + T m 2 * A 2 n

/-- `VG_MultMatrixByVector` -/
def multMatrixByVector (a : VGVector) (T : VGMatrix) : VGVector where
  x := a.x * T 0 0 + a.y * T 1 0 + T 0 2
  y := a.x * T 0 1 + a.y * T 1 1 + T 1 2

/-! ## Nodes -/

/-- A node with its matrix, and its parents -/
inductive NodeChain where
  | root (T : VGMatrix)
  | child (parent : NodeChain) (T : VGMatrix)

namespace NodeChain

/-- The list of `VG_NodeTransform`: parents are inserted in front. -/
def rNodes : NodeChain → List VGMatrix → List VGMatrix
  | root T, nodes => T :: nodes
  | child parent T, nodes => rNodes parent (T :: nodes)

/-- `VG_NodeTransform` -/
def nodeTransform (node : NodeChain) : VGMatrix := (node.rNodes []).foldl multMatrix matrixIdentity

/-- `VG_Pos` -/
def pos (node : NodeChain) : VGVector := multMatrixByVector ⟨0, 0⟩ node.nodeTransform

/-- A matrix with another shift: `T.m[0][2] = x`, `T.m[1][2] = y` -/
def withShift (T : VGMatrix) (x y : ℚ) : VGMatrix :=
  !![T 0 0, T 0 1, x; T 1 0, T 1 1, y; T 2 0, T 2 1, T 2 2]

/-- `VG_SetPosition` -/
def setPosition : NodeChain → VGVector → NodeChain
  | root T, v => root (withShift T v.x v.y)
  | child parent T, v => child parent (withShift T (v.x - parent.pos.x) (v.y - parent.pos.y))

/-- The matrices of the parents, from the root on -/
def ancestors : NodeChain → List VGMatrix
  | root _ => []
  | child parent _ => parent.rNodes []

/-! ## What is claimed of them -/

/-- The last row is that of an affine map. -/
structure IsAffine (T : VGMatrix) : Prop where
  first : T 2 0 = 0
  second : T 2 1 = 0
  last : T 2 2 = 1

/-- A vector is mapped by each node's own matrix, up to the root. -/
def mapInTurn : NodeChain → VGVector → VGVector
  | root T, v => multMatrixByVector v T
  | child parent T, v => parent.mapInTurn (multMatrixByVector v T)

/-- The matrix of a node maps each vector as the matrices do in turn. -/
def Composes (node : NodeChain) : Prop :=
  ∀ v, multMatrixByVector v node.nodeTransform = node.mapInTurn v

/-- A node whose parents can be inverted is where it was put. -/
def KeepsPositions (node : NodeChain) : Prop :=
  (∀ T ∈ node.ancestors, IsUnit T) → ∀ v, (node.setPosition v).pos = v

/-- The part of a matrix without the shift, and the shift -/
def affinity (T : VGMatrix) : Affinity (Fin 2) ℚ where
  linear := !![T 0 0, T 0 1; T 1 0, T 1 1]
  shift := ![T 0 2, T 1 2]

/-- What is mapped from a node to the root, as affine maps from the root on -/
def chain (node : NodeChain) : List (Affinity (Fin 2) ℚ) := (node.rNodes []).map affinity

/--
The matrices do the same by rows and by columns, and parents that can be
inverted turn and scale nothing when taken together.
-/
structure Upright (node : NodeChain) : Prop where
  aligned : Affinity.Aligned node.chain
  unturned : (∀ T ∈ node.ancestors, IsUnit T) →
    (Affinity.linears (node.ancestors.map affinity)).prod = 1

/-! ## Matrices as affine maps -/

/-- The coordinates of a vector -/
def coordinates (v : VGVector) : Fin 2 → ℚ := ![v.x, v.y]

theorem coordinates_injective : Function.Injective coordinates := by
  intro v w same
  exact VGVector.ext (congrFun same 0) (congrFun same 1)

theorem coordinates_surjective : Function.Surjective coordinates := by
  intro f
  refine ⟨⟨f 0, f 1⟩, ?_⟩
  funext i
  fin_cases i <;> rfl

variable (T : VGMatrix)

theorem multMatrix_eq_mul (A : VGMatrix) : multMatrix T A = T * A := by
  ext m n
  rw [mul_apply, Fin.sum_univ_three]
  rfl

theorem matrixIdentity_eq_one : matrixIdentity = 1 := by
  ext i j
  fin_cases i <;> fin_cases j <;> rfl

theorem coordinates_multMatrixByVector (v : VGVector) (T : VGMatrix) :
    coordinates (multMatrixByVector v T) =
      (affinity T).linearᵀ *ᵥ coordinates v + (affinity T).shift := by
  funext i
  fin_cases i <;>
    simp [coordinates, multMatrixByVector, affinity, mul_comm]

theorem affinity_mul_linear {A : VGMatrix} (affine : IsAffine A) :
    (affinity (T * A)).linear = (affinity T).linear * (affinity A).linear := by
  ext i j
  fin_cases i <;> fin_cases j <;>
    simp [affinity, mul_apply, Fin.sum_univ_three, Fin.sum_univ_two, affine.first, affine.second]

theorem affinity_mul_shift {A : VGMatrix} (affine : IsAffine A) : (affinity (T * A)).shift =
      (affinity T).linear *ᵥ (affinity A).shift + (affinity T).shift := by
  funext i
  fin_cases i <;>
    simp [affinity, mul_apply, Fin.sum_univ_three, affine.last, mul_comm]

theorem isAffine_one : IsAffine 1 := ⟨by decide, by decide, by decide⟩

theorem IsAffine.mul {T A : VGMatrix} (affineT : IsAffine T) (affineA : IsAffine A) :
    IsAffine (T * A) := by
  constructor <;>
    simp [mul_apply, Fin.sum_univ_three, affineT.first, affineT.second,
      affineT.last, affineA.first, affineA.second, affineA.last]

theorem affinity_one_linear : (affinity 1).linear = 1 := by
  ext i j
  fin_cases i <;> fin_cases j <;> rfl

theorem affinity_one_shift : (affinity 1).shift = 0 := by
  funext i
  fin_cases i <;> rfl

section Products

variable {path : List VGMatrix}

theorem isAffine_prod (affine : ∀ T ∈ path, IsAffine T) : IsAffine path.prod := by
  induction path with
  | nil => exact isAffine_one
  | cons T path ih =>
    rw [List.forall_mem_cons] at affine
    rw [List.prod_cons]
    exact affine.1.mul (ih affine.2)

theorem affinity_prod_linear (affine : ∀ T ∈ path, IsAffine T) : (affinity path.prod).linear =
      (Affinity.linears (path.map affinity)).prod := by
  induction path with
  | nil => exact affinity_one_linear
  | cons T path ih =>
    rw [List.forall_mem_cons] at affine
    rw [List.prod_cons, affinity_mul_linear T (isAffine_prod affine.2), ih affine.2]
    exact (List.prod_cons).symm

theorem affinity_prod_shift (affine : ∀ T ∈ path, IsAffine T) : (affinity path.prod).shift =
      Affinity.shifts Affinity.linear (path.map affinity) := by
  induction path with
  | nil => exact affinity_one_shift
  | cons T path ih =>
    rw [List.forall_mem_cons] at affine
    rw [List.prod_cons, affinity_mul_shift T (isAffine_prod affine.2), ih affine.2]
    rfl

end Products

/-! ## Chains -/

variable (node : NodeChain)

theorem rNodes_eq_append (nodes : List VGMatrix) : node.rNodes nodes = node.rNodes [] ++ nodes := by
  induction node generalizing nodes with
  | root T => rfl
  | child parent T ih => rw [rNodes, ih, rNodes, ih [T], List.append_assoc, List.singleton_append]

theorem rNodes_child (parent : NodeChain) (T : VGMatrix) :
    (child parent T).rNodes [] = parent.rNodes [] ++ [T] :=
  rNodes_eq_append parent [T]

theorem nodeTransform_eq_prod : node.nodeTransform = (node.rNodes []).prod := by
  have same : multMatrix = fun T A => T * A := by
    funext T A
    exact multMatrix_eq_mul T A
  rw [nodeTransform, same, matrixIdentity_eq_one, List.prod_eq_foldl]

theorem nodeTransform_child (parent : NodeChain) (T : VGMatrix) :
    (child parent T).nodeTransform = parent.nodeTransform * T := by
  rw [nodeTransform_eq_prod, nodeTransform_eq_prod, rNodes_child,
    List.prod_append, List.prod_singleton]

theorem coordinates_mapInTurn (v : VGVector) : coordinates (node.mapInTurn v) =
      Affinity.inTurn node.chain (coordinates v) := by
  induction node generalizing v with
  | root T => exact coordinates_multMatrixByVector v T
  | child parent T ih =>
    rw [mapInTurn, ih, coordinates_multMatrixByVector, chain,
      chain, rNodes_child, List.map_append, Affinity.inTurn, Affinity.inTurn,
      List.foldr_append]
    rfl

theorem coordinates_pos : coordinates node.pos = (affinity node.nodeTransform).shift := by
  rw [pos, coordinates_multMatrixByVector]
  have origin : coordinates ⟨0, 0⟩ = 0 := by
    funext i
    fin_cases i <;> rfl
  rw [origin, mulVec_zero, zero_add]

section Nodes

variable {node : NodeChain}

theorem composes_iff (affine : ∀ T ∈ node.rNodes [], IsAffine T) :
    node.Composes ↔ Affinity.Aligned node.chain := by
  rw [← Affinity.transposed_iff, chain, ← affinity_prod_linear affine,
    ← affinity_prod_shift affine, ← nodeTransform_eq_prod]
  constructor
  · intro composes v
    obtain ⟨v, rfl⟩ := coordinates_surjective v
    rw [← coordinates_multMatrixByVector, composes v, coordinates_mapInTurn]
    rfl
  · intro same v
    apply coordinates_injective
    rw [coordinates_multMatrixByVector, same, coordinates_mapInTurn]
    rfl

theorem affinity_withShift (x y : ℚ) :
    affinity (withShift T x y) = ⟨(affinity T).linear, ![x, y]⟩ := by
  rfl

theorem IsAffine.withShift {T : VGMatrix} (affine : IsAffine T) (x y : ℚ) :
    IsAffine (withShift T x y) :=
  ⟨affine.first, affine.second, affine.last⟩

theorem coordinates_setPosition_child {parent : NodeChain} {T : VGMatrix} (affine : IsAffine T)
    (v : VGVector) :
    coordinates ((child parent T).setPosition v).pos = (affinity parent.nodeTransform).linear *ᵥ
          (coordinates v - coordinates parent.pos) +
        coordinates parent.pos := by
  have relative : ![v.x - parent.pos.x, v.y - parent.pos.y] =
        coordinates v - coordinates parent.pos := by
    funext i
    fin_cases i <;> rfl
  rw [coordinates_pos, setPosition, nodeTransform_child,
    affinity_mul_shift _ (affine.withShift _ _), affinity_withShift, relative,
    ← coordinates_pos]

theorem keepsPositions_iff (affine : ∀ T ∈ node.rNodes [], IsAffine T) : node.KeepsPositions ↔
      ((∀ T ∈ node.ancestors, IsUnit T) →
        (Affinity.linears (node.ancestors.map affinity)).prod = 1) := by
  refine imp_congr_right fun _ => ?_
  cases node with
  | root T =>
    refine iff_of_true (fun v => ?_) rfl
    apply coordinates_injective
    rw [coordinates_pos, setPosition, nodeTransform_eq_prod, rNodes,
      List.prod_singleton, affinity_withShift]
    rfl
  | child parent T =>
    rw [rNodes_child] at affine
    have affineT : IsAffine T := affine T (by simp)
    have affineParent : ∀ A ∈ parent.rNodes [], IsAffine A :=
      fun A among => affine A (List.mem_append_left _ among)
    rw [ancestors, ← affinity_prod_linear affineParent, ← nodeTransform_eq_prod]
    constructor
    · intro keeps
      apply Matrix.mulVec_injective
      funext w
      obtain ⟨v, isSum⟩ := coordinates_surjective (w + coordinates parent.pos)
      have kept := @coordinates_setPosition_child parent T affineT v
      rw [keeps v, isSum, add_sub_cancel_right] at kept
      rw [one_mulVec]
      exact (add_right_cancel kept).symm
    · intro unturned v
      apply coordinates_injective
      rw [coordinates_setPosition_child affineT, unturned, one_mulVec, sub_add_cancel]

/--
Transformations compose, and nodes are where they are put, if and only if the
matrices do the same by rows and by columns, and the parents turn nothing.
-/
theorem nodeTransform_iff (affine : ∀ T ∈ node.rNodes [], IsAffine T) :
    node.Composes ∧ node.KeepsPositions ↔ node.Upright := by
  rw [composes_iff affine, keepsPositions_iff affine]
  exact ⟨fun ⟨aligned, unturned⟩ => ⟨aligned, unturned⟩,
    fun ⟨aligned, unturned⟩ => ⟨aligned, unturned⟩⟩

end Nodes

/-! ## Nodes that are moved, and nodes that are turned -/

def moving (x y : ℚ) : VGMatrix := !![1, 0, x; 0, 1, y; 0, 0, 1]

theorem affinity_moving_linear (x y : ℚ) : (affinity (moving x y)).linear = 1 := by
  ext i j
  fin_cases i <;> fin_cases j <;> rfl

def movedNode : NodeChain := child (root (moving 1 2)) !![2, 0, 3; 0, 5, 1; 0, 0, 1]

theorem nodeTransform_iff_movedNode : movedNode.Composes ∧ movedNode.KeepsPositions := by
  refine (nodeTransform_iff ?_).mpr ⟨?_, fun _ => ?_⟩
  · simp only [movedNode, rNodes, List.forall_mem_cons]
    exact ⟨⟨rfl, rfl, rfl⟩, ⟨rfl, rfl, rfl⟩, List.forall_mem_nil _⟩
  · refine Affinity.aligned_of_symmetric ?_ ?_
    · simp only [chain, movedNode, rNodes, List.map_cons, List.map_nil, List.forall_mem_cons]
      exact ⟨by decide, by decide, List.forall_mem_nil _⟩
    · simp only [chain, movedNode, rNodes, List.map_cons, List.map_nil,
        Affinity.linears, List.pairwise_pair, affinity_moving_linear]
      exact Commute.one_left _
  · simp [movedNode, ancestors, rNodes, Affinity.linears, affinity_moving_linear]

def turnedNode : NodeChain := child (root !![0, -1, 0; 1, 0, 0; 0, 0, 1]) (moving 1 0)

theorem turnedNode_not_composes : (∀ T ∈ turnedNode.rNodes [], IsAffine T) ∧
      (∀ T ∈ turnedNode.ancestors, IsUnit T) ∧
        ¬ turnedNode.Composes ∧ ¬ turnedNode.KeepsPositions := by
  have invertible : ∀ T ∈ turnedNode.ancestors, IsUnit T := by
    simp only [turnedNode, ancestors, rNodes, List.forall_mem_cons]
    refine ⟨?_, List.forall_mem_nil _⟩
    rw [isUnit_iff_isUnit_det, det_fin_three]
    simp
  refine ⟨?_, invertible, fun composes => ?_, fun keeps => ?_⟩
  · simp only [turnedNode, rNodes, List.forall_mem_cons]
    exact ⟨⟨rfl, rfl, rfl⟩, ⟨rfl, rfl, rfl⟩, List.forall_mem_nil _⟩
  · have same := congrArg VGVector.y (composes ⟨0, 0⟩)
    have transform : turnedNode.nodeTransform = !![0, -1, 0; 1, 0, 1; 0, 0, 1] := by
      rw [turnedNode, nodeTransform_child, nodeTransform_eq_prod, rNodes,
        List.prod_singleton, moving, mul_fin_three]
      norm_num
    rw [transform] at same
    simp [turnedNode, mapInTurn, multMatrixByVector, moving] at same
    norm_num at same
  · have same := congrArg VGVector.y (keeps invertible ⟨1, 0⟩)
    have transform : (turnedNode.setPosition ⟨1, 0⟩).nodeTransform =
          !![0, -1, 0; 1, 0, 1; 0, 0, 1] := by
      have parent : (root !![0, -1, 0; 1, 0, 0; 0, 0, 1]).pos = ⟨0, 0⟩ := by
        rw [pos, nodeTransform_eq_prod, rNodes, List.prod_singleton]
        simp [multMatrixByVector]
      rw [turnedNode, setPosition, parent, nodeTransform_child,
        nodeTransform_eq_prod, rNodes, List.prod_singleton, withShift,
        mul_fin_three]
      simp [moving]
    rw [pos, transform] at same
    simp [multMatrixByVector] at same

end NodeChain

end Agar.Vg
