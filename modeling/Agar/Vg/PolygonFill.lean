import Agar.Gui.Surface
import Agar.Lib.Comparators

namespace Agar.Vg

open Agar.Lib
open Agar.Core
open Agar.Gui (intResult intResult_of_holds int_holds_iff)

/-!
# Polygons that are filled

`DrawFB` finds where the edges of a polygon cross each scan line, sorts what it
found and draws a line between each two.  An edge counts where it starts, and
not where it ends, except on the last line, where it is the other way around.
-/

/-! ## The scan converter -/

/-- A vertex in the coordinates of the view -/
structure ViewPoint where
  x : Int
  y : Int
  deriving Repr, DecidableEq

/-- The crossings of a polygon: `ints`, if there is memory for them, and `nInts` -/
structure Crossings where
  ints : Option (List Int)
  nInts : Nat
  sized : ∀ cells, ints = some cells → cells.length = nInts

theorem sized_some (ints : List Int) :
    ∀ cells, some ints = some cells → cells.length = ints.length := by
  rintro cells ⟨⟩
  rfl

/-- `VG_Polygon`, as it is seen in a view -/
structure Polygon where
  pts : List ViewPoint
  crossings : Crossings

/-- A line that is drawn: `AG_DrawLineH(vv, xa, xb, y, c)` -/
structure Span where
  xa : Int
  xb : Int
  y : Int
  deriving Repr, DecidableEq

/-- `CompareInts` -/
def compareInts (a b : Int) : Except Stop Int := intResult (a - b)

/-- `VG_GetViewCoords(vv, VG_Pos(vp->pts[i]), ..)` -/
def vertex (pts : List ViewPoint) (i : Nat) : Except Stop ViewPoint :=
  match pts[i]? with
  | some p => .ok p
  | none => .error .undefined

/-- Where an edge starts -/
def previous (pts : List ViewPoint) (i : Nat) : Nat :=
  if i = 0 then pts.length - 1 else i - 1

/-- The ends of an edge, the lower one first, unless it is horizontal -/
def edge (pts : List ViewPoint) (i : Nat) : Except Stop (Option (ViewPoint × ViewPoint)) := do
  let p1 ← vertex pts (previous pts i)
  let p2 ← vertex pts i
  if p1.y < p2.y then return some (p1, p2)
  else if p1.y > p2.y then return some (p2, p1)
  else return none

/--
`(((y-y1)<<16) / (y2-y1)) * (x2-x1) + (x1<<16)`, where a number is shifted to
the left by multiplying it, also if it is negative
-/
def crossing (y : Int) (p1 p2 : ViewPoint) : Except Stop Int := do
  let rise ← intResult (y - p1.y)
  let shifted ← intResult (rise * 2 ^ 16)
  let height ← intResult (p2.y - p1.y)
  let part ←
    if height = 0 then .error .undefined else intResult (shifted.tdiv height)
  let width ← intResult (p2.x - p1.x)
  let product ← intResult (part * width)
  let start ← intResult (p1.x * 2 ^ 16)
  intResult (product + start)

/-- Whether an edge counts on a scan line -/
def counts (maxy y : Int) (p1 p2 : ViewPoint) : Bool :=
  (y ≥ p1.y && y < p2.y) || (y = maxy && (y > p1.y && y ≤ p2.y))

/-- `vp->ints[nInts++] = x` -/
def push (x : Int) (state : List Int × Nat) : Except Stop (List Int × Nat) :=
  if state.2 < state.1.length then .ok (state.1.set state.2 x, state.2 + 1) else .error .undefined

/-- An edge on a scan line -/
def scanEdge (pts : List ViewPoint) (maxy y : Int) (i : Nat)
    (state : List Int × Nat) : Except Stop (List Int × Nat) := do
  match ← edge pts i with
  | none => return state
  | some (p1, p2) => if counts maxy y p1 p2 then push (← crossing y p1 p2) state else return state

/-- The edges on a scan line: the memory, and `nInts` -/
def scanEdges (pts : List ViewPoint) (maxy y : Int)
    (cells : List Int) : Except Stop (List Int × Nat) :=
  forLoop (scanEdge pts maxy y) pts.length 0 (cells, 0)

/-- `vp->ints[i]` -/
def readInt (cells : List Int) (i : Nat) : Except Stop Int :=
  match cells[i]? with
  | some x => .ok x
  | none => .error .undefined

/-- `(xa>>16) + ((xa&0x8000) >> 15)`, where a shift to the right rounds down -/
def rounded (xa : Int) : Except Stop Int := intResult (xa / 2 ^ 16 + xa / 2 ^ 15 % 2)

/-- The line between two crossings -/
def drawSpan (cells : List Int) (y : Int) (pair : Nat)
    (spans : List Span) : Except Stop (List Span) := do
  let i := 2 * pair
  let xa ← rounded (← intResult ((← readInt cells i) + 1))
  let xb ← rounded (← intResult ((← readInt cells (i + 1)) - 1))
  return spans ++ [⟨xa, xb, y⟩]

/-- The lines of a scan line: `for (i = 0; i < nInts; i += 2)` -/
def drawSpans (cells : List Int) (nInts : Nat) (y : Int)
    (spans : List Span) : Except Stop (List Span) :=
  forLoop (drawSpan cells y) ((nInts + 1) / 2) 0 spans

/-- A scan line -/
def scanLine (qsort : Qsort Stop) (pts : List ViewPoint) (maxy y : Int)
    (state : List Int × List Span) : Except Stop (List Int × List Span) := do
  let (cells, nInts) ← scanEdges pts maxy y state.1
  let sorted ← qsort.sort compareInts (cells.take nInts)
  let cells := sorted ++ cells.drop nInts
  let spans ← drawSpans cells nInts y state.2
  return (cells, spans)

/-- The least and the greatest `y` -/
def findMaxima (pts : List ViewPoint) : Except Stop (Int × Int) := do
  let p ← vertex pts 0
  forLoop (fun i (miny, maxy) => do
      let p ← vertex pts i
      if p.y < miny then return (p.y, maxy)
      else if p.y > maxy then return (miny, p.y)
      else return (miny, maxy))
    (pts.length - 1) 1 (p.y, p.y)

/-- The memory for the crossings, which is made or made larger -/
def Crossings.reserve (crossings : Crossings) (fresh : Nat → Int) (nPts : Nat) : List Int :=
  match crossings.ints with
  | none => (List.range nPts).map fresh
  | some cells => if nPts > crossings.nInts then resize fresh nPts cells else cells

/-- `DrawFB`: the crossings that are left, and the lines that are drawn -/
def drawFB (qsort : Qsort Stop) (fresh : Nat → Int)
    (vp : Polygon) : Except Stop (Crossings × List Span) := do
  let cells := vp.crossings.reserve fresh vp.pts.length
  let (miny, maxy) ← findMaxima vp.pts
  let (cells, spans) ← forLoop (fun line => scanLine qsort vp.pts maxy (miny + line))
      (maxy - miny + 1).toNat 0 (cells, [])
  return (⟨some cells, cells.length, sized_some cells⟩, spans)

/-! ## What is claimed of it -/

/-- View coordinates are small. -/
def Small (pts : List ViewPoint) : Prop := ∀ p ∈ pts, |p.x| < 2 ^ 13 ∧ |p.y| < 2 ^ 13

/--
The crossings of a scan line are found without leaving their memory, are even in
number, not more than there are vertices, and are sorted before they are paired.
-/
structure Matched (qsort : Qsort Stop) (pts : List ViewPoint) (maxy y : Int)
    (cells : List Int) : Prop where
  found : ∃ found nInts sorted, scanEdges pts maxy y cells = .ok (found, nInts) ∧
        (Even nInts ∧ nInts ≤ pts.length) ∧ found.length = cells.length ∧
            qsort.sort compareInts (found.take nInts) = .ok sorted ∧
              sorted.Perm (found.take nInts) ∧ sorted.Pairwise (· ≤ ·) ∧ ∀ spans, ∃ drawn,
                      scanLine qsort pts maxy y (cells, spans) =
                        .ok (sorted ++ found.drop nInts, drawn)

/-! ## Numbers -/

section Numbers

variable {y : Int} {p1 p2 : ViewPoint}

theorem crossing_ok (above : p1.y ≤ y) (below : y ≤ p2.y) (rises : p1.y < p2.y)
    (small1 : |p1.x| < 2 ^ 13 ∧ |p1.y| < 2 ^ 13) (small2 : |p2.x| < 2 ^ 13 ∧ |p2.y| < 2 ^ 13) :
    ∃ x, crossing y p1 p2 = .ok x ∧ |x| < 2 ^ 29 := by
  obtain ⟨⟨left1, right1⟩, least1, most1⟩ := And.intro (abs_lt.mp small1.1) (abs_lt.mp small1.2)
  obtain ⟨⟨left2, right2⟩, least2, most2⟩ := And.intro (abs_lt.mp small2.1) (abs_lt.mp small2.2)
  have shiftedNonneg : 0 ≤ (y - p1.y) * 2 ^ 16 := by omega
  have isDiv : ((y - p1.y) * 2 ^ 16).tdiv (p2.y - p1.y) = (y - p1.y) * 2 ^ 16 / (p2.y - p1.y) :=
    Int.tdiv_eq_ediv_of_nonneg shiftedNonneg
  have partNonneg : 0 ≤ (y - p1.y) * 2 ^ 16 / (p2.y - p1.y) :=
    Int.ediv_nonneg shiftedNonneg (by omega)
  have partMost : (y - p1.y) * 2 ^ 16 / (p2.y - p1.y) ≤ 2 ^ 16 := by
    refine Int.ediv_le_of_le_mul (by omega) ?_
    omega
  have steep : p2.y - p1.y ≠ 0 := by omega
  unfold crossing
  have partHeld : CType.int.Holds ((y - p1.y) * 2 ^ 16 / (p2.y - p1.y)) :=
    int_holds_iff.mpr (by omega)
  rw [intResult_of_holds (int_holds_iff.mpr (by omega)), ok_bind,
    intResult_of_holds (int_holds_iff.mpr (by omega)), ok_bind,
    intResult_of_holds (int_holds_iff.mpr (by omega)), ok_bind, if_neg steep,
    isDiv, intResult_of_holds partHeld, ok_bind]
  generalize (y - p1.y) * 2 ^ 16 / (p2.y - p1.y) = part at *
  -- A crossing is a mean of both ends, weighted with what the division gives.
  have product : |part * (p2.x - p1.x)| ≤ 2 ^ 16 * (2 ^ 14 - 2) := by
    rw [abs_mul, abs_of_nonneg partNonneg]
    have width : |p2.x - p1.x| ≤ 2 ^ 14 - 2 := abs_le.mpr (by omega)
    exact mul_le_mul partMost width (abs_nonneg _) (by norm_num)
  have mean : part * (p2.x - p1.x) + p1.x * 2 ^ 16 = part * p2.x + (2 ^ 16 - part) * p1.x := by ring
  have bound : |part * (p2.x - p1.x) + p1.x * 2 ^ 16| < 2 ^ 29 := by
    rw [mean]
    have first : |part * p2.x| ≤ part * (2 ^ 13 - 1) := by
      rw [abs_mul, abs_of_nonneg partNonneg]
      exact mul_le_mul_of_nonneg_left (abs_le.mpr (by omega)) partNonneg
    have second : |(2 ^ 16 - part) * p1.x| ≤ (2 ^ 16 - part) * (2 ^ 13 - 1) := by
      rw [abs_mul, abs_of_nonneg (by omega)]
      exact mul_le_mul_of_nonneg_left (abs_le.mpr (by omega)) (by omega)
    have sum := abs_add_le (part * p2.x) ((2 ^ 16 - part) * p1.x)
    omega
  obtain ⟨productLeast, productMost⟩ := abs_le.mp product
  obtain ⟨boundLeast, boundMost⟩ := abs_lt.mp bound
  beta_reduce
  rw [intResult_of_holds (int_holds_iff.mpr (by omega)), ok_bind,
    intResult_of_holds (int_holds_iff.mpr (by omega)), ok_bind,
    intResult_of_holds (int_holds_iff.mpr (by omega)), ok_bind,
    intResult_of_holds (int_holds_iff.mpr (by omega))]
  exact ⟨_, rfl, bound⟩

theorem compareInts_agrees {list : List Int} (small : ∀ x ∈ list, |x| < 2 ^ 29) :
    Agrees compareInts (· ≤ ·) list := by
  intro a among b amongToo
  obtain ⟨leastA, mostA⟩ := abs_lt.mp (small a among)
  obtain ⟨leastB, mostB⟩ := abs_lt.mp (small b amongToo)
  refine ⟨a - b, intResult_of_holds (int_holds_iff.mpr (by omega)), ?_, ?_⟩
  · omega
  · omega

theorem rounded_ok {xa : Int} (small : |xa| ≤ 2 ^ 29) : ∃ x, rounded xa = .ok x := by
  obtain ⟨least, most⟩ := abs_le.mp small
  exact ⟨_, intResult_of_holds (int_holds_iff.mpr (by omega))⟩

end Numbers

/-! ## Sides of a scan line -/

section Sides

variable {pts : List ViewPoint} {maxy y : Int}

/-- Whether a point is on the side where edges start -/
def inside (maxy y : Int) (p : ViewPoint) : Bool :=
  if y = maxy then p.y < y else p.y ≤ y

/-- Whether a vertex is on the side where edges start -/
def side (pts : List ViewPoint) (maxy y : Int) (i : Nat) : Bool :=
  (pts[i]?.map (inside maxy y)).getD false

theorem counts_eq {p1 p2 : ViewPoint} (rises : p1.y < p2.y) (most : p2.y ≤ maxy) :
    counts maxy y p1 p2 = (inside maxy y p1 ^^ inside maxy y p2) := by
  rw [Bool.eq_iff_iff]
  unfold counts inside
  split <;> simp <;> omega

theorem inside_eq {p1 p2 : ViewPoint} (level : p1.y = p2.y) :
    inside maxy y p1 = inside maxy y p2 := by
  unfold inside
  rw [level]

theorem bounds_of_counts {p1 p2 : ViewPoint} (counted : counts maxy y p1 p2 = true) :
    p1.y ≤ y ∧ y ≤ p2.y := by
  unfold counts at counted
  simp only [Bool.or_eq_true, Bool.and_eq_true, decide_eq_true_eq] at counted
  omega

theorem vertex_of_lt {i : Nat} (within : i < pts.length) :
    ∃ p, vertex pts i = .ok p ∧ p ∈ pts ∧ side pts maxy y i = inside maxy y p := by
  refine ⟨pts[i], ?_, List.getElem_mem within, ?_⟩
  · simp only [vertex, List.getElem?_eq_getElem within]
  · simp only [side, List.getElem?_eq_getElem within, Option.map_some, Option.getD_some]

end Sides

/-! ## Edges -/

section Edges

variable {pts : List ViewPoint} {maxy y : Int} {cells : List Int}

theorem mem_take_set {x v : Int} {n : Nat} (below : n < cells.length)
    (among : v ∈ (cells.set n x).take (n + 1)) : v = x ∨ v ∈ cells.take n := by
  have isLast : (cells.set n x)[n]? = some x := by rw [List.getElem?_set_self below]
  rw [List.take_add_one, isLast, List.take_set_of_le (Nat.le_refl n), List.mem_append] at among
  rcases among with before | last
  · exact .inr before
  · exact .inl (by simpa using last)

/-- What holds while edges are gone through -/
structure Scanned (pts : List ViewPoint) (maxy y : Int) (size i : Nat)
    (state : List Int × Nat) : Prop where
  length : state.1.length = size
  few : state.2 ≤ i
  parity : decide (state.2 % 2 = 1) =
      (side pts maxy y (pts.length - 1) ^^ side pts maxy y (previous pts i))
  small : ∀ x ∈ state.1.take state.2, |x| < 2 ^ 29

theorem scanEdge_ok (small : Small pts) (most : ∀ p ∈ pts, p.y ≤ maxy) {i : Nat}
    {state : List Int × Nat} (within : i < pts.length) (room : pts.length ≤ cells.length)
    (scanned : Scanned pts maxy y cells.length i state) :
    ∃ next, scanEdge pts maxy y i state = .ok next ∧
        Scanned pts maxy y cells.length (i + 1) next := by
  obtain ⟨p1, read1, among1, side1⟩ :=
    @vertex_of_lt pts maxy y (previous pts i) (by unfold previous; split <;> omega)
  obtain ⟨p2, read2, among2, side2⟩ := @vertex_of_lt pts maxy y i within
  obtain ⟨cells', nInts⟩ := state
  obtain ⟨length, few, parity, smallInts⟩ := scanned
  have next : previous pts (i + 1) = i := rfl
  -- Where the ends are on the same side, nothing is stored, and else one crossing.
  have same (level : inside maxy y p1 = inside maxy y p2) :
      Scanned pts maxy y cells.length (i + 1) (cells', nInts) := by
    refine ⟨length, Nat.le_succ_of_le few, ?_, smallInts⟩
    rw [next, side2, ← level, ← side1]
    exact parity
  have pushed {x : Int} (differs : (inside maxy y p1 ^^ inside maxy y p2) = true)
      (bounded : |x| < 2 ^ 29) :
      ∃ after, push x (cells', nInts) = .ok after ∧
          Scanned pts maxy y cells.length (i + 1) after := by
    have below : nInts < cells'.length := by
      simp only at length few
      omega
    refine ⟨_, if_pos below, ?_, Nat.succ_le_succ few, ?_, ?_⟩
    · exact (List.length_set ..).trans length
    · rw [next, side2]
      rw [side1] at parity
      simp only at parity
      have flips : decide ((nInts + 1) % 2 = 1) = !decide (nInts % 2 = 1) := by
        rw [Bool.eq_iff_iff]
        simp only [decide_eq_true_eq, Bool.not_eq_true', decide_eq_false_iff_not]
        omega
      rw [flips, parity]
      revert differs
      cases inside maxy y p1 <;> cases inside maxy y p2 <;>
        cases side pts maxy y (pts.length - 1) <;> decide
    · intro v among
      rcases mem_take_set below among with rfl | before
      · exact bounded
      · exact smallInts v before
  have orderedEdge {lower upper : ViewPoint} (amongLower : lower ∈ pts) (amongUpper : upper ∈ pts)
      (rises : lower.y < upper.y)
      (ends : (inside maxy y lower ^^ inside maxy y upper) =
          (inside maxy y p1 ^^ inside maxy y p2)) :
      ∃ after, (if counts maxy y lower upper then do
            push (← crossing y lower upper) (cells', nInts)
          else return (cells', nInts)) = Except.ok after ∧
          Scanned pts maxy y cells.length (i + 1) after := by
    have counted := counts_eq (y := y) rises (most upper amongUpper)
    rw [ends] at counted
    split
    case isTrue isCounted =>
      obtain ⟨above, below⟩ := bounds_of_counts isCounted
      obtain ⟨x, crossed, bounded⟩ :=
        crossing_ok above below rises (small lower amongLower) (small upper amongUpper)
      rw [crossed, ok_bind]
      exact pushed (counted ▸ isCounted) bounded
    case isFalse notCounted =>
      refine ⟨_, rfl, same ?_⟩
      rw [counted] at notCounted
      simpa using notCounted
  unfold scanEdge edge
  simp only [read1, read2, ok_bind]
  split_ifs with rises falls
  · exact orderedEdge among1 among2 rises rfl
  · exact orderedEdge among2 among1 falls (Bool.xor_comm _ _)
  · exact ⟨_, rfl, same (inside_eq (by omega))⟩

theorem scanEdges_ok (small : Small pts) (most : ∀ p ∈ pts, p.y ≤ maxy) (nonempty : 0 < pts.length)
    (room : pts.length ≤ cells.length) :
    ∃ found nInts, scanEdges pts maxy y cells = .ok (found, nInts) ∧
        (Even nInts ∧ nInts ≤ pts.length) ∧
          found.length = cells.length ∧ ∀ x ∈ found.take nInts, |x| < 2 ^ 29 := by
  have start : Scanned pts maxy y cells.length 0 (cells, 0) := by
    refine ⟨rfl, Nat.le_refl _, ?_, fun x among => ?_⟩
    · rw [previous, if_pos rfl, Bool.xor_self]
      rfl
    · rw [List.take_zero] at among
      cases among
  obtain ⟨⟨found, nInts⟩, looped, scanned⟩ :=
    @forLoop_ok _ _ (scanEdge pts maxy y) pts.length 0 (cells, 0)
      (Scanned pts maxy y cells.length) start
      fun i state _ below scanned => scanEdge_ok small most (by omega) room scanned
  rw [Nat.zero_add] at scanned
  refine ⟨found, nInts, looped, ⟨?_, scanned.few⟩, scanned.length, scanned.small⟩
  -- Behind the last edge is the vertex that the first one started at.
  have parity := scanned.parity
  rw [previous, if_neg (by omega), Bool.xor_self, decide_eq_false_iff_not] at parity
  rw [Nat.even_iff]
  simp only at parity
  omega

end Edges

/-! ## Scan lines -/

section Lines

variable {pts : List ViewPoint} {maxy y : Int} {cells : List Int} {nInts : Nat}

theorem readInt_ok (small : ∀ x ∈ cells.take nInts, |x| < 2 ^ 29) (inside : nInts ≤ cells.length)
    {i : Nat} (below : i < nInts) : ∃ x, readInt cells i = .ok x ∧ |x| < 2 ^ 29 := by
  have there : cells[i]? = some (cells[i]) := List.getElem?_eq_getElem (by omega)
  have among : cells[i] ∈ cells.take nInts := by
    rw [List.mem_take_iff_getElem]
    exact ⟨i, by omega, rfl⟩
  exact ⟨cells[i], by rw [readInt, there], small _ among⟩

theorem drawSpans_ok (small : ∀ x ∈ cells.take nInts, |x| < 2 ^ 29) (inside : nInts ≤ cells.length)
    (even : Even nInts) (spans : List Span) :
    ∃ drawn, drawSpans cells nInts y spans = .ok drawn := by
  obtain ⟨half, rfl⟩ := even
  obtain ⟨drawn, looped, -⟩ :=
    @forLoop_ok _ _ (drawSpan cells y) ((half + half + 1) / 2) 0 spans (fun _ _ => True) trivial (by
        intro pair spans _ below _
        obtain ⟨xa, readA, smallA⟩ := readInt_ok small inside (i := 2 * pair) (by omega)
        obtain ⟨xb, readB, smallB⟩ := readInt_ok small inside (i := 2 * pair + 1) (by omega)
        obtain ⟨leastA, mostA⟩ := abs_lt.mp smallA
        obtain ⟨leastB, mostB⟩ := abs_lt.mp smallB
        obtain ⟨left, roundedA⟩ := @rounded_ok (xa + 1) (abs_le.mpr (by omega))
        obtain ⟨right, roundedB⟩ := @rounded_ok (xb - 1) (abs_le.mpr (by omega))
        refine ⟨spans ++ [⟨left, right, y⟩], ?_, trivial⟩
        unfold drawSpan
        simp only [readA, readB, ok_bind]
        rw [intResult_of_holds (int_holds_iff.mpr (by omega)), ok_bind, roundedA,
          ok_bind, intResult_of_holds (int_holds_iff.mpr (by omega)), ok_bind,
          roundedB]
        rfl)
  exact ⟨drawn, looped⟩

theorem matched (qsort : Qsort Stop) (small : Small pts) (most : ∀ p ∈ pts, p.y ≤ maxy)
    (nonempty : 0 < pts.length) (room : pts.length ≤ cells.length) :
    Matched qsort pts maxy y cells := by
  obtain ⟨found, nInts, scanned, ⟨even, few⟩, length, smallInts⟩ :=
    @scanEdges_ok pts maxy y cells small most nonempty room
  obtain ⟨sorted, sorts, perm, ordered⟩ :=
    qsort.sorts compareInts (· ≤ ·) (found.take nInts) (compareInts_agrees smallInts)
      fun a _ b _ c _ => le_trans
  refine ⟨found, nInts, sorted, scanned, ⟨even, few⟩, length, sorts, perm, ordered, fun spans => ?_⟩
  have sortedLength : sorted.length = nInts := by
    rw [perm.length_eq, List.length_take]
    omega
  have front : (sorted ++ found.drop nInts).take nInts = sorted := by
    rw [← sortedLength, List.take_left]
  have inside : nInts ≤ (sorted ++ found.drop nInts).length := by
    rw [List.length_append]
    omega
  obtain ⟨drawn, drew⟩ :=
    @drawSpans_ok y (sorted ++ found.drop nInts) nInts
      (front.symm ▸ fun x among => smallInts x (perm.mem_iff.mp among)) inside
      even spans
  refine ⟨drawn, ?_⟩
  unfold scanLine
  simp only [scanned, ok_bind, sorts, drew]
  rfl

theorem findMaxima_ok (nonempty : 0 < pts.length) : ∃ miny maxy, findMaxima pts = .ok (miny, maxy) ∧
        (∀ p ∈ pts, miny ≤ p.y ∧ p.y ≤ maxy) ∧ (∃ p ∈ pts, p.y = miny) ∧ ∃ p ∈ pts, p.y = maxy := by
  have first : pts[0]? = some (pts[0]) := List.getElem?_eq_getElem nonempty
  have firstAmong : pts[0] ∈ pts := List.getElem_mem nonempty
  have readFirst : vertex pts 0 = .ok (pts[0]) := by rw [vertex, first]
  unfold findMaxima
  rw [readFirst, ok_bind]
  obtain ⟨⟨miny, maxy⟩, looped, bounds, attained⟩ :=
    @forLoop_ok _ _ (fun i (bounds : Int × Int) => do
        let p ← vertex pts i
        if p.y < bounds.1 then return (p.y, bounds.2)
        else if p.y > bounds.2 then return (bounds.1, p.y)
        else return (bounds.1, bounds.2))
      (pts.length - 1) 1 (pts[0].y, pts[0].y)
      (fun i (bounds : Int × Int) =>
        (∀ j < i, ∀ p, pts[j]? = some p → bounds.1 ≤ p.y ∧ p.y ≤ bounds.2) ∧
          (∃ p ∈ pts, p.y = bounds.1) ∧ ∃ p ∈ pts, p.y = bounds.2)
      ⟨fun j below p isAt => by
        obtain rfl : j = 0 := by omega
        rw [first] at isAt
        cases isAt
        exact ⟨le_rfl, le_rfl⟩, ⟨_, firstAmong, rfl⟩, _, firstAmong, rfl⟩
      (by
        rintro i ⟨miny, maxy⟩ _ below ⟨bounds, attainedLeast, attainedMost⟩
        have there : pts[i]? = some (pts[i]) := List.getElem?_eq_getElem (by omega)
        have among : pts[i] ∈ pts := List.getElem_mem _
        have read : vertex pts i = .ok (pts[i]) := by rw [vertex, there]
        have step (least most : Int) (wider : least ≤ miny ∧ maxy ≤ most)
            (holds : least ≤ pts[i].y ∧ pts[i].y ≤ most) :
            ∀ j < i + 1, ∀ p, pts[j]? = some p → least ≤ p.y ∧ p.y ≤ most := by
          intro j before p isAt
          rcases Nat.lt_succ_iff_lt_or_eq.mp before with earlier | rfl
          · have old := bounds j earlier p isAt
            exact ⟨wider.1.trans old.1, old.2.trans wider.2⟩
          · rw [there] at isAt
            cases isAt
            exact holds
        simp only at attainedLeast attainedMost
        simp only [read, ok_bind]
        split_ifs with lower higher
        · exact ⟨_, rfl, step _ _ (by omega) (by
            have order := bounds 0 (by omega) _ first
            omega), ⟨_, among, rfl⟩, attainedMost⟩
        · exact ⟨_, rfl, step _ _ (by omega) (by omega), attainedLeast, _, among, rfl⟩
        · exact ⟨_, rfl, step _ _ (by omega) (by omega), attainedLeast, attainedMost⟩)
  refine ⟨miny, maxy, looped, fun p among => ?_, attained⟩
  obtain ⟨j, below, isAt⟩ := List.getElem_of_mem among
  refine bounds j (by omega) p ?_
  rw [List.getElem?_eq_getElem below, isAt]

end Lines

/-! ## Polygons -/

theorem Crossings.length_reserve (crossings : Crossings) (fresh : Nat → Int) (nPts : Nat) :
    nPts ≤ (crossings.reserve fresh nPts).length := by
  unfold Crossings.reserve
  split
  case h_1 => rw [List.length_map, List.length_range]
  case h_2 cells isSome =>
    have sized := crossings.sized cells isSome
    split
    case isTrue => rw [length_resize]
    case isFalse => omega

/--
Filling a polygon never leaves its memory and never overflows, and on each scan
line it finds an even number of crossings, at most one for each vertex, which
are sorted before they are paired.
-/
theorem drawFB_matched (qsort : Qsort Stop) (fresh : Nat → Int) (vp : Polygon)
    (least : 3 ≤ vp.pts.length) (small : Small vp.pts) :
    ∃ miny maxy, findMaxima vp.pts = .ok (miny, maxy) ∧ (∀ p ∈ vp.pts, miny ≤ p.y ∧ p.y ≤ maxy) ∧
          ((∃ p ∈ vp.pts, p.y = miny) ∧ ∃ p ∈ vp.pts, p.y = maxy) ∧ (∀ y cells, miny ≤ y →
              y ≤ maxy →
              vp.pts.length ≤ cells.length →
              Matched qsort vp.pts maxy y cells) ∧
              ∃ crossings spans, drawFB qsort fresh vp = .ok (crossings, spans) ∧
                  vp.pts.length ≤ crossings.nInts := by
  obtain ⟨miny, maxy, found, bounds, attained⟩ := @findMaxima_ok vp.pts (by omega)
  have most : ∀ p ∈ vp.pts, p.y ≤ maxy := fun p among => (bounds p among).2
  have eachLine (y : Int) (cells : List Int) (room : vp.pts.length ≤ cells.length) :
      Matched qsort vp.pts maxy y cells :=
    matched qsort small most (by omega) room
  refine ⟨miny, maxy, found, bounds, attained, fun y cells _ _ room => eachLine y cells room, ?_⟩
  obtain ⟨⟨cells, spans⟩, looped, room⟩ :=
    @forLoop_ok _ _ (fun line => scanLine qsort vp.pts maxy (miny + (line : Nat)))
      (maxy - miny + 1).toNat 0
      (vp.crossings.reserve fresh vp.pts.length, [])
      (fun _ (state : List Int × List Span) => vp.pts.length ≤ state.1.length)
      (vp.crossings.length_reserve fresh vp.pts.length)
      (by
        rintro line ⟨cells, spans⟩ _ _ room
        obtain ⟨found, nInts, sorted, _, _, length, _, perm, _, draws⟩ :=
          (eachLine (miny + line) cells room).found
        obtain ⟨drawn, drew⟩ := draws spans
        refine ⟨_, drew, ?_⟩
        have same := perm.length_eq
        have parts := @List.length_append _ (found.take nInts) (found.drop nInts)
        rw [List.take_append_drop] at parts
        simp only [List.length_append] at room ⊢
        omega)
  refine ⟨⟨some cells, cells.length, sized_some cells⟩, spans, ?_, room⟩
  unfold drawFB
  simp only [found, ok_bind, looped]
  rfl

def triangle : List ViewPoint := [⟨0, 0⟩, ⟨4, 2⟩, ⟨-4, 2⟩]

theorem drawFB_matched_triangle : Matched .merging triangle 2 1 [0, 0, 0] := by
  obtain ⟨miny, maxy, found, _, _, lines, _⟩ :=
    drawFB_matched .merging (fun _ => 0) ⟨triangle, ⟨none, 0, fun _ isSome => by
      cases isSome⟩⟩ (by decide) (by unfold Small triangle; decide)
  have same : findMaxima triangle = .ok (0, 2) := by rfl
  rw [same] at found
  cases found
  exact lines 1 [0, 0, 0] (by decide) (by decide) (by decide)

end Agar.Vg
