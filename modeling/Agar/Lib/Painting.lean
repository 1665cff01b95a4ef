import Agar.Lib.ByteArray
import Agar.Lib.Outcome

namespace Agar.Lib

/-!
# Painting a memory cell by cell

Loops that count, and cells of one size at places of a memory that a loop
overwrites one after the other.  Where the cells lie apart, each holds what was
painted there in the end, and the rest of the memory is as before.
-/

/-! ## Loops that count -/

section Loops

variable {ε α : Type}

/-- `for (i = first; i < first + count; i++)` -/
def forLoop (body : Nat → α → Except ε α) : Nat → Nat → α → Except ε α
  | 0, _, state => .ok state
  | count + 1, first, state => do
      let next ← body first state
      forLoop body count (first + 1) next

variable {body : Nat → α → Except ε α} {count first : Nat} {state final : α}

theorem forLoop_ok {inv : Nat → α → Prop} (start : inv first state)
    (turn : ∀ i state, first ≤ i → i < first + count → inv i state →
        ∃ next, body i state = .ok next ∧ inv (i + 1) next) :
    ∃ final, forLoop body count first state = .ok final ∧ inv (first + count) final := by
  induction count generalizing first state with
  | zero => exact ⟨state, rfl, start⟩
  | succ count ih =>
    obtain ⟨next, computed, kept⟩ := turn first state (Nat.le_refl _) (by omega) start
    obtain ⟨final, looped, reached⟩ :=
      ih kept fun i state above below => turn i state (by omega) (by omega)
    refine ⟨final, ?_, ?_⟩
    · rw [forLoop, computed, ok_bind, looped]
    · rwa [Nat.add_right_comm, Nat.add_assoc] at reached

theorem forLoop_ok_iff {inv : Nat → α → Prop} {cond : Nat → Prop} (start : inv first state)
    (turn : ∀ i state, first ≤ i → i < first + count → inv i state →
        ((∃ next, body i state = .ok next) ↔ cond i) ∧
          ∀ next, body i state = .ok next → inv (i + 1) next) :
    (∃ final, forLoop body count first state = .ok final) ↔
      ∀ i, first ≤ i → i < first + count → cond i := by
  induction count generalizing first state with
  | zero =>
    refine iff_of_true ⟨state, rfl⟩ fun i above below => ?_
    omega
  | succ count ih =>
    obtain ⟨succeeds, kept⟩ := turn first state (Nat.le_refl _) (by omega) start
    have rest {next : α} (computed : body first state = .ok next) :
        (∃ final, forLoop body count (first + 1) next = .ok final) ↔
          ∀ i, first + 1 ≤ i → i < first + 1 + count → cond i :=
      ih (kept next computed) fun i state above below => turn i state (by omega) (by omega)
    simp only [forLoop, bind_eq_ok]
    constructor
    · rintro ⟨final, next, computed, looped⟩ i above below
      rcases Nat.eq_or_lt_of_le above with rfl | later
      · exact succeeds.mp ⟨next, computed⟩
      · exact (rest computed).mp ⟨final, looped⟩ i later (by omega)
    · intro all
      obtain ⟨next, computed⟩ := succeeds.mpr (all first (Nat.le_refl _) (by omega))
      obtain ⟨final, looped⟩ := (rest computed).mpr fun i above below => all i (by omega) (by omega)
      exact ⟨final, next, computed, looped⟩

theorem forLoop_idle (idle : ∀ i, body i state = .ok state) :
    forLoop body count first state = .ok state := by
  induction count generalizing first with
  | zero => rfl
  | succ count ih => rw [forLoop, idle, ok_bind, ih]

section Turns

variable {inv : Nat → α → Prop}

theorem forLoop_keeps (looped : forLoop body count first state = .ok final)
    (start : inv first state)
    (turn : ∀ i state next, first ≤ i → i < first + count → inv i state → body i state = .ok next →
        inv (i + 1) next) : inv (first + count) final := by
  induction count generalizing first state with
  | zero =>
    cases looped
    exact start
  | succ count ih =>
    rw [forLoop, bind_eq_ok] at looped
    obtain ⟨next, computed, rest⟩ := looped
    have reached :=
      ih rest (turn first state next (Nat.le_refl _) (by omega) start computed)
        fun i state next above below => turn i state next (by omega) (by omega)
    rwa [Nat.add_right_comm, Nat.add_assoc] at reached

theorem forLoop_split (looped : forLoop body count first state = .ok final)
    (start : inv first state)
    (turn : ∀ i state next, first ≤ i → i < first + count → inv i state → body i state = .ok next →
        inv (i + 1) next) {i : Nat} (above : first ≤ i) (below : i < first + count) :
    ∃ before after, inv i before ∧ body i before = .ok after ∧
          forLoop body (first + count - (i + 1)) (i + 1) after = .ok final := by
  induction count generalizing first state with
  | zero => omega
  | succ count ih =>
    rw [forLoop, bind_eq_ok] at looped
    obtain ⟨next, computed, rest⟩ := looped
    rcases Nat.eq_or_lt_of_le above with rfl | later
    · have left : first + (count + 1) - (first + 1) = count := by omega
      rw [left]
      exact ⟨state, next, start, computed, rest⟩
    · have same : first + (count + 1) = first + 1 + count := by omega
      rw [same]
      exact ih rest (turn first state next (Nat.le_refl _) (by omega) start computed)
        (fun i state next above below => turn i state next (by omega) (by omega))
        later (by omega)

end Turns

end Loops

/-! ## Cells -/

section Cells

variable {β κ : Type} {old new : List β} {size : Nat} {place : κ → Nat} {value : κ → List β}
  {done : κ → Prop}

/-- Two cells of a size lie apart. -/
def Apart (size start other : Nat) : Prop := start + size ≤ other ∨ other + size ≤ start

/-- The cells that are done hold what is painted there, and nothing else changed. -/
structure Painted (old new : List β) (size : Nat) (place : κ → Nat) (value : κ → List β)
    (done : κ → Prop) : Prop where
  length : new.length = old.length
  painted : ∀ key, done key → SegmentAt new (place key) (value key)
  kept : ∀ index, (∀ key, done key → index < place key ∨ place key + size ≤ index) →
      new[index]? = old[index]?

theorem Painted.start (none : ∀ key, ¬ done key) : Painted old old size place value done where
  length := rfl
  painted := fun key isDone => absurd isDone (none key)
  kept := fun _ _ => rfl

theorem Painted.congr {done' : κ → Prop} (painted : Painted old new size place value done)
    (same : ∀ key, done' key ↔ done key) : Painted old new size place value done' where
  length := painted.length
  painted := fun key isDone => painted.painted key ((same key).mp isDone)
  kept := fun index outside =>
    painted.kept index fun key isDone => outside key ((same key).mpr isDone)

theorem Painted.congr_value {value' : κ → List β} (painted : Painted old new size place value done)
    (same : ∀ key, done key → value' key = value key) : Painted old new size place value' done where
  length := painted.length
  painted := fun key isDone => same key isDone ▸ painted.painted key isDone
  kept := painted.kept

theorem Painted.paint (painted : Painted old new size place value done)
    (sized : ∀ key, (value key).length = size) {key : κ} (inside : place key + size ≤ old.length)
    (apart : ∀ other, done other → Apart size (place other) (place key)) :
    Painted old (splice new (place key) (value key)) size place value
      fun other => done other ∨ other = key := by
  have room : place key + (value key).length ≤ new.length := by
    rw [sized, painted.length]
    exact inside
  refine ⟨(length_splice room).trans painted.length, fun other isDone => ?_,
    fun index outside => ?_⟩
  · rcases isDone with before | rfl
    · refine (painted.painted other before).splice room ?_
      rw [sized, sized]
      exact apart other before
    · exact segmentAt_splice room
  · have beside := outside key (.inr rfl)
    rw [getElem?_splice room, sized, if_neg (by omega)]
    exact painted.kept index fun other before => outside other (.inl before)

theorem Painted.paint_part {part : List β} {start : Nat} {fresh : κ → Prop}
    (painted : Painted old new size place value done) (inside : start + part.length ≤ old.length)
    (others : ∀ other, done other → place other + size ≤ start ∨ start + part.length ≤ place other)
    (sized : ∀ key, (value key).length = size)
    (cells : ∀ key, fresh key → ∃ count, count + size ≤ part.length ∧ place key = start + count ∧
              (part.drop count).take size = value key)
    (covered : ∀ index, index < part.length → ∃ key, fresh key ∧
            place key ≤ start + index ∧ start + index < place key + size) :
    Painted old (splice new start part) size place value fun key => done key ∨ fresh key := by
  have room : start + part.length ≤ new.length := by
    rw [painted.length]
    exact inside
  refine ⟨(length_splice room).trans painted.length, fun key isDone => ?_, fun index outside => ?_⟩
  · rcases isDone with before | isFresh
    · refine (painted.painted key before).splice room ?_
      rw [sized]
      exact others key before
    · obtain ⟨count, within, isPlace, isValue⟩ := cells key isFresh
      have rest := @SegmentAt.drop β _ _ _ (segmentAt_splice room) count (by omega)
      rw [← isPlace, ← List.take_append_drop size (part.drop count),
        segmentAt_append, isValue] at rest
      exact rest.1
  · have beside : ¬ (start ≤ index ∧ index < start + part.length) := by
      rintro ⟨above, below⟩
      obtain ⟨key, isFresh, least, most⟩ := covered (index - start) (by omega)
      have apart := outside key (.inr isFresh)
      omega
    rw [getElem?_splice room, if_neg beside]
    exact painted.kept index fun other before => outside other (.inl before)

theorem Painted.shrink {done' : κ → Prop} (painted : Painted old new size place value done)
    (sized : ∀ key, (value key).length = size) (fewer : ∀ key, done' key → done key)
    (already : ∀ key, done key → ¬ done' key → SegmentAt old (place key) (value key)) :
    Painted old new size place value done' where
  length := painted.length
  painted := fun key isDone => painted.painted key (fewer key isDone)
  kept := by
    intro index outside
    by_cases beside : ∀ key, done key → index < place key ∨ place key + size ≤ index
    · exact painted.kept index beside
    · push Not at beside
      obtain ⟨key, isDone, above, below⟩ := beside
      have within : index - place key < (value key).length := by
        rw [sized]
        omega
      have notCounted : ¬ done' key := by
        intro counted
        have apart := outside key counted
        omega
      have same := (painted.painted key isDone).holds _ within
      have sameOld := (already key isDone notCounted).holds _ within
      rw [Nat.add_sub_cancel' above] at same sameOld
      rw [same, sameOld]

theorem Painted.already {done' : κ → Prop} (painted : Painted old new size place value done)
    (paintedLess : Painted old new size place value done')
    (sized : ∀ key, (value key).length = size)
    (apart : ∀ key other, done key → done' other → key ≠ other →
        Apart size (place key) (place other)) {key : κ} (isDone : done key)
    (notCounted : ¬ done' key) : SegmentAt old (place key) (value key) := by
  have now := painted.painted key isDone
  refine ⟨painted.length ▸ now.inside, fun index within => ?_⟩
  rw [← now.holds index within, paintedLess.kept]
  intro other counted
  rw [sized] at within
  have beside := apart key other isDone counted fun same => notCounted (same ▸ counted)
  unfold Apart at beside
  omega

end Cells

/-! ## Grids -/

/-- The place of a cell in a grid of rows -/
def cellPlace (pitch size : Nat) (point : Nat × Nat) : Nat := point.2 * pitch + point.1 * size

section Grids

variable {pitch size w h : Nat} {point other : Nat × Nat}

theorem cellPlace_in_row (wide : w * size ≤ pitch) (column : point.1 < w) :
    cellPlace pitch size point + size ≤ (point.2 + 1) * pitch := by
  have inRow : (point.1 + 1) * size ≤ pitch := (Nat.mul_le_mul_right size column).trans wide
  rw [cellPlace]
  rw [Nat.add_mul, Nat.one_mul] at inRow ⊢
  omega

theorem cellPlace_inside (wide : w * size ≤ pitch) (column : point.1 < w) (row : point.2 < h) :
    cellPlace pitch size point + size ≤ h * pitch :=
  (cellPlace_in_row wide column).trans (Nat.mul_le_mul_right pitch row)

theorem cellPlace_apart (wide : w * size ≤ pitch) (column : point.1 < w) (columnOther : other.1 < w)
    (distinct : point ≠ other) :
    Apart size (cellPlace pitch size point) (cellPlace pitch size other) := by
  have before {p q : Nat × Nat} (columnP : p.1 < w) (above : p.2 < q.2) :
      cellPlace pitch size p + size ≤ cellPlace pitch size q := by
    have rows : (p.2 + 1) * pitch ≤ q.2 * pitch := Nat.mul_le_mul_right pitch above
    have inRow := cellPlace_in_row wide columnP
    have place : q.2 * pitch ≤ cellPlace pitch size q := Nat.le_add_right _ _
    omega
  rcases Nat.lt_trichotomy point.2 other.2 with above | same | below
  · exact .inl (before column above)
  · rcases Nat.lt_trichotomy point.1 other.1 with left | sameToo | right
    · have step : (point.1 + 1) * size ≤ other.1 * size :=
        Nat.mul_le_mul_right size left
      rw [Nat.add_mul, Nat.one_mul] at step
      left
      rw [cellPlace, cellPlace, same]
      omega
    · exact absurd (Prod.ext sameToo same) distinct
    · have step : (other.1 + 1) * size ≤ point.1 * size :=
        Nat.mul_le_mul_right size right
      rw [Nat.add_mul, Nat.one_mul] at step
      right
      rw [cellPlace, cellPlace, same]
      omega
  · exact .inr (before columnOther below)

end Grids

/-! ## Boxes -/

/-- The points of a box -/
def InBox (left top width height : Nat) (point : Nat × Nat) : Prop :=
  (left ≤ point.1 ∧ point.1 < left + width) ∧ top ≤ point.2 ∧ point.2 < top + height

instance (left top width height : Nat) (point : Nat × Nat) :
    Decidable (InBox left top width height point) :=
  inferInstanceAs (Decidable (_ ∧ _))

theorem Painted.paint_row {β : Type} {old new part : List β} {pitch size w h width y : Nat}
    {value : Nat × Nat → List β} {done : Nat × Nat → Prop}
    (painted : Painted old new size (cellPlace pitch size) value done) (wide : w * size ≤ pitch)
    (fits : h * pitch ≤ old.length) (columns : width ≤ w) (row : y < h) (positive : 0 < size)
    (others : ∀ point, done point → point.1 < w ∧ point.2 < y)
    (sized : ∀ point, (value point).length = size) (length : part.length = width * size)
    (cells : ∀ x < width, (part.drop (x * size)).take size = value (x, y)) :
    Painted old (splice new (y * pitch) part) size (cellPlace pitch size) value
      fun point => done point ∨ InBox 0 y width 1 point := by
  have inRow : width * size ≤ pitch := (Nat.mul_le_mul_right size columns).trans wide
  have inside : (y + 1) * pitch ≤ old.length := (Nat.mul_le_mul_right pitch row).trans fits
  rw [Nat.add_mul, Nat.one_mul] at inside
  refine painted.paint_part (by omega) (fun other isDone => ?_) sized
    (fun point inBox => ?_) fun index within => ?_
  · obtain ⟨column, above⟩ := others other isDone
    have before := cellPlace_in_row wide column
    have rows : (other.2 + 1) * pitch ≤ y * pitch := Nat.mul_le_mul_right pitch above
    omega
  · obtain ⟨x, y'⟩ := point
    have same : y' = y := by
      unfold InBox at inBox
      omega
    have column : x < width := by
      unfold InBox at inBox
      omega
    subst same
    have step : (x + 1) * size ≤ width * size := Nat.mul_le_mul_right size column
    rw [Nat.add_mul, Nat.one_mul, ← length] at step
    exact ⟨x * size, step, rfl, cells x column⟩
  · rw [length] at within
    have column : index / size < width := (Nat.div_lt_iff_lt_mul positive).mpr within
    have split := Nat.div_add_mod index size
    have small := Nat.mod_lt index positive
    rw [Nat.mul_comm] at split
    have inBox : InBox 0 y width 1 (index / size, y) :=
      ⟨⟨Nat.zero_le _, by rwa [Nat.zero_add]⟩, Nat.le_refl _, Nat.lt_succ_self _⟩
    refine ⟨(index / size, y), inBox, ?_⟩
    simp only [cellPlace]
    omega

section Boxes

variable {ε σ τ β : Type} {mem : σ → List β} {memRow : τ → List β} {old : List β}
  {pitch size w h left top width height : Nat} {value : Nat × Nat → List β}

theorem forLoop_row {cell : Nat → σ → Except ε σ} {inv : Nat → σ → Prop} {state : σ} {y : Nat}
    {done : Nat × Nat → Prop} (wide : w * size ≤ pitch) (fits : h * pitch ≤ old.length)
    (columns : left + width ≤ w) (row : y < h) (sized : ∀ point, (value point).length = size)
    (others : ∀ point, done point → point.1 < w ∧ point.2 ≠ y) (start : inv 0 state)
    (painted : Painted old (mem state) size (cellPlace pitch size) value done)
    (turn : ∀ x state, x < width → (mem state).length = old.length → inv x state → ∃ next,
          cell x state = .ok next ∧ mem next =
              splice (mem state) (cellPlace pitch size (left + x, y)) (value (left + x, y)) ∧
              inv (x + 1) next) :
    ∃ final, forLoop cell width 0 state = .ok final ∧ inv width final ∧
          Painted old (mem final) size (cellPlace pitch size) value
            fun point => done point ∨ InBox left y width 1 point := by
  have looped :=
    @forLoop_ok ε σ cell width 0 state (fun x state =>
        inv x state ∧ Painted old (mem state) size (cellPlace pitch size) value
            fun point => done point ∨ InBox left y x 1 point)
      ⟨start, painted.congr fun point => by
        unfold InBox
        constructor
        · rintro (before | ⟨⟨_, _⟩, _⟩)
          · exact before
          · omega
        · exact .inl⟩
      (by
        intro x state _ below ⟨kept, paintedHere⟩
        obtain ⟨next, computed, written, keptNext⟩ :=
          turn x state (by omega) paintedHere.length kept
        refine ⟨next, computed, keptNext, ?_⟩
        rw [written]
        refine (paintedHere.paint sized ?_ ?_).congr fun point => ?_
        · exact (cellPlace_inside wide (by omega) row).trans fits
        · rintro other (before | ⟨⟨_, _⟩, _⟩)
          · obtain ⟨column, apart⟩ := others other before
            exact cellPlace_apart wide column (by omega) fun same => apart (congrArg Prod.snd same)
          · refine cellPlace_apart wide (by omega) (by omega) fun same => ?_
            have column := congrArg Prod.fst same
            omega
        · unfold InBox
          rw [Prod.ext_iff, or_assoc]
          refine or_congr_right ?_
          omega)
  obtain ⟨final, computed, kept, paintedAll⟩ := looped
  rw [Nat.zero_add] at kept paintedAll
  exact ⟨final, computed, kept, paintedAll⟩

theorem forLoop_box {row : Nat → σ → Except ε σ} {cell : Nat → Nat → τ → Except ε τ}
    {inv : Nat → σ → Prop} {invRow : Nat → Nat → τ → Prop} {state : σ} (wide : w * size ≤ pitch)
    (fits : h * pitch ≤ old.length) (columns : left + width ≤ w) (rows : top + height ≤ h)
    (sized : ∀ point, (value point).length = size) (start : inv 0 state)
    (unpainted : mem state = old)
    (enter : ∀ y state, y < height → inv y state → ∃ entered, memRow entered = mem state ∧
            invRow y 0 entered ∧ ∀ left, forLoop (cell y) width 0 entered = .ok left →
                invRow y width left →
                ∃ next, row y state = .ok next ∧ mem next = memRow left ∧ inv (y + 1) next)
    (turn : ∀ y x state, y < height → x < width → (memRow state).length = old.length →
        invRow y x state → ∃ next, cell y x state = .ok next ∧ memRow next =
              splice (memRow state) (cellPlace pitch size (left + x, top + y))
                (value (left + x, top + y)) ∧
              invRow y (x + 1) next) :
    ∃ final, forLoop row height 0 state = .ok final ∧
        Painted old (mem final) size (cellPlace pitch size) value
          (InBox left top width height) := by
  have looped :=
    @forLoop_ok ε σ row height 0 state (fun y state =>
        inv y state ∧ Painted old (mem state) size (cellPlace pitch size) value
            (InBox left top width y))
      ⟨start, unpainted ▸ Painted.start fun point inBox => by
        unfold InBox at inBox
        omega⟩
      (by
        intro y state _ below ⟨kept, painted⟩
        obtain ⟨entered, same, inRow, leave⟩ := enter y state (by omega) kept
        rw [← same] at painted
        obtain ⟨leaving, looped, keptRow, paintedRow⟩ :=
          forLoop_row wide fits columns (y := top + y) (by omega) sized (fun point inBox => by
              unfold InBox at inBox
              omega)
            inRow painted
            fun x state column => turn y x state (by omega) column
        obtain ⟨next, computed, sameNext, keptNext⟩ := leave leaving looped keptRow
        refine ⟨next, computed, keptNext, ?_⟩
        rw [sameNext]
        refine paintedRow.congr fun point => ?_
        unfold InBox
        omega)
  obtain ⟨final, computed, _, painted⟩ := looped
  rw [Nat.zero_add] at painted
  exact ⟨final, computed, painted⟩

end Boxes

end Agar.Lib
