import Agar.Core.DataSource

namespace Agar.Core

open Agar.Lib

/-!
# Seeking in memory

Whether a seek moves the cursor of a memory source as `fseek` would on a file
with the same contents.  It does exactly for the targets before the end of the
data, and never with `AG_SEEK_END`, which subtracts its offset.
-/

/-! ## Conversions -/

theorem sizeT_of_inRange {value : Int} (nonnegative : 0 ≤ value) (bounded : value < 2 ^ 64) :
    sizeT value = value.toNat := by
  rw [sizeT, Int.emod_eq_of_lt nonnegative bounded]

theorem offT_of_inRange {value : Int} (above : -2 ^ 63 ≤ value) (below : value < 2 ^ 63) :
    offT value = value := by
  rw [offT, Int.bmod_def]
  split <;> omega

/-! ## Seeking like a file -/

/-- The source that a memory backend reads and writes. -/
def Backend.coreSource? : Backend → Option CoreSource
  | .file _ => none
  | .core cs => some cs
  | .constCore cs => some cs
  | .autoCore cs => some cs
  | .netSocket _ => none

/-- A memory source whose cursor lies in `0..size`. -/
structure CoreSource.InRange (cs : CoreSource) : Prop where
  allocated : cs.size ≤ cs.data.length
  addressable : cs.size < 2 ^ 63
  cursorNonnegative : 0 ≤ cs.offs
  cursorInside : cs.offs ≤ cs.size

/-- A regular file with the contents and the position of a memory source. -/
def CoreSource.asFile (cs : CoreSource) : FileSource where
  contents := cs.data.take cs.size
  pos := cs.offs.toNat
  faultAfter := none

/-- Where a seek in data of some size aims, from a given cursor. -/
def seekTarget (size cursor : Int) (offs : Int) : SeekMode → Int
  | .seekSet => offs
  | .seekCur => cursor + offs
  | .seekEnd => size + offs

/--
`AG_Seek` succeeds on the source, as `FileSeek` does on a file with the same
contents and position, and both leave the cursor at the same place.
-/
def SeeksLikeFile (ds : DataSource) (cs : CoreSource) (offs : Int) (mode : SeekMode) : Prop :=
  (ds.seek offs mode).1 = 0 ∧ (fileSeek cs.asFile offs mode).1 = 0 ∧ (ds.seek offs mode).2.tell =
      fileTell (fileSeek cs.asFile offs mode).2

variable {cs : CoreSource}

theorem seek_coreSource {ds : DataSource} (memory : ds.backend.coreSource? = some cs) (offs : Int)
    (mode : SeekMode) :
    (ds.seek offs mode).1 = (coreSeek cs offs mode).1 ∧
      (ds.seek offs mode).2.tell = (coreSeek cs offs mode).2.offs ∧ ds.tell = cs.offs := by
  unfold DataSource.seek DataSource.tell
  cases shape : ds.backend with
  | file other | netSocket other => simp [shape, Backend.coreSource?] at memory
  | core source | constCore source | autoCore source =>
    rw [shape] at memory
    obtain rfl : source = cs := Option.some.inj memory
    exact ⟨rfl, rfl, rfl⟩

theorem CoreSource.InRange.length_asFile (inRange : cs.InRange) :
    cs.asFile.contents.length = cs.size := by
  simp [CoreSource.asFile, Nat.min_eq_left inRange.allocated]

variable {mode : SeekMode}

theorem fileSeek_asFile (inRange : cs.InRange) {offs : Int}
    (targetNonnegative : 0 ≤ seekTarget cs.size cs.offs offs mode)
    (targetInside : seekTarget cs.size cs.offs offs mode ≤ cs.size) :
    fileSeek cs.asFile offs mode =
      (0, { cs.asFile with pos := (seekTarget cs.size cs.offs offs mode).toNat }) := by
  have sizeBound := inRange.addressable
  have cursor := Int.toNat_of_nonneg inRange.cursorNonnegative
  cases mode with
  | seekSet =>
    simp only [seekTarget] at targetNonnegative targetInside
    have reached : 0 ≤ offs ∧ offs < 2 ^ 63 := by omega
    simp only [fileSeek, fseek, if_pos reached, seekTarget]
  | seekCur =>
    simp only [seekTarget] at targetNonnegative targetInside
    have position : ((cs.asFile.pos : Nat) : Int) = cs.offs := cursor
    have reached : 0 ≤ cs.offs + offs ∧ cs.offs + offs < 2 ^ 63 := by omega
    simp only [fileSeek, fseek, position, if_pos reached, seekTarget]
  | seekEnd =>
    simp only [seekTarget] at targetNonnegative targetInside
    have reached : 0 ≤ (cs.size : Int) + offs ∧ (cs.size : Int) + offs < 2 ^ 63 := by omega
    simp only [fileSeek, fseek, inRange.length_asFile, if_pos reached, seekTarget]

/-- The position that `CoreSeek` computes, before conversions. -/
def coreSeekTarget (size cursor : Int) (offs : Int) : SeekMode → Int
  | .seekSet => offs
  | .seekCur => cursor + offs
  | .seekEnd => size - offs

theorem coreSeek_eq (inRange : cs.InRange) {offs : Int} (offsAbove : -2 ^ 63 ≤ offs)
    (offsBelow : offs < 2 ^ 63) :
    coreSeek cs offs mode = if 0 ≤ coreSeekTarget cs.size cs.offs offs mode ∧
          coreSeekTarget cs.size cs.offs offs mode < cs.size then
        (0, { cs with offs := coreSeekTarget cs.size cs.offs offs mode })
      else
        (-1, cs) := by
  obtain ⟨_, sizeBound, cursorAbove, cursorInside⟩ := inRange
  -- A position that wraps around is negative, and so refused either way.
  have converted {target : Int} (above : -2 ^ 63 ≤ target) (below : target < 2 ^ 64) :
      (if offT target < 0 ∨ sizeT (offT target) ≥ cs.size then
          ((-1 : Int), cs)
        else (0, { cs with offs := offT target })) =
        if 0 ≤ target ∧ target < cs.size then (0, { cs with offs := target })
        else
          (-1, cs) := by
    by_cases inside : 0 ≤ target ∧ target < cs.size
    · have sameOffs : offT target = target :=
        offT_of_inRange above (by omega)
      have sameSize : sizeT target = target.toNat := sizeT_of_inRange inside.1 below
      rw [if_pos inside, sameOffs, sameSize, if_neg (by omega)]
    · rw [if_neg inside, if_pos]
      simp only [sizeT, offT, Int.bmod_def]
      split <;> omega
  cases mode with
  | seekSet =>
    have sameOffs : offT offs = offs := offT_of_inRange offsAbove offsBelow
    have taken := converted offsAbove (by omega)
    rw [sameOffs] at taken
    exact taken
  | seekCur =>
    by_cases small : -2 ^ 63 ≤ cs.offs + offs
    · exact converted small (by omega)
    · omega
  | seekEnd =>
    have above : -2 ^ 63 ≤ (cs.size : Int) - offs := by omega
    exact converted above (by omega)

theorem coreSeek_inside (inRange : cs.InRange) {offs : Int}
    (targetNonnegative : 0 ≤ seekTarget cs.size cs.offs offs mode)
    (targetInside : seekTarget cs.size cs.offs offs mode ≤ cs.size) :
    coreSeek cs offs mode = if mode ≠ .seekEnd ∧ seekTarget cs.size cs.offs offs mode < cs.size then
        (0, { cs with offs := seekTarget cs.size cs.offs offs mode })
      else
        (-1, cs) := by
  have sizeBound := inRange.addressable
  have cursorAbove := inRange.cursorNonnegative
  have cursorInside := inRange.cursorInside
  cases mode with
  | seekSet =>
    simp only [seekTarget] at targetNonnegative targetInside
    rw [coreSeek_eq inRange (by omega) (by omega)]
    simp [seekTarget, coreSeekTarget, targetNonnegative]
  | seekCur =>
    simp only [seekTarget] at targetNonnegative targetInside
    rw [coreSeek_eq inRange (by omega) (by omega)]
    simp [seekTarget, coreSeekTarget, targetNonnegative]
  | seekEnd =>
    -- The offset is not positive, and `size - offs` is not below `size`.
    simp only [seekTarget] at targetNonnegative targetInside
    have beyond : ¬ (0 ≤ coreSeekTarget cs.size cs.offs offs .seekEnd ∧
          coreSeekTarget cs.size cs.offs offs .seekEnd < cs.size) := by
      simp only [coreSeekTarget]
      omega
    rw [coreSeek_eq inRange (by omega) (by omega), if_neg beyond,
      if_neg fun reached => reached.1 rfl]

/--
A memory source seeks like a file exactly to the targets before the end of
the data, and not with `AG_SEEK_END`.  In particular seeking to the cursor
succeeds and changes nothing exactly when the cursor is not at the end.
-/
theorem seek_like_file_iff {ds : DataSource} {cs : CoreSource}
    (memory : ds.backend.coreSource? = some cs) (inRange : cs.InRange) {offs : Int}
    {mode : SeekMode} (targetNonnegative : 0 ≤ seekTarget cs.size cs.offs offs mode)
    (targetInside : seekTarget cs.size cs.offs offs mode ≤ cs.size) :
    (SeeksLikeFile ds cs offs mode ↔ mode ≠ .seekEnd ∧
        seekTarget cs.size cs.offs offs mode < cs.size) ∧
    (((ds.seek ds.tell .seekSet).1 = 0 ∧ (ds.seek ds.tell .seekSet).2.tell = ds.tell) ↔
      cs.offs < cs.size) := by
  obtain ⟨status, cursor, told⟩ := seek_coreSource memory offs mode
  have seeks := coreSeek_inside inRange targetNonnegative targetInside
  have fileSeeks := fileSeek_asFile inRange targetNonnegative targetInside
  constructor
  · rw [SeeksLikeFile, status, cursor, fileSeeks, seeks]
    split
    case isTrue reached =>
      refine iff_of_true ⟨rfl, rfl, ?_⟩ reached
      exact (Int.toNat_of_nonneg targetNonnegative).symm
    case isFalse refused => exact iff_of_false (fun like => by cases like.1) refused
  · obtain ⟨hereStatus, hereCursor, _⟩ :=
      seek_coreSource memory ds.tell .seekSet
    have hereSeeks : coreSeek cs cs.offs .seekSet =
          if SeekMode.seekSet ≠ .seekEnd ∧ cs.offs < cs.size then (0, cs)
          else
            (-1, cs) :=
      coreSeek_inside inRange inRange.cursorNonnegative inRange.cursorInside
    rw [hereStatus, hereCursor, told, hereSeeks]
    by_cases before : cs.offs < cs.size
    · rw [if_pos ⟨by simp, before⟩]
      exact iff_of_true ⟨rfl, rfl⟩ before
    · rw [if_neg fun reached => before reached.2]
      exact iff_of_false (fun succeeds => by cases succeeds.1) before

theorem seek_like_file_iff_second_byte : SeeksLikeFile
      (.openCore .zeroed [7, 8, 9])
      { data := [7, 8, 9], size := 3, offs := 0 } 1 .seekSet := by
  have memory : (DataSource.openCore .zeroed [7, 8, 9]).backend.coreSource? =
        some { data := [7, 8, 9], size := 3, offs := 0 } :=
    rfl
  have inRange : CoreSource.InRange { data := [7, 8, 9], size := 3, offs := 0 } :=
    { allocated := by decide
      addressable := by decide
      cursorNonnegative := by decide
      cursorInside := by decide }
  exact (seek_like_file_iff memory inRange (by decide) (by decide)).1.mpr ⟨by decide, by decide⟩

theorem seek_like_file_fails_at_end : ¬ SeeksLikeFile
        (.openCore .zeroed [7, 8, 9])
        { data := [7, 8, 9], size := 3, offs := 0 } 3 .seekSet ∧
      ¬ SeeksLikeFile (.openCore .zeroed [7, 8, 9])
          { data := [7, 8, 9], size := 3, offs := 0 } (-1) .seekEnd ∧
      ¬ SeeksLikeFile (.openAutoCore .zeroed)
          { data := [], size := 0, offs := 0 } 0 .seekSet := by
  refine ⟨?_, ?_, ?_⟩
  all_goals
    rintro ⟨succeeds, _⟩
    revert succeeds
    decide

end Agar.Core
