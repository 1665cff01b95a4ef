import Agar.Gui.XcfRuns

namespace Agar.Gui.Xcf

open Agar.Lib
open Agar.Core

/-!
# Levels of tiles

`ConvertLevel` puts tiles of 64 by 64 pixels next to each other, in rows as wide
as the level.  The size of a level comes from the file, as that of the surface
does, and one is not compared with the other.
-/

/-! ## Reading tiles -/

/-- What is read and allocated, in the turn of each tile -/
structure TileSource where
  read : Nat → UInt32 → Nat → Option (List UInt8)
  sized : ∀ turn offset len bytes, read turn offset len = some bytes → bytes.length = len
  memory : Nat → Fresh

/-- `XCF_COMPRESSION_NONE` -/
def compressionNone : UInt8 := 0

/-- `XCF_COMPRESSION_RLE` -/
def compressionRle : UInt8 := 1

/-- `struct xcf_hierarchy`, with a number of bytes that was checked -/
structure Hierarchy where
  bpp : Nat
  checked : bpp = 3 ∨ bpp = 4

/-- `struct xcf_level` -/
structure Level where
  w : UInt32
  h : UInt32
  tileOffsets : List UInt32

/-- `ReadTile`, from bytes that were read; it may give no tile -/
def readTile (compression : UInt8) (fresh : Fresh) (read : Option (List UInt8))
    (Bpp x y : Nat) : Except Stop (Option (List UInt8)) :=
  if compression = compressionNone then return read
  else if compression = compressionRle then
    match read with
    | none => return none
    | some bytes => readTileRLE fresh bytes Bpp x y
  else return none

/-! ## Converting tiles -/

/-- Where the conversion of a tile is: `p`, `dst`, the pixels, and `*aflags` -/
structure Conversion where
  p : Nat
  dst : Int
  pixels : List UInt8
  aflags : UInt8

/-- `XCF_ALPHA_TRANSPARENT`, `XCF_ALPHA_ALPHA` or `XCF_ALPHA_OPAQUE` -/
def alphaFlag (a : UInt8) : UInt8 :=
  if a = 0 then 1 else if a = 255 then 4 else 2

/-- The colour at a place in a tile -/
def tileColor (bpp : Nat) (tile : List UInt8) (p : Nat) : Except Stop Color :=
  match bpp, tile.drop p with
  | 4, r :: g :: b :: a :: _ => .ok ⟨r, g, b, a⟩
  | 4, _ => .error .undefined
  | 3, b :: g :: r :: _ => .ok ⟨r, g, b, 255⟩
  | 3, _ => .error .undefined
  | _, _ => .ok ⟨0, 0, 0, 255⟩

/-- A pixel of a tile -/
def convertPixel (su : Surface) (bpp : Nat) (tile : List UInt8)
    (state : Conversion) : Except Stop Conversion := do
  let C ← tileColor bpp tile state.p
  let pixels ← putPixel su.format state.pixels state.dst (su.format.mapColorRGBA C)
  return {
    p := state.p + bpp
    dst := state.dst + su.depth
    pixels
    aflags := state.aflags ||| alphaFlag C.a }

/-- A row of a tile -/
def convertRow (su : Surface) (bpp : Nat) (tile : List UInt8) (tx y : Int) (ox : Nat)
    (state : Conversion) : Except Stop Conversion := do
  let column ← intResult (tx * su.depth)
  let dst := uintResult (y * su.pitch.toNat) + column
  forLoop (fun _ => convertPixel su bpp tile) ox 0 { state with dst }

/-- A tile -/
def convertTile (su : Surface) (bpp : Nat) (tile : List UInt8) (tx ty : Int) (ox oy : Nat)
    (pixels : List UInt8) (aflags : UInt8) : Except Stop (List UInt8 × UInt8) := do
  let state ← forLoop (fun row => convertRow su bpp tile tx (ty + row) ox) oy 0
      ⟨0, 0, pixels, aflags⟩
  return (state.pixels, state.aflags)

/-- The size of a tile: `(t+64 > (int)size) ? (size % 64) : 64` -/
def tileSize (t : Int) (size : UInt32) : Nat :=
  if t + 64 > CType.int.wrap size.toNat then size.toNat % 64 else 64

/-- The bytes that are read for a tile, up to the next one if there is one -/
def tileLength (offset next : UInt32) (ox oy : Nat) : Nat :=
  if next ≠ 0 then (next - offset).toNat else ox * oy * 6

/-- The place of the next tile: `tx += 64`, and behind a row `ty += 64` -/
def nextPlace (level : Level) (tx ty : Int) : Int × Int :=
  if tx + 64 ≥ CType.int.wrap level.w.toNat then (0, ty + 64) else (tx + 64, ty)

/-- The tiles of a level from a place on -/
def convertTiles (source : TileSource) (xcfoffs : UInt32) (hier : Hierarchy) (compression : UInt8)
    (level : Level) (su : Surface) :
    List UInt32 → Int → Int → List UInt8 → UInt8 → Except Stop (List UInt8 × UInt8)
  | [], _, _, pixels, aflags => return (pixels, aflags)
  | offset :: rest, tx, ty, pixels, aflags => do
      let _ ← intResult (tx + 64)
      let _ ← intResult (ty + 64)
      let ox := tileSize tx level.w
      let oy := tileSize ty level.h
      let read :=
        source.read rest.length (xcfoffs + offset) (tileLength offset (rest.headD 0) ox oy)
      match ← readTile compression (source.memory rest.length) read hier.bpp ox oy with
      | none => convertTiles source xcfoffs hier compression level su rest tx ty pixels aflags
      | some tile => do
          let (pixels, aflags) ← convertTile su hier.bpp tile tx ty ox oy pixels aflags
          let (tx, ty) := nextPlace level tx ty
          if ty ≥ CType.int.wrap level.h.toNat then return (pixels, aflags)
          else convertTiles source xcfoffs hier compression level su rest tx ty pixels aflags

/-- `ConvertLevel`: the surface, and the flags that are added -/
def convertLevel (source : TileSource) (xcfoffs : UInt32) (hier : Hierarchy) (compression : UInt8)
    (level : Level) (su : Surface) (aflags : UInt8) : Except Stop (Surface × UInt8) := do
  let (pixels, aflags) ← convertTiles source xcfoffs hier compression level su level.tileOffsets 0 0
      su.pixels aflags
  return ({ su with pixels }, aflags)

/-! ## Tiles that fit -/

/-- A tile of the file: its place, its size, and what is read for it -/
structure Visit where
  tx : Int
  ty : Int
  ox : Nat
  oy : Nat
  read : Option (List UInt8)

/-- Whether a tile is left out: its bytes, its encoding or its memory is missing. -/
def leftOut (compression : UInt8) (fresh : Fresh) (read : Option (List UInt8)) : Bool :=
  read.isNone || !(compression = compressionNone || (compression = compressionRle && fresh.isSome))

/--
The tiles of the file that are gone through, each at its place in the rows.  A
tile that is left out leaves its place to the next one.
-/
def visits (source : TileSource) (xcfoffs : UInt32) (compression : UInt8)
    (level : Level) : List UInt32 → Int → Int → List Visit
  | [], _, _ => []
  | offset :: rest, tx, ty =>
    let ox := tileSize tx level.w
    let oy := tileSize ty level.h
    let read := source.read rest.length (xcfoffs + offset) (tileLength offset (rest.headD 0) ox oy)
    if leftOut compression (source.memory rest.length) read then
      ⟨tx, ty, ox, oy, none⟩ :: visits source xcfoffs compression level rest tx ty
    else
      ⟨tx, ty, ox, oy, read⟩ :: if (nextPlace level tx ty).2 ≥ CType.int.wrap level.h.toNat then
          []
        else
          visits source xcfoffs compression level rest (nextPlace level tx ty).1
            (nextPlace level tx ty).2

/-- The bytes of a tile have all its pixels. -/
def HasPixels (compression : UInt8) (bpp ox oy : Nat) (bytes : List UInt8) : Prop :=
  if compression = compressionNone then ox * oy * bpp ≤ bytes.length
  else ∃ data, TileEncodes bytes bpp ox oy data

/-- The rows of a tile end in the pixels of a surface. -/
def RowsInside (su : Surface) (tx ty : Int) (ox oy : Nat) : Prop :=
  ∀ row < oy, CType.int.Holds (tx * su.depth) ∧ (0 < ox →
        uintResult ((ty + row) * su.pitch.toNat) + tx * su.depth +
            (ox * su.depth : Nat) ≤ su.pixels.length)

/--
The place of a tile has numbers that are `int`s; its bytes have all its pixels,
and its rows lie in the surface, unless it is left out.
-/
structure VisitFits (hier : Hierarchy) (compression : UInt8) (su : Surface)
    (visit : Visit) : Prop where
  right : CType.int.Holds (visit.tx + 64)
  bottom : CType.int.Holds (visit.ty + 64)
  pixels : ∀ bytes, visit.read = some bytes → HasPixels compression hier.bpp visit.ox visit.oy bytes
  rows : ∀ bytes, visit.read = some bytes → RowsInside su visit.tx visit.ty visit.ox visit.oy

/-! ## Pixels and rows -/

section Converting

variable {su : Surface} {bpp ox oy : Nat} {tile pixels : List UInt8} {tx ty : Int}

theorem tileColor_ok_iff {p : Nat} (checked : bpp = 3 ∨ bpp = 4) :
    (∃ C, tileColor bpp tile p = .ok C) ↔ p + bpp ≤ tile.length := by
  have length := @List.length_drop _ p tile
  unfold tileColor
  generalize tile.drop p = left at length ⊢
  rcases checked with rfl | rfl
  · rcases left with _ | ⟨b, _ | ⟨g, _ | ⟨r, rest⟩⟩⟩ <;>
      simp only [List.length_cons, List.length_nil] at length <;> simp <;> omega
  · rcases left with _ | ⟨r, _ | ⟨g, _ | ⟨b, _ | ⟨a, rest⟩⟩⟩⟩ <;>
      simp only [List.length_cons, List.length_nil] at length <;> simp <;> omega

/-- What holds while a row is gone through -/
structure InRow (su : Surface) (bpp p size : Nat) (dst : Int) (column : Nat)
    (state : Conversion) : Prop where
  p : state.p = p + column * bpp
  dst : state.dst = dst + (column * su.depth : Nat)
  length : state.pixels.length = size

theorem convertPixel_ok_iff (sound : su.Sound) (checked : bpp = 3 ∨ bpp = 4) {p size column : Nat}
    {dst : Int} {state : Conversion} (nonneg : 0 ≤ dst)
    (inRow : InRow su bpp p size dst column state) :
    ((∃ next, convertPixel su bpp tile state = .ok next) ↔ p + (column + 1) * bpp ≤ tile.length ∧
          dst + ((column + 1) * su.depth : Nat) ≤ size) ∧
      ∀ next, convertPixel su bpp tile state = .ok next →
        InRow su bpp p size dst (column + 1) next := by
  obtain ⟨isP, isDst, length⟩ := inRow
  have step (unit : Nat) : (column + 1) * unit = column * unit + unit := by ring
  have reads := @tileColor_ok_iff bpp tile state.p checked
  rw [isP] at reads
  have writes (c : UInt32) (new : List UInt8) :
      putPixel su.format state.pixels state.dst c = .ok new ↔
        dst + ((column + 1) * su.depth : Nat) ≤ size ∧
          splice state.pixels state.dst.toNat (pixelBytes su.depth c) = new := by
    rw [putPixel_eq_ok, sound.pixelSize, length, isDst, step]
    refine and_congr_left fun _ => ?_
    omega
  unfold convertPixel
  simp only [bind_eq_ok]
  refine ⟨⟨?_, ?_⟩, ?_⟩
  · rintro ⟨next, C, hasColor, new, put, _⟩
    rw [isP] at hasColor
    have inside := reads.mp ⟨C, hasColor⟩
    exact ⟨by rw [step]; omega, ((writes _ _).mp put).1⟩
  · rintro ⟨inside, room⟩
    obtain ⟨C, hasColor⟩ := reads.mpr (by rw [step] at inside; omega)
    rw [← isP] at hasColor
    exact ⟨_, C, hasColor, _, (writes _ _).mpr ⟨room, rfl⟩, rfl⟩
  · rintro next ⟨C, _, new, put, isNext⟩
    cases isNext
    obtain ⟨room, rfl⟩ := (writes _ _).mp put
    refine ⟨?_, ?_, ?_⟩
    · rw [isP, step, Nat.add_assoc]
    · rw [isDst, step]
      push_cast
      ring
    · rw [length_splice, length]
      rw [length_pixelBytes, length]
      rw [step] at room
      omega

theorem convertRow_ok_iff (sound : su.Sound) (checked : bpp = 3 ∨ bpp = 4) {p size : Nat} {y : Int}
    {state : Conversion} (nonneg : 0 ≤ tx) (isP : state.p = p)
    (length : state.pixels.length = size) :
    ((∃ next, convertRow su bpp tile tx y ox state = .ok next) ↔ CType.int.Holds (tx * su.depth) ∧
          (0 < ox → p + ox * bpp ≤ tile.length ∧ uintResult (y * su.pitch.toNat) + tx * su.depth +
                  (ox * su.depth : Nat) ≤ size)) ∧
      ∀ next, convertRow su bpp tile tx y ox state = .ok next →
        next.p = p + ox * bpp ∧ next.pixels.length = size := by
  have dstNonneg : 0 ≤ uintResult (y * su.pitch.toNat) + tx * su.depth := by
    have rows := Int.emod_nonneg (y * su.pitch.toNat) (by norm_num : (2 ^ 32 : Int) ≠ 0)
    have columns : 0 ≤ tx * su.depth := mul_nonneg nonneg (Int.natCast_nonneg _)
    unfold uintResult
    omega
  generalize isDst : uintResult (y * su.pitch.toNat) + tx * su.depth = dst at dstNonneg
  have start : InRow su bpp p size dst 0 { state with dst } := by
    refine ⟨?_, ?_, length⟩
    · rw [Nat.zero_mul, Nat.add_zero]
      exact isP
    · rw [Nat.zero_mul]
      exact (Int.add_zero _).symm
  have looped :=
    @forLoop_ok_iff _ _ (fun _ => convertPixel su bpp tile) ox 0 { state with dst }
      (InRow su bpp p size dst)
      (fun column =>
        p + (column + 1) * bpp ≤ tile.length ∧ dst + ((column + 1) * su.depth : Nat) ≤ size)
      start
      fun column state _ _ inRow => convertPixel_ok_iff sound checked dstNonneg inRow
  have kept {final : Conversion}
      (computed : forLoop (fun _ => convertPixel su bpp tile) ox 0 { state with dst } = .ok final) :
      InRow su bpp p size dst ox final := by
    have reached :=
      @forLoop_keeps _ _ (fun _ => convertPixel su bpp tile) ox 0 _ final
        (InRow su bpp p size dst) computed start
        fun column state next _ _ inRow computed =>
          (convertPixel_ok_iff sound checked dstNonneg inRow).2 next computed
    rwa [Nat.zero_add] at reached
  have unfolded {next : Conversion} :
      convertRow su bpp tile tx y ox state = .ok next ↔ CType.int.Holds (tx * su.depth) ∧
          forLoop (fun _ => convertPixel su bpp tile) ox 0 { state with dst } = .ok next := by
    unfold convertRow
    rw [bind_eq_ok, ← isDst]
    constructor
    · rintro ⟨column, columnHeld, rest⟩
      obtain ⟨held, rfl⟩ := intResult_eq_ok.mp columnHeld
      exact ⟨held, rest⟩
    · rintro ⟨held, rest⟩
      exact ⟨_, intResult_of_holds held, rest⟩
  refine ⟨?_, fun next computed => ?_⟩
  · simp only [unfolded, exists_and_left, looped]
    refine and_congr_right fun _ => ⟨fun all nonempty => ?_, fun last column _ below => ?_⟩
    · have atLast := all (ox - 1) (Nat.zero_le _) (by omega)
      rwa [Nat.sub_add_cancel nonempty] at atLast
    · obtain ⟨inside, room⟩ := last (by omega)
      have bytes : (column + 1) * bpp ≤ ox * bpp := Nat.mul_le_mul_right _ (by omega)
      have cells : (column + 1) * su.depth ≤ ox * su.depth := Nat.mul_le_mul_right _ (by omega)
      omega
  · have inRow := kept (unfolded.mp computed).2
    exact ⟨inRow.p, inRow.length⟩

theorem convertTile_ok_iff (sound : su.Sound) (checked : bpp = 3 ∨ bpp = 4) {aflags : UInt8}
    (nonneg : 0 ≤ tx) (length : pixels.length = su.pixels.length) :
    ((∃ result, convertTile su bpp tile tx ty ox oy pixels aflags = .ok result) ↔
        ox * oy * bpp ≤ tile.length ∧ RowsInside su tx ty ox oy) ∧
      ∀ result, convertTile su bpp tile tx ty ox oy pixels aflags = .ok result →
        result.1.length = su.pixels.length := by
  have start : (⟨0, 0, pixels, aflags⟩ : Conversion).p = 0 * (ox * bpp) ∧
        (⟨0, 0, pixels, aflags⟩ : Conversion).pixels.length = su.pixels.length :=
    ⟨(Nat.zero_mul _).symm, length⟩
  have step (row : Nat) : (row + 1) * (ox * bpp) = row * (ox * bpp) + ox * bpp := by ring
  have turn (row : Nat) (state : Conversion)
      (kept : state.p = row * (ox * bpp) ∧ state.pixels.length = su.pixels.length) :
      ((∃ next, convertRow su bpp tile tx (ty + row) ox state = .ok next) ↔
          CType.int.Holds (tx * su.depth) ∧ (0 < ox → (row + 1) * (ox * bpp) ≤ tile.length ∧
                uintResult ((ty + row) * su.pitch.toNat) + tx * su.depth +
                    (ox * su.depth : Nat) ≤ su.pixels.length)) ∧
        ∀ next, convertRow su bpp tile tx (ty + row) ox state = .ok next →
          next.p = (row + 1) * (ox * bpp) ∧ next.pixels.length = su.pixels.length := by
    rw [step]
    exact convertRow_ok_iff sound checked nonneg kept.1 kept.2
  have looped :=
    @forLoop_ok_iff _ _ (fun row => convertRow su bpp tile tx (ty + (row : Nat)) ox)
      oy 0 ⟨0, 0, pixels, aflags⟩
      (fun row state => state.p = row * (ox * bpp) ∧ state.pixels.length = su.pixels.length)
      _ start fun row state _ _ kept => turn row state kept
  have unfolded {result : List UInt8 × UInt8} :
      convertTile su bpp tile tx ty ox oy pixels aflags = .ok result ↔ ∃ state,
          forLoop (fun row => convertRow su bpp tile tx (ty + (row : Nat)) ox) oy 0
              ⟨0, 0, pixels, aflags⟩ = .ok state ∧
            (state.pixels, state.aflags) = result := by
    unfold convertTile
    rw [bind_eq_ok]
    refine exists_congr fun state => and_congr_right fun _ => ?_
    exact ⟨Except.ok.inj, congrArg Except.ok⟩
  refine ⟨?_, fun result computed => ?_⟩
  · have both : (∃ result, convertTile su bpp tile tx ty ox oy pixels aflags = .ok result) ↔
          ∃ state, forLoop (fun row => convertRow su bpp tile tx (ty + (row : Nat)) ox) oy 0
              ⟨0, 0, pixels, aflags⟩ = .ok state := by
      simp only [unfolded]
      constructor
      · rintro ⟨_, state, computed, _⟩
        exact ⟨state, computed⟩
      · rintro ⟨state, computed⟩
        exact ⟨_, state, computed, rfl⟩
    rw [both, looped]
    constructor
    · intro all
      refine ⟨?_, fun row below => ?_⟩
      · rcases Nat.eq_zero_or_pos ox with rfl | nonempty
        · rw [Nat.zero_mul, Nat.zero_mul]
          exact Nat.zero_le _
        rcases Nat.eq_zero_or_pos oy with rfl | high
        · rw [Nat.mul_zero, Nat.zero_mul]
          exact Nat.zero_le _
        have last := ((all (oy - 1) (Nat.zero_le _) (by omega)).2 nonempty).1
        rw [Nat.sub_add_cancel high] at last
        calc
          ox * oy * bpp = oy * (ox * bpp) := by ring
          _ ≤ tile.length := last
      · obtain ⟨held, room⟩ := all row (Nat.zero_le _) (by omega)
        exact ⟨held, fun nonempty => (room nonempty).2⟩
    · rintro ⟨inside, rows⟩ row _ below
      rw [Nat.zero_add] at below
      obtain ⟨held, room⟩ := rows row below
      refine ⟨held, fun nonempty => ⟨?_, room nonempty⟩⟩
      calc
        (row + 1) * (ox * bpp) ≤ oy * (ox * bpp) := Nat.mul_le_mul_right _ below
        _ = ox * oy * bpp := by ring
        _ ≤ tile.length := inside
  · obtain ⟨state, loopedTo, rfl⟩ := unfolded.mp computed
    have reached :=
      @forLoop_keeps _ _ (fun row => convertRow su bpp tile tx (ty + (row : Nat)) ox) oy 0 _ state
        (fun row state => state.p = row * (ox * bpp) ∧ state.pixels.length = su.pixels.length)
        loopedTo start
        fun row state next _ _ kept computed => (turn row state kept).2 next computed
    exact reached.2

end Converting

/-! ## Levels -/

section Levels

variable {compression : UInt8} {fresh : Fresh} {bpp ox oy : Nat} {bytes : List UInt8}

theorem tileSize_le (t : Int) (size : UInt32) : tileSize t size ≤ 64 := by
  unfold tileSize
  split
  · exact (Nat.mod_lt _ (by decide)).le
  · exact Nat.le_refl _

theorem tileSized (checked : bpp = 3 ∨ bpp = 4) (narrow : ox ≤ 64) (low : oy ≤ 64) :
    TileSized bpp ox oy := by
  have pixels : ox * oy ≤ 64 * 64 := Nat.mul_le_mul narrow low
  have bytes : ox * oy * bpp ≤ 64 * 64 * 4 := Nat.mul_le_mul pixels (by omega)
  exact ⟨int_holds_iff.mpr (by omega), int_holds_iff.mpr (by omega)⟩

theorem readTile_of_leftOut {read : Option (List UInt8)} (sized : TileSized bpp ox oy)
    (left : leftOut compression fresh read = true) :
    readTile compression fresh read bpp ox oy = .ok none := by
  unfold leftOut at left
  unfold readTile
  cases read with
  | none => split_ifs <;> rfl
  | some bytes =>
    simp only [Option.isNone_some, Bool.false_or, Bool.not_eq_true',
      Bool.or_eq_false_iff, Bool.and_eq_false_iff,
      decide_eq_false_iff_not] at left
    obtain ⟨notNone, noMemory⟩ := left
    rw [if_neg notNone]
    split
    case isTrue isRle =>
      have isNone : fresh = none := by
        rcases noMemory with notRle | isNone
        · exact absurd isRle notRle
        · exact Option.isNone_iff_eq_none.mp (Option.isSome_eq_false_iff.mp isNone)
      have pixels : intResult ((ox : Int) * oy) = .ok (ox * oy : Nat) := by
        rw [← Nat.cast_mul]
        exact intResult_of_holds sized.pixels
      have room : intResult (((ox * oy : Nat) : Int) * bpp) = .ok (ox * oy * bpp : Nat) := by
        rw [← Nat.cast_mul]
        exact intResult_of_holds sized.bytes
      simp only [readTileRLE, pixels, room, ok_bind, isNone]
      rfl
    case isFalse => rfl

theorem readTile_eq_ok (sized : TileSized bpp ox oy)
    (given : leftOut compression fresh (some bytes) = false) {result : Option (List UInt8)} :
    readTile compression fresh (some bytes) bpp ox oy = .ok result ↔ ∃ tile, result = some tile ∧
          if compression = compressionNone then tile = bytes
          else
            TileEncodes bytes bpp ox oy tile := by
  unfold leftOut at given
  unfold readTile
  simp only [Option.isNone_some, Bool.false_or, Bool.not_eq_false',
    Bool.or_eq_true, Bool.and_eq_true, decide_eq_true_eq] at given
  by_cases isNone : compression = compressionNone
  · simp only [if_pos isNone]
    constructor
    · rintro ⟨⟩
      exact ⟨bytes, rfl, rfl⟩
    · rintro ⟨_, rfl, rfl⟩
      rfl
  · obtain ⟨isRle, isSome⟩ := given.resolve_left isNone
    obtain ⟨fresh, rfl⟩ := Option.isSome_iff_exists.mp isSome
    simp only [if_neg isNone, if_pos isRle]
    constructor
    · intro decoded
      cases result with
      | none =>
        unfold readTileRLE at decoded
        simp only [bind_eq_ok] at decoded
        obtain ⟨_, _, _, _, _, _, isNone⟩ := decoded
        cases isNone
      | some tile => exact ⟨tile, rfl, (readTileRLE_eq_ok sized).mp decoded⟩
    · rintro ⟨tile, rfl, encodes⟩
      exact (readTileRLE_eq_ok sized).mpr encodes

theorem hasPixels_iff (sized : TileSized bpp ox oy)
    (given : leftOut compression fresh (some bytes) = false) :
    HasPixels compression bpp ox oy bytes ↔ ∃ tile,
        readTile compression fresh (some bytes) bpp ox oy = .ok (some tile) ∧
          ox * oy * bpp ≤ tile.length := by
  simp only [readTile_eq_ok sized given, Option.some.injEq]
  unfold HasPixels
  by_cases isNone : compression = compressionNone
  · simp only [if_pos isNone]
    constructor
    · intro inside
      exact ⟨bytes, ⟨bytes, rfl, rfl⟩, inside⟩
    · rintro ⟨_, ⟨_, rfl, rfl⟩, inside⟩
      exact inside
  · simp only [if_neg isNone]
    constructor
    · rintro ⟨data, encodes⟩
      exact ⟨data, ⟨data, rfl, encodes⟩, encodes.1.ge⟩
    · rintro ⟨data, ⟨_, rfl, encodes⟩, _⟩
      exact ⟨data, encodes⟩

section Tiles

variable {source : TileSource} {xcfoffs : UInt32} {hier : Hierarchy} {level : Level} {su : Surface}

theorem convertTiles_ok_iff (sound : su.Sound) {offsets : List UInt32} {tx ty : Int}
    {pixels : List UInt8} {aflags : UInt8} (nonneg : 0 ≤ tx)
    (length : pixels.length = su.pixels.length) :
    (∃ result, convertTiles source xcfoffs hier compression level su offsets tx ty
          pixels aflags = .ok result) ↔
      ∀ visit ∈ visits source xcfoffs compression level offsets tx ty,
        VisitFits hier compression su visit := by
  induction offsets generalizing tx ty pixels aflags with
  | nil => exact iff_of_true ⟨_, rfl⟩ (List.forall_mem_nil _)
  | cons offset rest ih =>
    have sized : TileSized hier.bpp (tileSize tx level.w) (tileSize ty level.h) :=
      tileSized hier.checked (tileSize_le _ _) (tileSize_le _ _)
    have nonnegNext : 0 ≤ (nextPlace level tx ty).1 := by
      unfold nextPlace
      split
      · exact Int.le_refl _
      · change 0 ≤ tx + 64
        omega
    rw [convertTiles, visits]
    simp only [bind_eq_ok, intResult_eq_ok]
    generalize source.read rest.length (xcfoffs + offset)
      (tileLength offset (rest.headD 0) (tileSize tx level.w) (tileSize ty level.h)) = read
    cases left : leftOut compression (source.memory rest.length) read with
    | true =>
      simp only [readTile_of_leftOut sized left, if_true, List.forall_mem_cons, Except.ok.injEq]
      have goesOn := @ih tx ty pixels aflags nonneg length
      rw [← goesOn]
      constructor
      · rintro ⟨result, _, ⟨right, _⟩, _, ⟨bottom, _⟩, _, rfl, computed⟩
        refine ⟨⟨right, bottom, ?_, ?_⟩, result, computed⟩
        · rintro _ ⟨⟩
        · rintro _ ⟨⟩
      · rintro ⟨⟨right, bottom, _, _⟩, result, computed⟩
        exact ⟨result, _, ⟨right, rfl⟩, _, ⟨bottom, rfl⟩, _, rfl, computed⟩
    | false =>
      obtain ⟨bytes, rfl⟩ : ∃ bytes, read = some bytes := by
        cases read with
        | none => cases left
        | some bytes => exact ⟨bytes, rfl⟩
      have decodes := @hasPixels_iff _ _ hier.bpp _ _ bytes sized left
      have converts (tile : List UInt8) :=
        @convertTile_ok_iff su hier.bpp (tileSize tx level.w)
          (tileSize ty level.h) tile pixels tx ty sound hier.checked aflags
          nonneg length
      simp only [Bool.false_eq_true, if_false, List.forall_mem_cons]
      constructor
      · rintro ⟨result, _, ⟨right, _⟩, _, ⟨bottom, _⟩, given, read, computed⟩
        obtain ⟨tile, rfl, _⟩ := (readTile_eq_ok sized left).mp read
        simp only [bind_eq_ok] at computed
        obtain ⟨⟨pixels', aflags'⟩, converted, more⟩ := computed
        obtain ⟨inside, rows⟩ := (converts tile).1.mp ⟨_, converted⟩
        have length' := (converts tile).2 _ converted
        refine ⟨⟨right, bottom, ?_, ?_⟩, ?_⟩
        · rintro _ ⟨⟩
          exact decodes.mpr ⟨tile, read, inside⟩
        · rintro _ ⟨⟩
          exact rows
        · split at more
          case isTrue last =>
            rw [if_pos last]
            exact List.forall_mem_nil _
          case isFalse notLast =>
            rw [if_neg notLast]
            exact (ih nonnegNext length').mp ⟨_, more⟩
      · rintro ⟨⟨right, bottom, pixelsFit, rows⟩, rest⟩
        obtain ⟨tile, read, inside⟩ := decodes.mp (pixelsFit bytes rfl)
        obtain ⟨⟨pixels', aflags'⟩, converted⟩ := (converts tile).1.mpr ⟨inside, rows bytes rfl⟩
        have length' := (converts tile).2 _ converted
        by_cases last : (nextPlace level tx ty).2 ≥ CType.int.wrap level.h.toNat
        · refine ⟨(pixels', aflags'), _, ⟨right, rfl⟩, _, ⟨bottom, rfl⟩, some tile, read, ?_⟩
          simp only [converted, ok_bind]
          rw [if_pos last]
          rfl
        · rw [if_neg last] at rest
          obtain ⟨result, computed⟩ := (@ih _ _ pixels' aflags' nonnegNext length').mpr rest
          refine ⟨result, _, ⟨right, rfl⟩, _, ⟨bottom, rfl⟩, some tile, read, ?_⟩
          simp only [converted, ok_bind]
          rw [if_neg last]
          exact computed

theorem convertLevel_ok_iff (sound : su.Sound) (aflags : UInt8) : (∃ result,
        convertLevel source xcfoffs hier compression level su aflags = .ok result) ↔
      ∀ visit ∈ visits source xcfoffs compression level level.tileOffsets 0 0,
        VisitFits hier compression su visit := by
  rw [← @convertTiles_ok_iff compression source xcfoffs hier level su sound
    level.tileOffsets 0 0 su.pixels aflags (Int.le_refl 0) rfl]
  unfold convertLevel
  simp only [bind_eq_ok]
  constructor
  · rintro ⟨_, computed, converted, _⟩
    exact ⟨computed, converted⟩
  · rintro ⟨computed, converted⟩
    exact ⟨_, computed, converted, rfl⟩

/-! ## Files -/

/--
Tiles are decoded without leaving the bytes or the tile exactly if the bytes
begin with runs that fill the channels of a tile, and give this tile then; and
levels are converted without leaving the surface exactly if all their tiles fit.
-/
theorem xcf_iff {fresh : Nat → UInt8} {bytes : List UInt8} {Bpp x y : Nat} (sound : su.Sound)
    (aflags : UInt8) :
    ((∃ result, readTileRLE (some fresh) bytes Bpp x y = .ok result) ↔
        TileSized Bpp x y ∧ ∃ data, TileEncodes bytes Bpp x y data) ∧
      (∀ data, TileSized Bpp x y → TileEncodes bytes Bpp x y data →
        readTileRLE (some fresh) bytes Bpp x y = .ok (some data)) ∧
        ((∃ result, convertLevel source xcfoffs hier compression level su aflags = .ok result) ↔
          ∀ visit ∈ visits source xcfoffs compression level level.tileOffsets 0 0,
            VisitFits hier compression su visit) := by
  refine ⟨⟨fun safe => ?_, fun ⟨sized, encodes⟩ =>
      (readTileRLE_safe_iff sized).mpr encodes⟩,
    fun data sized encodes => (readTileRLE_eq_ok sized).mpr encodes,
    convertLevel_ok_iff sound aflags⟩
  have sized : TileSized Bpp x y := by
    obtain ⟨result, decoded⟩ := safe
    unfold readTileRLE at decoded
    simp only [bind_eq_ok] at decoded
    obtain ⟨size, pixels, room, total, _⟩ := decoded
    obtain ⟨pixelsHeld, rfl⟩ := intResult_eq_ok.mp pixels
    obtain ⟨bytesHeld, rfl⟩ := intResult_eq_ok.mp total
    refine ⟨?_, ?_⟩
    · rw [Nat.cast_mul]
      exact pixelsHeld
    · rw [Nat.cast_mul, Nat.cast_mul]
      exact bytesHeld
  exact ⟨sized, (readTileRLE_safe_iff sized).mp safe⟩

end Tiles

end Levels

def plainSource : TileSource where
  read _ _ len := some (.replicate len 9)
  sized := by
    rintro _ _ len _ ⟨⟩
    exact List.length_replicate
  memory _ := some fun _ => 0

def onePixel : Level where
  w := 1
  h := 1
  tileOffsets := [10]

def threeBytes : Hierarchy := ⟨3, .inl rfl⟩

theorem xcf_iff_onePixel : readTileRLE (some fun _ => 0) [1, 7] 1 2 1 = .ok (some [7, 7]) ∧
      ∃ result, convertLevel plainSource 0 threeBytes compressionNone onePixel
          .blackRow 0 = .ok result := by
  obtain ⟨_, decodes, converts⟩ :=
    @xcf_iff compressionNone plainSource 0 threeBytes onePixel .blackRow
      (fun _ => 0) [1, 7] 1 2 1 Surface.blackRow_sound 0
  refine ⟨decodes [7, 7] ⟨by decide, by decide⟩ ⟨rfl, [1, 7], [], rfl, ?_⟩, converts.mpr ?_⟩
  · have encodes : ChannelEncodes 2 ([1, 7] ++ []) ([7, 7] ++ []) :=
      .run (by decide) (by decide) (@RunEncodes.repeated 2 7 (by decide) (by decide)) .done
    exact @ChannelsEncode.channel 2 _ _ [] [] encodes .done
  · refine List.forall_mem_cons.mpr ⟨⟨by decide, by decide, ?_, ?_⟩, List.forall_mem_nil _⟩
    · rintro _ ⟨⟩
      rw [HasPixels, if_pos rfl]
      decide
    · rintro _ ⟨⟩
      unfold RowsInside
      decide

theorem readTileRLE_overlong : readTileRLE (some fun _ => 0) [1, 7] 1 1 1 = .error .undefined := by
  decide

end Agar.Gui.Xcf
