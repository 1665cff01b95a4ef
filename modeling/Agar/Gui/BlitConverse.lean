import Agar.Gui.BlitPlacement

namespace Agar.Gui

open Agar.Lib
open Agar.Core

/-!
# What a blit shows

Surfaces of a layout that are painted in one colour, with which a blit from or
to a wrong place is seen.
-/

/-! ## Surfaces of one colour -/

theorem segmentAt_replicate {β : Type} {cell : β} {length start count : Nat}
    (inside : start + count ≤ length) :
    SegmentAt (List.replicate length cell) start (List.replicate count cell) := by
  refine ⟨by rwa [List.length_replicate, List.length_replicate], fun index within => ?_⟩
  rw [List.length_replicate] at within
  rw [List.getElem?_replicate, List.getElem?_replicate, if_pos (by omega), if_pos within]

/-- What a red byte becomes in a number of bytes -/
def redBytes (size : Nat) (byte : UInt8) : List UInt8 := byte :: List.replicate (size - 1) 0

theorem red_mapped {size : Nat} {byte : UInt8} (depth : 1 ≤ size ∧ size ≤ 4)
    (isByte : byte = 0 ∨ byte = 255) :
    redFormat.mapColorRGB (redFormat.getColorRGBA (pixelOf (List.replicate size byte))) =
      byte.toUInt32 := by
  obtain ⟨least, most⟩ := depth
  rcases isByte with rfl | rfl <;> interval_cases size <;> decide

theorem pixelBytes_red {size : Nat} {byte : UInt8} (depth : 1 ≤ size ∧ size ≤ 4)
    (isByte : byte = 0 ∨ byte = 255) : pixelBytes size byte.toUInt32 = redBytes size byte := by
  obtain ⟨least, most⟩ := depth
  rcases isByte with rfl | rfl <;> interval_cases size <;> decide

namespace Surface

/-- Two surfaces differ in their pixels and colours only. -/
structure SameLayout (s t : Surface) : Prop where
  width : s.w = t.w
  height : s.h = t.h
  pitch : s.pitch = t.pitch
  depth : s.depth = t.depth
  array : s.pixels.length = t.pixels.length
  clip : s.clipRect = t.clipRect

/-- A surface with other pixels, all of which are red -/
def repainted (s : Surface) (pixels : List UInt8) : Surface :=
  { s with
    flags := 0
    format := { redFormat with bytesPerPixel := s.format.bytesPerPixel }
    pixels }

section Repainted

variable {s ss ds : Surface} {pixels pixelsDst : List UInt8}

theorem sameLayout_repainted (length : pixels.length = s.pixels.length) :
    (s.repainted pixels).SameLayout s :=
  ⟨rfl, rfl, rfl, rfl, length, rfl⟩

theorem repainted_plain : (s.repainted pixels).Plain := ⟨UInt32.zero_and, UInt32.zero_and, rfl⟩

theorem Sound.repainted (sound : s.Sound) (length : pixels.length = s.pixels.length) :
    (s.repainted pixels).Sound :=
  ⟨sound.depth, sound.wide, length.trans sound.array, sound.small⟩

theorem Sound.converted_repainted (sound : ss.Sound) (soundDst : ds.Sound) {byte : UInt8}
    (isByte : byte = 0 ∨ byte = 255) :
    (ss.repainted pixels).converted (ds.repainted pixelsDst)
        (pixelOf (List.replicate ss.depth byte)) =
      redBytes ds.depth byte := by
  have mapped := red_mapped sound.depth isByte
  rw [← pixelBytes_red soundDst.depth isByte, ← mapped]
  exact rfl

end Repainted

/-! ## What a blit of red pixels shows -/

section Shown

variable {ss ds : Surface} {srcRect : Option Rect} {xDst yDst : CInt .int} {pixels : List UInt8}

theorem blits_iff (inside : ds.clipRect.Inside ds.w.toNat ds.h.toNat) :
    ss.Blits srcRect ds xDst yDst ↔
      ((ss.across srcRect ds xDst).Held ∧ (ss.down srcRect ds yDst).Held) ∧ ∃ pixels, forLoop
              (ss.blitRow ds ((ss.across srcRect ds xDst).source, (ss.down srcRect ds yDst).source)
                ((ss.across srcRect ds xDst).target, (ss.down srcRect ds yDst).target)
                (ss.across srcRect ds xDst).shown)
              (uintResult (ss.down srcRect ds yDst).shown).toNat 0 ds.pixels = .ok pixels ∧
            Painted ds.pixels pixels ds.depth ds.place (ss.blitValue srcRect ds xDst yDst)
              (ss.BlitWanted srcRect ds xDst yDst) := by
  constructor
  · rintro ⟨pixels, blitted, painted⟩
    have computed := blitted
    rw [blit, bind_eq_ok] at computed
    obtain ⟨_, across, rest⟩ := computed
    rw [bind_eq_ok] at rest
    obtain ⟨_, down, _⟩ := rest
    have heldAcross := Axis.held_of_clipped across
    have heldDown := Axis.held_of_clipped down
    refine ⟨⟨heldAcross, heldDown⟩, pixels, ?_, painted⟩
    rw [blit_of_held inside heldAcross heldDown, bind_eq_ok] at blitted
    obtain ⟨same, looped, isSame⟩ := blitted
    have equal : same = pixels := congrArg Surface.pixels (Except.ok.inj isSame)
    rwa [equal] at looped
  · rintro ⟨⟨across, down⟩, pixels, looped, painted⟩
    refine ⟨pixels, ?_, painted⟩
    rw [blit_of_held inside across down]
    simp only
    rw [looped]
    rfl

theorem first_of_segment {place size : Nat} {byte : UInt8}
    (segment : SegmentAt pixels place (redBytes size byte)) : pixels[place]? = some byte := by
  have first := segment.holds 0 (by rw [redBytes, List.length_cons]; omega)
  rwa [Nat.add_zero] at first

theorem one_of_painted {value : Nat × Nat → List UInt8} {done : Nat × Nat → Prop} {index : Nat}
    (painted : Painted (List.replicate ds.pixels.length 1) pixels ds.depth ds.place value done)
    (inside : index < ds.pixels.length)
    (beside : ∀ point, done point → index < ds.place point ∨ ds.place point + ds.depth ≤ index) :
    pixels[index]? = some 1 := by
  rw [painted.kept index beside, List.getElem?_replicate, if_pos inside]

theorem Sound.red_pixelAt (sound : ss.Sound) {point : Nat × Nat} (column : point.1 < ss.w.toNat)
    (row : point.2 < ss.h.toNat) :
    (ss.repainted (List.replicate ss.pixels.length 255)).pixelAt point =
      pixelOf (List.replicate ss.depth 255) := by
  have segment : SegmentAt (List.replicate ss.pixels.length (255 : UInt8))
        (ss.place point) (List.replicate ss.depth 255) :=
    segmentAt_replicate (sound.place_inside column row)
  have cell := segment.read
  rw [List.length_replicate] at cell
  exact congrArg pixelOf cell

theorem Sound.red_blitValue (sound : ss.Sound) (soundDst : ds.Sound) {pixelsDst : List UInt8}
    {point : Nat × Nat} (wanted : ss.BlitWanted srcRect ds xDst yDst point) :
    (ss.repainted (List.replicate ss.pixels.length 255)).blitValue srcRect
        (ds.repainted pixelsDst) xDst yDst point =
      redBytes ds.depth 255 := by
  obtain ⟨⟨_, ⟨leftA, rightA⟩, _⟩, _, ⟨leftD, rightD⟩, _⟩ := wanted
  change _ < (ss.w.toNat : Int) at rightA
  change _ < (ss.h.toNat : Int) at rightD
  rw [← sound.converted_repainted soundDst (.inr rfl), blitValue]
  refine congrArg _ (sound.red_pixelAt ?_ ?_)
  · exact (Int.toNat_lt leftA).mpr rightA
  · exact (Int.toNat_lt leftD).mpr rightD

theorem lt_of_blitWanted (inside : ds.clipRect.Inside ds.w.toNat ds.h.toNat) {point : Nat × Nat}
    (wanted : ss.BlitWanted srcRect ds xDst yDst point) :
    point.1 < ds.w.toNat ∧ point.2 < ds.h.toNat := by
  obtain ⟨⟨⟨_, columns⟩, _⟩, ⟨_, rows⟩, _⟩ := wanted
  have right := inside.right
  have bottom := inside.bottom
  change (point.1 : Int) < ds.clipRect.x.val + ds.clipRect.w.val at columns
  change (point.2 : Int) < ds.clipRect.y.val + ds.clipRect.h.val at rows
  omega

section Red

variable (sound : ss.Sound) (soundDst : ds.Sound)
  (inside : ds.clipRect.Inside ds.w.toNat ds.h.toNat)
  (painted : Painted (List.replicate ds.pixels.length 1) pixels ds.depth ds.place
  ((ss.repainted (List.replicate ss.pixels.length 255)).blitValue srcRect
  (ds.repainted (List.replicate ds.pixels.length 1)) xDst yDst)
  (ss.BlitWanted srcRect ds xDst yDst))

include sound soundDst painted

theorem red_of_wanted {point : Nat × Nat} (wanted : ss.BlitWanted srcRect ds xDst yDst point) :
    pixels[ds.place point]? = some 255 := by
  have segment := painted.painted point wanted
  rw [sound.red_blitValue soundDst wanted] at segment
  exact first_of_segment segment

include inside

end Red

theorem done_of_red (soundDst : ds.Sound) {value : Nat × Nat → List UInt8} {done : Nat × Nat → Prop}
    (painted : Painted (List.replicate ds.pixels.length 1) pixels ds.depth ds.place value done)
    (columns : ∀ point, done point → point.1 < ds.w.toNat) {point : Nat × Nat}
    (column : point.1 < ds.w.toNat) (row : point.2 < ds.h.toNat)
    (red : pixels[ds.place point]? = some 255) : done point := by
  by_contra notDone
  have depth := soundDst.depth
  have room := soundDst.place_inside column row
  have one : pixels[ds.place point]? = some 1 :=
    one_of_painted painted (by omega) fun other isDone => by
      have apart :=
        soundDst.place_apart column (columns other isDone) fun same => notDone (same ▸ isDone)
      unfold Lib.Apart at apart
      omega
  rw [red] at one
  exact absurd (Option.some.inj one) (by decide)

/-- One red pixel on black ones -/
def oneRed (s : Surface) (point : Nat × Nat) : List UInt8 :=
  splice (List.replicate s.pixels.length 0) (s.place point) (List.replicate s.depth 255)

section OneRed

variable {point other : Nat × Nat}

theorem Sound.oneRed_inside (sound : ss.Sound) (column : point.1 < ss.w.toNat)
    (row : point.2 < ss.h.toNat) :
    ss.place point + (List.replicate ss.depth (255 : UInt8)).length ≤
      (List.replicate ss.pixels.length (0 : UInt8)).length := by
  rw [List.length_replicate, List.length_replicate]
  exact sound.place_inside column row

theorem Sound.length_oneRed (sound : ss.Sound) (column : point.1 < ss.w.toNat)
    (row : point.2 < ss.h.toNat) : (ss.oneRed point).length = ss.pixels.length := by
  rw [oneRed, length_splice (sound.oneRed_inside column row), List.length_replicate]

theorem Sound.pixelAt_oneRed (sound : ss.Sound) (column : point.1 < ss.w.toNat)
    (row : point.2 < ss.h.toNat) :
    (ss.repainted (ss.oneRed point)).pixelAt point = pixelOf (List.replicate ss.depth 255) := by
  have cell := (segmentAt_splice (sound.oneRed_inside column row)).read
  rw [List.length_replicate] at cell
  exact congrArg pixelOf cell

theorem Sound.pixelAt_oneRed_other (sound : ss.Sound) (column : point.1 < ss.w.toNat)
    (row : point.2 < ss.h.toNat) (columnOther : other.1 < ss.w.toNat)
    (rowOther : other.2 < ss.h.toNat) (distinct : point ≠ other) :
    (ss.repainted (ss.oneRed point)).pixelAt other = pixelOf (List.replicate ss.depth 0) := by
  have black : SegmentAt (List.replicate ss.pixels.length (0 : UInt8))
        (ss.place other) (List.replicate ss.depth 0) :=
    segmentAt_replicate (sound.place_inside columnOther rowOther)
  have apart := sound.place_apart column columnOther distinct
  have cell :=
    (black.splice (sound.oneRed_inside column row) (by
      rw [List.length_replicate, List.length_replicate]
      exact apart.symm)).read
  rw [List.length_replicate] at cell
  exact congrArg pixelOf cell

end OneRed

end Shown

/-! ## All surfaces of a layout -/

/-- All surfaces of the layouts of two are copied exactly. -/
def BlitsAlways (ss : Surface) (srcRect : Option Rect) (ds : Surface)
    (xDst yDst : CInt .int) : Prop :=
  ∀ ss' ds' : Surface, ss'.SameLayout ss → ds'.SameLayout ds → ss'.Plain →
    ss'.Blits srcRect ds' xDst yDst

section Always

variable {ss ds : Surface} {srcRect : Option Rect} {xDst yDst : CInt .int} {a d : Axis}

theorem BlitsAlways.painted_twice (always : ss.BlitsAlways srcRect ds xDst yDst) (sound : ss.Sound)
    (soundDst : ds.Sound) (inside : ds.clipRect.Inside ds.w.toNat ds.h.toNat)
    (isAcross : ss.across srcRect ds xDst = a) (isDown : ss.down srcRect ds yDst = d)
    (shown : 0 < a.shown) (shownDown : 0 < d.shown) (held : ss.ColumnsHeld srcRect ds xDst)
    {source : List UInt8} (length : source.length = ss.pixels.length) :
    let red := ss.repainted source
    let ones := ds.repainted (List.replicate ds.pixels.length 1)
    ∃ pixels, Painted (List.replicate ds.pixels.length 1) pixels ds.depth ds.place
          (red.blitValue srcRect ones xDst yDst)
          (ss.BlitWanted srcRect ds xDst yDst) ∧
        Painted (List.replicate ds.pixels.length 1) pixels ds.depth ds.place (fun point =>
            red.converted ones (red.pixelAt
                ((a.source + (point.1 - a.target)).toNat, (d.source + (point.2 - d.target)).toNat)))
          (fun point =>
            (a.target ≤ point.1 ∧ point.1 < a.target + a.shown) ∧
              d.target ≤ point.2 ∧ point.2 < d.target + d.shown) := by
  intro red ones
  have lengthOnes : (List.replicate ds.pixels.length (1 : UInt8)).length = ds.pixels.length :=
    List.length_replicate
  have plain : red.Plain := repainted_plain
  have blitted : red.Blits srcRect ones xDst yDst :=
    always red ones (sameLayout_repainted length) (sameLayout_repainted lengthOnes) plain
  have insideOnes : ones.clipRect.Inside ones.w.toNat ones.h.toNat := inside
  have isAcrossRed : red.across srcRect ones xDst = a := isAcross
  have isDownRed : red.down srcRect ones yDst = d := isDown
  obtain ⟨_, pixels, looped, painted⟩ := (blits_iff insideOnes).mp blitted
  obtain ⟨pixelsK, loopedK, paintedK⟩ :=
    plain.copies_shown (sound.repainted length) (soundDst.repainted lengthOnes)
      insideOnes isAcrossRed isDownRed shown shownDown held
  rw [isAcrossRed, isDownRed, loopedK, Except.ok.injEq] at looped
  subst looped
  exact ⟨pixelsK, painted, paintedK⟩

theorem BlitsAlways.same_source (always : ss.BlitsAlways srcRect ds xDst yDst) (sound : ss.Sound)
    (soundDst : ds.Sound) (inside : ds.clipRect.Inside ds.w.toNat ds.h.toNat)
    (isAcross : ss.across srcRect ds xDst = a) (isDown : ss.down srcRect ds yDst = d)
    (shown : 0 < a.shown) (shownDown : 0 < d.shown) (held : ss.ColumnsHeld srcRect ds xDst)
    {point : Nat × Nat} (wanted : ss.BlitWanted srcRect ds xDst yDst point)
    (copied : (a.target ≤ point.1 ∧ point.1 < a.target + a.shown) ∧
        d.target ≤ point.2 ∧ point.2 < d.target + d.shown) :
    a.sourceOf point.1 = a.source + (point.1 - a.target) ∧
      d.sourceOf point.2 = d.source + (point.2 - d.target) := by
  have wide : a.size = ss.w := isAcross ▸ rfl
  have high : d.size = ss.h := isDown ▸ rfl
  obtain ⟨⟨sourceA, endA⟩, _⟩ := Axis.bounds_of_shown (isAcross ▸ inside.left) shown
  obtain ⟨⟨sourceD, endD⟩, _⟩ := Axis.bounds_of_shown (isDown ▸ inside.top) shownDown
  have wantedHere := wanted
  rw [BlitWanted, isAcross, isDown] at wantedHere
  obtain ⟨⟨_, ⟨leftA, rightA⟩, _⟩, _, ⟨leftD, rightD⟩, _⟩ := wantedHere
  rw [wide] at endA rightA
  rw [high] at endD rightD
  obtain ⟨qx, isX⟩ := Int.eq_ofNat_of_zero_le leftA
  obtain ⟨qy, isY⟩ := Int.eq_ofNat_of_zero_le leftD
  obtain ⟨kx, isKX⟩ : ∃ k : Nat, a.source + (point.1 - a.target) = k :=
    Int.eq_ofNat_of_zero_le (by omega)
  obtain ⟨ky, isKY⟩ : ∃ k : Nat, d.source + (point.2 - d.target) = k :=
    Int.eq_ofNat_of_zero_le (by omega)
  have column : qx < ss.w.toNat := by omega
  have row : qy < ss.h.toNat := by omega
  have columnK : kx < ss.w.toNat := by omega
  have rowK : ky < ss.h.toNat := by omega
  by_contra crooked
  have distinct : (qx, qy) ≠ (kx, ky) := by
    intro same
    rw [Prod.mk.injEq] at same
    omega
  have length : (ss.oneRed (qx, qy)).length = ss.pixels.length := sound.length_oneRed column row
  obtain ⟨pixels, painted, paintedK⟩ :=
    always.painted_twice sound soundDst inside isAcross isDown shown shownDown held length
  have red := painted.painted point wanted
  have black := paintedK.painted point copied
  change SegmentAt pixels (ds.place point) ((ss.repainted (ss.oneRed (qx, qy))).converted _
      ((ss.repainted (ss.oneRed (qx, qy))).pixelAt
        (((ss.across srcRect ds xDst).sourceOf point.1).toNat,
          ((ss.down srcRect ds yDst).sourceOf point.2).toNat))) at red
  rw [isAcross, isDown, isX, isY, Int.toNat_natCast, Int.toNat_natCast,
    sound.pixelAt_oneRed column row,
    sound.converted_repainted soundDst (.inr rfl)] at red
  rw [isKX, isKY, Int.toNat_natCast, Int.toNat_natCast,
    sound.pixelAt_oneRed_other column row columnK rowK distinct,
    sound.converted_repainted soundDst (.inl rfl)] at black
  have same := (first_of_segment red).symm.trans (first_of_segment black)
  exact absurd (Option.some.inj same) (by decide)

theorem BlitsAlways.wanted_iff (always : ss.BlitsAlways srcRect ds xDst yDst) (sound : ss.Sound)
    (soundDst : ds.Sound) (inside : ds.clipRect.Inside ds.w.toNat ds.h.toNat)
    (isAcross : ss.across srcRect ds xDst = a) (isDown : ss.down srcRect ds yDst = d)
    (shown : 0 < a.shown) (shownDown : 0 < d.shown) (held : ss.ColumnsHeld srcRect ds xDst)
    (point : Nat × Nat) :
    ss.BlitWanted srcRect ds xDst yDst point ↔ (a.target ≤ point.1 ∧ point.1 < a.target + a.shown) ∧
        d.target ≤ point.2 ∧ point.2 < d.target + d.shown := by
  have wide : a.size = ss.w := isAcross ▸ rfl
  have high : d.size = ss.h := isDown ▸ rfl
  have right : a.clip.val + a.clipSize.val ≤ ds.w.toNat := isAcross ▸ inside.right
  have bottom : d.clip.val + d.clipSize.val ≤ ds.h.toNat := isDown ▸ inside.bottom
  obtain ⟨⟨sourceA, endA⟩, targetA, endTargetA⟩ :=
    Axis.bounds_of_shown (isAcross ▸ inside.left) shown
  obtain ⟨⟨sourceD, endD⟩, targetD, endTargetD⟩ :=
    Axis.bounds_of_shown (isDown ▸ inside.top) shownDown
  rw [wide] at endA
  rw [high] at endD
  obtain ⟨pixels, painted, paintedK⟩ :=
    always.painted_twice sound soundDst inside isAcross isDown shown shownDown
      held List.length_replicate
  constructor
  · intro wanted
    obtain ⟨column, row⟩ := lt_of_blitWanted inside wanted
    exact done_of_red soundDst paintedK (fun other copied => by omega) column row
      (red_of_wanted sound soundDst painted wanted)
  · intro copied
    have segment := paintedK.painted point copied
    rw [sound.red_pixelAt (by simp only; omega) (by simp only; omega),
      sound.converted_repainted soundDst (.inr rfl)] at segment
    exact done_of_red soundDst painted
      (fun other wanted => (lt_of_blitWanted inside wanted).1) (by omega)
      (by omega) (first_of_segment segment)

theorem BlitsAlways.straight (always : ss.BlitsAlways srcRect ds xDst yDst) (sound : ss.Sound)
    (soundDst : ds.Sound) (inside : ds.clipRect.Inside ds.w.toNat ds.h.toNat)
    (isAcross : ss.across srcRect ds xDst = a) (isDown : ss.down srcRect ds yDst = d)
    (shown : 0 < a.shown) (shownDown : 0 < d.shown) (held : ss.ColumnsHeld srcRect ds xDst) :
    (∃ point, ss.BlitWanted srcRect ds xDst yDst point) ∧ a.Straight ∧ d.Straight := by
  have all := always.wanted_iff sound soundDst inside isAcross isDown shown shownDown held
  obtain ⟨_, targetA, _⟩ := Axis.bounds_of_shown (isAcross ▸ inside.left) shown
  obtain ⟨_, targetD, _⟩ := Axis.bounds_of_shown (isDown ▸ inside.top) shownDown
  have clipA : 0 ≤ a.clip.val := isAcross ▸ inside.left
  have clipD : 0 ≤ d.clip.val := isDown ▸ inside.top
  obtain ⟨x, isX⟩ := Int.eq_ofNat_of_zero_le targetA
  obtain ⟨y, isY⟩ := Int.eq_ofNat_of_zero_le targetD
  have first : ss.BlitWanted srcRect ds xDst yDst (x, y) := (all (x, y)).mpr (by simp only; omega)
  have copied := (all (x, y)).mp first
  obtain ⟨sourceA, sourceD⟩ :=
    always.same_source sound soundDst inside isAcross isDown shown shownDown held first copied
  have both (point : Nat × Nat) : a.Wanted point.1 ∧ d.Wanted point.2 ↔
        (a.target ≤ point.1 ∧ point.1 < a.target + a.shown) ∧
          d.target ≤ point.2 ∧ point.2 < d.target + d.shown := by
    rw [← all point, BlitWanted, isAcross, isDown]
  obtain ⟨wantedA, wantedD⟩ := (both (x, y)).mpr copied
  refine ⟨⟨(x, y), first⟩, (Axis.straight_iff wantedA).mpr ⟨shown, ?_, ?_⟩,
    (Axis.straight_iff wantedD).mpr ⟨shownDown, ?_, ?_⟩⟩
  · rw [Axis.sourceOf] at sourceA
    omega
  · intro z
    constructor
    · intro wanted
      obtain ⟨k, rfl⟩ : ∃ k : Nat, z = k := Int.eq_ofNat_of_zero_le (clipA.trans wanted.1.1)
      exact ((both (k, y)).mp ⟨wanted, wantedD⟩).1
    · intro range
      obtain ⟨k, rfl⟩ : ∃ k : Nat, z = k := Int.eq_ofNat_of_zero_le (targetA.trans range.1)
      exact ((both (k, y)).mpr ⟨range, copied.2⟩).1
  · rw [Axis.sourceOf] at sourceD
    omega
  · intro z
    constructor
    · intro wanted
      obtain ⟨k, rfl⟩ : ∃ k : Nat, z = k := Int.eq_ofNat_of_zero_le (clipD.trans wanted.1.1)
      exact ((both (x, k)).mp ⟨wantedA, wanted⟩).2
    · intro range
      obtain ⟨k, rfl⟩ : ∃ k : Nat, z = k := Int.eq_ofNat_of_zero_le (targetD.trans range.1)
      exact ((both (x, k)).mpr ⟨copied.1, range⟩).2

theorem SameLayout.sound {s t : Surface} (layout : s.SameLayout t) (sound : t.Sound) : s.Sound := by
  obtain ⟨width, height, pitch, depth, array, _⟩ := layout
  refine ⟨depth ▸ sound.depth, ?_, ?_, ?_⟩
  · rw [width, depth, pitch]
    exact sound.wide
  · rw [array, height, pitch]
    exact sound.array
  · rw [height, pitch]
    exact sound.small

theorem BlitsAlways.red (always : ss.BlitsAlways srcRect ds xDst yDst)
    (inside : ds.clipRect.Inside ds.w.toNat ds.h.toNat) (isAcross : ss.across srcRect ds xDst = a)
    (isDown : ss.down srcRect ds yDst = d) :
    let red := ss.repainted (List.replicate ss.pixels.length 255)
    let ones := ds.repainted (List.replicate ds.pixels.length 1)
    (a.Held ∧ d.Held) ∧ ∃ pixels, forLoop
            (red.blitRow ones (a.source, d.source) (a.target, d.target) a.shown)
            (uintResult d.shown).toNat 0 (List.replicate ds.pixels.length 1) = .ok pixels ∧
          Painted (List.replicate ds.pixels.length 1) pixels ds.depth ds.place
            (red.blitValue srcRect ones xDst yDst)
            (ss.BlitWanted srcRect ds xDst yDst) := by
  intro red ones
  have blitted : red.Blits srcRect ones xDst yDst :=
    always red ones (sameLayout_repainted List.length_replicate)
      (sameLayout_repainted List.length_replicate) repainted_plain
  have insideOnes : ones.clipRect.Inside ones.w.toNat ones.h.toNat := inside
  have isAcrossRed : red.across srcRect ones xDst = a := isAcross
  have isDownRed : red.down srcRect ones yDst = d := isDown
  have shows := (blits_iff insideOnes).mp blitted
  rwa [isAcrossRed, isDownRed] at shows

end Always

end Surface

end Agar.Gui
