import Agar.Gui.SurfaceScaling

namespace Agar.Gui

open Agar.Lib
open Agar.Core

/-!
# Surfaces that are built in any order

Surfaces are made, duplicated, converted and resized in any order.  As long as
no step leaves a padding that its rows do not have, or gives padding to a second
row, all that is built can be copied and scaled, and can be given an alpha
component.
-/

namespace Surface

/-! ## Steps -/

/-- What is done with a surface that was built -/
inductive BuildStep where
  | dup (fresh : Fresh)
  | convert (fresh : Fresh) (pf : PixelFormat)
  | resize (fresh : Fresh) (w h : UInt32)

/-- The surface that a step gives -/
def buildStep (s : Surface) : BuildStep → Except Stop (Option Surface)
  | .dup fresh => s.dup fresh
  | .convert fresh pf => do
      return some (← s.convert fresh pf)
  | .resize fresh w h => return some (s.resize fresh w h).2

/--
New rows are tight and fit.  A surface that is resized has no padding, and keeps
some pixels, or had none.
-/
def StepSafe (s : Surface) : BuildStep → Prop
  | .dup _ => RowsTight s.format s.w s.h
  | .convert fresh pf => fresh.isSome ∧ pf.Made ∧ SizesFit pf s.w s.h ∧ RowsTight pf s.w s.h
  | .resize fresh w h =>
    SizesFit s.format w h ∧ if w.toNat = 0 ∨ h.toNat = 0 then
        s.pixels = []
      else fresh = none ∨ s.padding.toNat = 0

/-- A surface is built by steps that are safe. -/
inductive Built : Surface → Prop where
  | new
      {fresh : Nat → UInt8}
      {type : SurfaceType}
      {w h flags : UInt32}
      {pf : PixelFormat}
      {s : Surface}
      (made : pf.Made)
      (fits : SizesFit pf w h)
      (tight : RowsTight pf w h)
      (isNew : Surface.new (some fresh) type w h pf flags = some s) :
      Built s
  | step
      {s t : Surface}
      {op : BuildStep}
      (built : Built s)
      (isSafe : s.StepSafe op)
      (steps : s.buildStep op = .ok (some t)) :
      Built t

/-- Rows have their pixels and the padding, and the array has all rows. -/
structure Addressed (s : Surface) : Prop where
  pitch : s.pitch.toNat = s.w.toNat * s.depth + s.padding.toNat
  array : s.pixels.length = s.h.toNat * s.pitch.toNat

section Steps

variable {s ss ds t : Surface} {fresh : Nat → UInt8} {type : SurfaceType} {w h flags : UInt32}
  {pf : PixelFormat}

theorem fields_of_new (isNew : new (some fresh) type w h pf flags = some s) :
    (s.w = w ∧ s.h = h) ∧ s.format = pf ∧ s.pitch = pf.pitchOf w := by
  cases isNew
  exact ⟨⟨rfl, rfl⟩, rfl, rfl⟩

theorem Laid.with_pixels (laid : s.Laid) {pixels : List UInt8}
    (length : pixels.length = s.pixels.length) : { s with pixels }.Laid :=
  { laid with array := length.trans laid.array }

theorem Laid.dup (laid : ss.Laid) (tight : RowsTight ss.format ss.w ss.h) (fresh : Fresh) :
    ∃ result, ss.dup fresh = .ok result ∧ ∀ t, result = some t → t.Laid := by
  cases fresh with
  | none => exact ⟨none, rfl, fun t isSome => by cases isSome⟩
  | some fresh =>
    obtain ⟨s, isNew⟩ : ∃ s, new (some fresh) ss.type ss.w ss.h ss.format
              (ss.flags &&& savedFlags) = some s :=
      ⟨_, rfl⟩
    have laidNew := laid_of_new laid.made laid.fits tight isNew
    obtain ⟨⟨_, high⟩, _, pitch⟩ := fields_of_new isNew
    have size : (ss.h * ss.pitch).toNat = ss.h.toNat * ss.pitch.toNat := by
      have small := laid.small
      rw [UInt32.toNat_mul]
      exact Nat.mod_eq_of_lt (by omega)
    have array := laid.array
    have fits : ss.h.toNat * ss.pitch.toNat ≤ s.pixels.length := by
      rw [laidNew.array, high, pitch, (tight.pitchOf laid.made laid.fits).1]
      exact Nat.mul_le_mul_left _ laid.most
    have length : ((ss.pixels.drop 0).take (ss.h.toNat * ss.pitch.toNat)).length =
          ss.h.toNat * ss.pitch.toNat := by
      rw [List.length_take, List.length_drop]
      omega
    have copied : copyBytes s.pixels 0 ss.pixels 0 (ss.h.toNat * ss.pitch.toNat) = .ok
            (splice s.pixels 0 ((ss.pixels.drop 0).take (ss.h.toNat * ss.pitch.toNat))) := by
      rw [copyBytes, if_pos (by omega)]
      rfl
    refine ⟨some
        { s with
          pixels := splice s.pixels 0 ((ss.pixels.drop 0).take (ss.h.toNat * ss.pitch.toNat)) },
        ?_, ?_⟩
    · unfold Surface.dup
      simp only [isNew, size, copied, ok_bind]
      rfl
    · intro t isSome
      rw [← Option.some.inj isSome]
      exact laidNew.with_pixels (length_splice (by omega))

theorem Laid.convert (laid : ss.Laid) (made : pf.Made) (fits : SizesFit pf ss.w ss.h)
    (tight : RowsTight pf ss.w ss.h) (fresh : Nat → UInt8) :
    ∃ t, ss.convert (some fresh) pf = .ok t ∧ t.Laid := by
  obtain ⟨ds, isNew⟩ : ∃ ds, new (some fresh) ss.type ss.w ss.h pf (ss.flags &&& savedFlags) =
          some ds :=
    ⟨_, rfl⟩
  have laidNew := laid_of_new made fits tight isNew
  obtain ⟨pixels, copied, painted⟩ := laidNew.copies laid
  refine ⟨_, ?_, laidNew.with_pixels painted.length⟩
  unfold Surface.convert
  simp only [isNew, copied]

theorem Laid.step (laid : s.Laid) {op : BuildStep} (isSafe : s.StepSafe op) :
    ∃ result, s.buildStep op = .ok result ∧ ∀ t, result = some t → t.Laid := by
  cases op with
  | dup fresh => exact laid.dup isSafe fresh
  | convert fresh pf =>
    obtain ⟨isSome, made, fits, tight⟩ := isSafe
    obtain ⟨fresh, rfl⟩ := Option.isSome_iff_exists.mp isSome
    obtain ⟨t, converted, laidNew⟩ := laid.convert made fits tight fresh
    refine ⟨some t, ?_, ?_⟩
    · rw [buildStep, converted]
      rfl
    · rintro _ ⟨⟩
      exact laidNew
  | resize fresh w h =>
    obtain ⟨fits, isSafe⟩ := isSafe
    refine ⟨some (s.resize fresh w h).2, rfl, fun t isSome => ?_⟩
    rw [← Option.some.inj isSome]
    exact laid.resize fits isSafe

theorem Built.laid (built : s.Built) : s.Laid := by
  induction built with
  | new made fits tight isNew => exact laid_of_new made fits tight isNew
  | step _ isSafe steps ih =>
    obtain ⟨result, stepped, laid⟩ := ih.step isSafe
    rw [stepped] at steps
    exact laid _ (Except.ok.inj steps)

/-! ## Uniform addressing -/

theorem Laid.addressed (laid : s.Laid) : s.Addressed := ⟨laid.pitch, laid.array⟩

end Steps

/-! ## A surface that is resized -/

end Surface

end Agar.Gui
