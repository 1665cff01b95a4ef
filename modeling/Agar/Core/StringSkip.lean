import Agar.Core.StringCopy

namespace Agar.Core

open Agar.Lib

/-!
# Strings that are skipped

Whether the functions that skip a string, or copy a padded one, leave the
cursor where the record ends.  All of them seek there, which memory refuses
where the record is the last; and in debug mode `AG_SkipStringPadded` expects
type codes in front of the two lengths, which are not written.
-/

/-- `AG_SOURCE_STRING_PAD` -/
def sourceStringPad : UInt32 := 0x4147000e

namespace DataSource

/-- The record of a string as `AG_ReadString` takes it. -/
def plainRecord (ds : DataSource) (s : List UInt8) : List UInt8 :=
  ds.typeCode sourceString ++ (ds.typeCode sourceUint32 ++ ds.byteOrder.encode 4 s.length ++ s)

/-- The record of a string in a field of a fixed size. -/
def paddedRecord (ds : DataSource) (s : List UInt8) (lenPadded : Nat) : List UInt8 :=
  ds.typeCode sourceStringPad ++
    (ds.byteOrder.encode 4 s.length ++ ds.byteOrder.encode 4 lenPadded ++
      (s ++ List.replicate (lenPadded - s.length) 0))

end DataSource

/-! ## Seeking on -/

/-- A seek from the cursor to a position succeeds. -/
def Backend.SeeksTo (target : Nat) : Backend → Prop
  | .file _ => target < 2 ^ 63
  | .core cs | .constCore cs | .autoCore cs => target < cs.size ∧ target < 2 ^ 63
  | .netSocket _ => False

namespace DataSource

section Seek

variable {ds after : DataSource} {offs : Int} {target : Nat}

end Seek

end DataSource

/-! ## What reads leave as it is -/

/-- A backend that differs from another by its cursor at most. -/
structure Backend.SameData (backend after : Backend) : Prop where
  contents : after.contents = backend.contents
  readsTo : ∀ reach, after.ReadsTo reach ↔ backend.ReadsTo reach
  seeksTo : ∀ target, after.SeeksTo target ↔ backend.SeeksTo target

theorem Backend.SameData.refl (backend : Backend) : backend.SameData backend :=
  ⟨rfl, fun _ => .rfl, fun _ => .rfl⟩

theorem Backend.SameData.trans {backend middle after : Backend} (early : backend.SameData middle)
    (late : middle.SameData after) : backend.SameData after :=
  ⟨late.contents.trans early.contents,
    fun reach => (late.readsTo reach).trans (early.readsTo reach),
    fun target => (late.seeksTo target).trans (early.seeksTo target)⟩

theorem Backend.read_sameData {backend after : Backend} {low size : Nat} {transfer : Transfer}
    (readable : backend.ReadsTo low) (returned : backend.read size = .ok (transfer, after)) :
    backend.SameData after := by
  have memory {cs next : CoreSource} (called : coreRead cs size = .ok (transfer, next)) :
      next.data = cs.data ∧ next.size = cs.size := by
    unfold coreRead at called
    split at called
    case isTrue =>
      cases called
      exact ⟨rfl, rfl⟩
    case isFalse =>
      obtain ⟨bytes, copied, result⟩ := bind_eq_ok.mp called
      cases result
      exact ⟨rfl, rfl⟩
  cases backend with
  | file fs =>
    cases returned
    have healthy : fs.faultAfter = none := readable
    refine ⟨rfl, fun reach => ?_, fun _ => .rfl⟩
    simp [ReadsTo, FileSource.spend, healthy]
  | core cs | constCore cs | autoCore cs =>
    obtain ⟨⟨got, next⟩, called, result⟩ := bind_eq_ok.mp returned
    cases result
    obtain ⟨sameData, sameSize⟩ := memory called
    refine ⟨sameData, fun reach => ?_, fun target => ?_⟩
    · simp only [ReadsTo, sameData, sameSize]
    · simp only [SeeksTo, sameSize]
  | netSocket sock => exact readable.elim

namespace DataSource

section SameData

variable {ds after : DataSource} {low size : Nat} {bytes : List UInt8}

theorem readP_sameData {rv : Int} (readable : ds.backend.ReadsTo low)
    (returned : ds.readP size = .ok (rv, bytes, after)) : ds.backend.SameData after.backend := by
  obtain ⟨⟨transfer, backend⟩, called, result⟩ := bind_eq_ok.mp returned
  cases result
  exact Backend.read_sameData readable called

theorem read_sameData {rv : Int} (readable : ds.backend.ReadsTo low)
    (returned : ds.read size = .ok (rv, bytes, after)) : ds.backend.SameData after.backend := by
  obtain ⟨⟨status, got, counted⟩, called, result⟩ := bind_eq_ok.mp returned
  cases result
  exact readP_sameData readable called

end SameData

/-! ## Lengths -/

section Lengths

variable {ds : DataSource} {start : Nat} {code four : List UInt8}

end Lengths

/-! ## Plain records -/

section Plain

variable {ds : DataSource} {start : Nat} {s : List UInt8}

end Plain

/-! ## Padded records -/

section Padded

variable {ds : DataSource} {start : Nat} {s : List UInt8} {lenPadded : Nat}

/-- The source has all bytes up to a position, and lets them be read. -/
def Reaches (ds : DataSource) (reach : Nat) : Prop :=
  ds.backend.ReadsTo reach ∧ reach ≤ ds.backend.contents.length

variable {place len : Nat}

variable {after : DataSource}

end Padded

end DataSource

/-! ## Skipping and reading -/

/--
A string on a source: as `AG_ReadString` takes it, or as `AG_WriteStringPadded`
writes it into a field of a fixed size.
-/
inductive StringRecord where
  | plain (s : List UInt8)
  | padded (s : List UInt8) (lenPadded : Nat)
  deriving Repr, DecidableEq

namespace StringRecord

/-- The bytes of the record. -/
def bytes (ds : DataSource) : StringRecord → List UInt8
  | .plain s => ds.plainRecord s
  | .padded s lenPadded => ds.paddedRecord s lenPadded

/-- The string is within the limit of its reader or of its field. -/
def Valid : StringRecord → Prop
  | .plain s => s.length ≤ loadStringMax
  | .padded s lenPadded => s.length ≤ lenPadded

end StringRecord

end Agar.Core
