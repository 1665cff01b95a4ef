import Agar.Core.Object
import Agar.Core.RecordSequence

namespace Agar.Core

open Agar.Lib

/-!
# Versions of archives

An archive starts with a name, in a field of its own length, and two version
numbers.
-/

/-- `AG_VERSION_NAME_MAX` -/
def versionNameMax : Nat := 48

/-- The characters of "agar", over and over. -/
def versionFill : List UInt8 := (List.replicate 12 [97, 103, 97, 114]).flatten

/-- `nbuf`, filled and then written to by `Strlcpy` -/
def versionName (name : List UInt8) : List UInt8 :=
  splice versionFill 0 (name.take (versionNameMax - 1) ++ [0])

namespace DataSource

/-- `AG_WriteVersion` -/
def writeVersion (ds : DataSource) (name : List UInt8)
    (ver : Version) : Except Stop (Int × DataSource) := do
  let (rv, ds) ← ds.write (versionName name)
  if rv ≠ 0 then return (-1, ds)
  else do
    let (rv, ds) ← ds.writeUint32v ver.major
    if rv = -1 then return (-1, ds)
    else do
      let (rv, ds) ← ds.writeUint32v ver.minor
      if rv = -1 then return (-1, ds) else return (0, ds)

/--
`AG_ReadVersion`, for a name that is shorter than its field: the version that
was read, or `none` where it returns -1.
-/
def readVersion (ds : DataSource) (name : List UInt8)
    (ver : Version) : Except Stop (Option Version × DataSource) := do
  let (rv, nbuf, ds) ← ds.read versionNameMax
  if rv ≠ 0 then return (none, ds)
  else if nbuf.take name.length ≠ name then return (none, ds)
  else do
    let (major, ds) ← ds.readUint32v
    match major with
    | none => return (none, ds)
    | some major => do
        let (minor, ds) ← ds.readUint32v
        match minor with
        | none => return (none, ds)
        | some minor => return (if major ≠ ver.major then none else some ⟨major, minor⟩, ds)

/-- The record of a version. -/
def versionRecord (ds : DataSource) (name : List UInt8) (ver : Version) : List UInt8 :=
  versionName name ++ (ds.uintRecord sourceUint32 4 ver.major.toNat ++
    ds.uintRecord sourceUint32 4 ver.minor.toNat)

end DataSource

theorem length_versionName (name : List UInt8) : (versionName name).length = versionNameMax := by
  have filled : versionFill.length = versionNameMax := by decide
  have short : (name.take (versionNameMax - 1)).length ≤ versionNameMax - 1 :=
    List.length_take_le _ _
  rw [versionName, length_splice, filled]
  rw [filled, List.length_append, List.length_singleton, Nat.zero_add]
  exact Nat.add_le_of_le_sub (by decide) short

theorem prefix_append_nul {front whole : List UInt8} (noNul : 0 ∉ front) (rest : List UInt8) :
    front <+: whole ++ 0 :: rest ↔ front <+: whole := by
  induction front generalizing whole with
  | nil => exact iff_of_true List.nil_prefix List.nil_prefix
  | cons first front ih =>
    rw [List.mem_cons, not_or] at noNul
    cases whole with
    | nil =>
      refine iff_of_false (fun starts => ?_) (fun starts => ?_)
      · rw [List.nil_append, List.cons_prefix_cons] at starts
        exact noNul.1 starts.1.symm
      · exact List.cons_ne_nil first front (List.prefix_nil.mp starts)
    | cons byte whole =>
      rw [List.cons_append, List.cons_prefix_cons, List.cons_prefix_cons, ih noNul.2]

theorem take_versionName {name asked : List UInt8} (short : name.length < versionNameMax)
    (noNul : 0 ∉ asked) : (versionName name).take asked.length = asked ↔ asked <+: name := by
  have whole : name.take (versionNameMax - 1) = name :=
    List.take_of_length_le (Nat.le_sub_one_of_lt short)
  rw [eq_comm, ← List.prefix_iff_eq_take, versionName, whole, splice,
    List.take_zero, List.nil_append, List.append_assoc]
  exact prefix_append_nul noNul _

theorem Backend.write_status {backend after : Backend} {allocation : Allocation} {buf : List UInt8}
    {transfer : Transfer} (returned : backend.write allocation buf = .ok (transfer, after)) :
    transfer.status = 0 ∨ transfer.status = -1 := by
  cases backend with
  | file fs =>
    cases returned
    dsimp only [fileWrite]
    split
    · exact .inr rfl
    · exact .inl rfl
  | core cs =>
    obtain ⟨⟨_, _⟩, wrote, result⟩ := bind_eq_ok.mp returned
    cases result
    unfold coreWrite at wrote
    split at wrote
    · cases wrote
      exact .inr rfl
    · obtain ⟨_, _, result⟩ := bind_eq_ok.mp wrote
      cases result
      exact .inl rfl
  | constCore cs =>
    cases returned
    exact .inr rfl
  | autoCore cs =>
    obtain ⟨⟨_, _⟩, wrote, result⟩ := bind_eq_ok.mp returned
    cases result
    unfold coreAutoWrite at wrote
    dsimp only at wrote
    split at wrote
    · cases wrote
      exact .inr rfl
    · obtain ⟨_, _, result⟩ := bind_eq_ok.mp wrote
      cases result
      exact .inl rfl
  | netSocket sock =>
    cases returned
    split
    · exact .inr rfl
    · exact .inl rfl

namespace DataSource

variable {origin ds after : DataSource} {start : Nat} {bytes : List UInt8} {finish : Nat}
  {name : List UInt8} {ver : Version}

theorem write_status {rv : Int} (returned : ds.write bytes = .ok (rv, after)) :
    rv = 0 ∨ rv = -1 := by
  obtain ⟨⟨status, counted⟩, called, result⟩ := bind_eq_ok.mp returned
  obtain ⟨⟨transfer, backend⟩, wrote, given⟩ := bind_eq_ok.mp called
  cases given
  cases result
  split
  · exact .inr rfl
  · exact Backend.write_status wrote

theorem writeScalar_of_writeScalarV {type : UInt32} {value : List UInt8} {rv : Int}
    (returned : ds.writeScalarV type value = .ok (rv, after)) (succeeded : rv ≠ -1) :
    ds.writeScalar type value = .ok after := by
  have behind {typed : DataSource} (typeWritten : ds.writeType type = .ok typed)
      (written : typed.write value = .ok (rv, after)) :
      ds.writeScalar type value = .ok after := by
    have zero := (write_status written).resolve_right succeeded
    rw [writeScalar, typeWritten, ok_bind, written, zero]
    rfl
  unfold writeScalarV at returned
  unfold writeType at behind
  split at returned
  case isTrue debug =>
    rw [if_pos debug] at behind
    obtain ⟨⟨coded, typed⟩, code, written⟩ := bind_eq_ok.mp returned
    dsimp only at written
    split at written
    case isTrue =>
      cases written
      exact absurd rfl succeeded
    case isFalse notFailed =>
      have zero := (write_status code).resolve_right notFailed
      rw [zero] at code
      refine behind ?_ written
      rw [writeTypeCode, code]
      rfl
  case isFalse plain =>
    rw [if_neg plain] at behind
    exact behind rfl returned

theorem writeVersion_wrote (writes : ds.backend.WritesAt start)
    (returned : ds.writeVersion name ver = .ok (0, after)) :
    ds.Wrote after start (ds.versionRecord name ver) := by
  obtain ⟨⟨named, first⟩, field, returned⟩ := bind_eq_ok.mp returned
  dsimp only at returned
  split at returned
  case isTrue => cases returned
  case isFalse named =>
    obtain ⟨⟨majored, second⟩, major, returned⟩ := bind_eq_ok.mp returned
    dsimp only at returned
    split at returned
    case isTrue => cases returned
    case isFalse majored =>
      obtain ⟨⟨minored, third⟩, minor, returned⟩ := bind_eq_ok.mp returned
      dsimp only at returned
      split at returned
      case isTrue => cases returned
      case isFalse minored =>
        cases returned
        rw [not_not.mp named] at field
        have nonempty : versionName name ≠ [] := by
          intro empty
          have length := length_versionName name
          rw [empty] at length
          cases length
        have wrote := writeP_wrote writes (fun empty => absurd empty nonempty) (write_eq_ok field)
        have wroteMajor :=
          leaves_writeUint32 ver.major _ _ _ _ wrote (writeScalar_of_writeScalarV major majored)
        have wroteBoth :=
          leaves_writeUint32 ver.minor _ _ _ _ wroteMajor
            (writeScalar_of_writeScalarV minor minored)
        rwa [List.append_assoc] at wroteBoth

theorem Pending.readVersion {rest asked : List UInt8}
    (pending : origin.Pending finish ds (origin.versionRecord name ver ++ rest))
    (short : name.length < versionNameMax) (noNul : 0 ∉ asked) (wanted : Version) :
    ∃ next, ds.readVersion asked wanted =
          .ok (if asked <+: name ∧ ver.major = wanted.major then some ver else none, next) ∧
        (asked <+: name → origin.Pending finish next rest) := by
  rw [versionRecord, List.append_assoc, List.append_assoc] at pending
  obtain ⟨named, field, pending⟩ := pending.read
  rw [length_versionName] at field
  obtain ⟨majored, major, pending⟩ := yields_readUint32v _ _ _ pending
  obtain ⟨next, minor, pending⟩ := yields_readUint32v _ _ _ pending
  by_cases starts : asked <+: name
  · refine ⟨next, ?_, fun _ => pending⟩
    simp only [DataSource.readVersion, field, major, minor, ok_bind,
      (take_versionName short noNul).mpr starts, starts, true_and, ne_eq, ite_not]
    rfl
  · refine ⟨named, ?_, fun given => absurd given starts⟩
    have differs : (versionName name).take asked.length ≠ asked :=
      fun same => starts ((take_versionName short noNul).mp same)
    simp only [DataSource.readVersion, field, ok_bind, differs, starts,
      false_and, ne_eq, not_true_eq_false, not_false_eq_true, if_false,
      if_true]
    rfl

theorem Healthy.writeVersion (healthy : ds.Healthy) (name : List UInt8) (ver : Version) :
    ∃ after, ds.writeVersion name ver = .ok (0, after) ∧ after.Healthy := by
  have scalar {ds : DataSource} (healthy : ds.Healthy) (type : UInt32) (value : List UInt8) :
      ∃ after, ds.writeScalarV type value = .ok (0, after) ∧ after.Healthy := by
    unfold writeScalarV
    split
    · obtain ⟨typed, _, code, healthyTyped⟩ :=
        healthy.write (ds.byteOrder.encode 4 type.toNat)
      obtain ⟨after, _, wrote, healthyAfter⟩ := healthyTyped.write value
      refine ⟨after, ?_, healthyAfter⟩
      rw [code, ok_bind]
      exact wrote
    · obtain ⟨after, _, wrote, healthyAfter⟩ := healthy.write value
      exact ⟨after, wrote, healthyAfter⟩
  obtain ⟨named, _, field, healthyNamed⟩ := healthy.write (versionName name)
  obtain ⟨majored, major, healthyMajored⟩ :=
    scalar healthyNamed sourceUint32 (named.byteOrder.encode 4 ver.major.toNat)
  obtain ⟨after, minor, healthyAfter⟩ :=
    scalar healthyMajored sourceUint32 (majored.byteOrder.encode 4 ver.minor.toNat)
  refine ⟨after, ?_, healthyAfter⟩
  simp only [DataSource.writeVersion, writeUint32v, field, major, minor, ok_bind]
  rfl

end DataSource

/-! ## Acceptance -/

/--
The record of a version is accepted for its own name and major number only,
and then read whole.
-/
def AcceptsOwn (back wrote : DataSource) (name : List UInt8) (ver : Version) (asked : List UInt8)
    (wanted : Version) : Prop :=
  ∃ result after, back.readVersion asked wanted = .ok (result, after) ∧
      (result.isSome ↔ asked = name ∧ wanted.major = ver.major) ∧
      ∀ got, result = some got → got = ver ∧ after.tell = wrote.tell

theorem DataSource.readVersion_written {ds wrote : DataSource} {start : Nat}
    {name asked : List UInt8} {ver : Version} (writes : ds.backend.WritesAt start)
    (addressable : start < 2 ^ 63) (written : ds.writeVersion name ver = .ok (0, wrote))
    (short : name.length < versionNameMax) (noNul : 0 ∉ asked) (wanted : Version) :
    ∃ back after, wrote.seek start .seekSet = (0, back) ∧ back.readVersion asked wanted =
          .ok (if asked <+: name ∧ ver.major = wanted.major then some ver else none, after) ∧
        (asked <+: name → after.tell = wrote.tell) := by
  have record := DataSource.writeVersion_wrote writes written
  have nonempty : ds.versionRecord name ver ≠ [] := by
    intro empty
    have length := length_versionName name
    rw [(List.append_eq_nil_iff.mp empty).1] at length
    cases length
  obtain ⟨back, sought, pending, reached⟩ := record.pending nonempty addressable
  rw [← List.append_nil (ds.versionRecord name ver)] at pending
  obtain ⟨after, read, behind⟩ := pending.readVersion short noNul wanted
  refine ⟨back, after, sought, read, fun starts => ?_⟩
  rw [(behind starts).cursor, reached, List.append_nil]

/--
The record of a version is accepted as its own only, exactly when the name that
is asked for is not the start of a longer name with the same major number: only
as many characters are compared as the name that is asked for has.
-/
theorem version_accepted_iff {ds wrote : DataSource} {start : Nat} {name asked : List UInt8}
    {ver wanted : Version} (writes : ds.backend.WritesAt start) (addressable : start < 2 ^ 63)
    (written : ds.writeVersion name ver = .ok (0, wrote)) (short : name.length < versionNameMax)
    (noNul : 0 ∉ asked) :
    ∃ back, wrote.seek start .seekSet = (0, back) ∧ (AcceptsOwn back wrote name ver asked wanted ↔
          (asked <+: name → asked = name ∨ wanted.major ≠ ver.major)) := by
  obtain ⟨back, after, sought, read, reached⟩ :=
    DataSource.readVersion_written writes addressable written short noNul wanted
  refine ⟨back, sought, ?_⟩
  constructor
  · rintro ⟨result, _, readToo, own, _⟩ starts
    rw [read] at readToo
    cases readToo
    by_cases major : ver.major = wanted.major
    · left
      rw [if_pos ⟨starts, major⟩] at own
      exact (own.mp rfl).1
    · exact .inr fun same => major same.symm
  · intro sound
    refine ⟨_, after, read, ?_, fun got given => ?_⟩
    · split
      case isTrue accepted =>
        refine iff_of_true rfl ⟨?_, accepted.2.symm⟩
        exact (sound accepted.1).resolve_right fun differ => differ accepted.2.symm
      case isFalse refused =>
        refine iff_of_false Bool.false_ne_true fun own => refused ?_
        exact ⟨own.1 ▸ List.prefix_refl _, own.2.symm⟩
    · split at given
      case isTrue accepted =>
        cases given
        exact ⟨rfl, reached accepted.1⟩
      case isFalse => cases given

theorem version_accepted_iff_own_name : ∃ wrote back,
      (DataSource.openFileHandle .zeroed ⟨[], 0, none⟩).writeVersion
          [65, 71] ⟨1, 2⟩ = .ok (0, wrote) ∧
        wrote.seek 0 .seekSet = (0, back) ∧
        AcceptsOwn back wrote [65, 71] ⟨1, 2⟩ [65, 71] ⟨1, 0⟩ := by
  obtain ⟨wrote, written, _⟩ :=
    (DataSource.openFileHandle_healthy .zeroed ⟨[], 0, none⟩ rfl).writeVersion [65, 71] ⟨1, 2⟩
  obtain ⟨back, sought, accepted⟩ :=
    @version_accepted_iff _ _ _ _ [65, 71] _ ⟨1, 0⟩
      (DataSource.openFileHandle_writesAt .zeroed ⟨[], 0, none⟩ rfl)
      (by decide) written (by decide) (by decide)
  exact ⟨wrote, back, written, sought, accepted.mpr fun _ => .inl rfl⟩

theorem version_of_longer_name_accepted : ∃ wrote back after,
      (DataSource.openFileHandle .zeroed ⟨[], 0, none⟩).writeVersion
          [65, 71, 95, 87, 105, 110, 100, 111, 119] ⟨1, 2⟩ = .ok (0, wrote) ∧
        wrote.seek 0 .seekSet = (0, back) ∧
        back.readVersion [65, 71, 95, 87] ⟨1, 2⟩ = .ok (some ⟨1, 2⟩, after) ∧
        ¬ AcceptsOwn back wrote [65, 71, 95, 87, 105, 110, 100, 111, 119] ⟨1, 2⟩
          [65, 71, 95, 87] ⟨1, 2⟩ := by
  obtain ⟨wrote, written, _⟩ :=
    (DataSource.openFileHandle_healthy .zeroed ⟨[], 0, none⟩ rfl).writeVersion
      [65, 71, 95, 87, 105, 110, 100, 111, 119] ⟨1, 2⟩
  obtain ⟨back, after, sought, read, _⟩ :=
    DataSource.readVersion_written (DataSource.openFileHandle_writesAt .zeroed ⟨[], 0, none⟩ rfl)
      (by decide) written (by decide)
      (show 0 ∉ [65, 71, 95, 87] by decide) ⟨1, 2⟩
  rw [if_pos (by decide)] at read
  refine ⟨wrote, back, after, written, sought, read, ?_⟩
  rintro ⟨result, _, readToo, own, _⟩
  rw [read] at readToo
  cases readToo
  exact absurd (own.mp rfl).1 (by decide)

end Agar.Core
