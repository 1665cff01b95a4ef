import Agar.Core.ClassReading
import Agar.Core.VersionRecord

namespace Agar.Core

open Agar.Lib

/-!
# Headers of object archives

The header of an archive holds the hierarchy and the libraries of the object's
class.  Its reader puts an `@` between them in the specification of the class;
`AG_ParseClassSpec` does not.
-/

/-- `AG_ObjectHeader` -/
structure ObjectHeader where
  cs : ObjectClassSpec
  dataOffs : UInt32
  ver : Version
  flags : UInt32
  deriving DecidableEq

/-- The specification that `AG_ObjectReadHeader` makes of what it has read -/
def headerClassSpec (hier : CString objectHierMax)
    (libs : CString objectLibsMax) : ObjectClassSpec where
  hier := hier
  libs := libs
  spec :=
    if libs.bytes = [] then .strlcpy hier.bytes
    else ((CString.strlcpy hier.bytes).strlcat [atSign]).strlcat libs.bytes
  name := .strlcpy (lastName hier.bytes)

namespace DataSource

/-- The class specification that `AG_ObjectReadHeader` reads -/
def readClassSpec (ds : DataSource) (ver : Version) : Except Stop (ObjectClassSpec × DataSource) :=
  if ver.minor ≥ 2 then do
    let (_, hier, ds) ← ds.copyString objectHierMax
    let (_, libs, ds) ← ds.copyString objectLibsMax
    return (headerClassSpec (.strlcpy hier) (.strlcpy libs), ds)
  else
    return ({
      hier := .strlcpy []
      libs := .strlcpy []
      spec := .strlcpy []
      name := .strlcpy []
    }, ds)

/-- `AG_ObjectReadHeader`, with no header where it returns -1 -/
def objectReadHeader (ds : DataSource) : Except Stop (Option ObjectHeader × DataSource) := do
  let (ver, ds) ← ds.readVersion agObjectClass.name.bytes agObjectClass.ver
  match ver with
  | none => return (none, ds)
  | some ver => do
      let (cs, ds) ← ds.readClassSpec ver
      let (dataOffs, ds) ← ds.readUint32
      let (flags, ds) ← ds.readUint32
      return (some { cs := cs, dataOffs := dataOffs, ver := ver, flags := flags }, ds)

/-- What `AG_ObjectSerialize` writes as a header, in front of other records -/
def objectWriteHeader (ds : DataSource) (cls : ObjectClass)
    (flags : UInt32) : Except Stop DataSource := do
  let (_, ds) ← ds.writeVersion agObjectClass.name.bytes agObjectClass.ver
  let ds ← ds.writeString cls.hier.bytes
  let ds ← ds.writeString cls.libs.bytes
  let ds ← ds.writeUint32 0
  ds.writeUint32 flags

/-- The record of a header -/
def headerRecord (ds : DataSource) (cls : ObjectClass) (dataOffs flags : UInt32) : List UInt8 :=
  ds.versionRecord agObjectClass.name.bytes agObjectClass.ver ++ (ds.stringRecord cls.hier.bytes ++
      (ds.stringRecord cls.libs.bytes ++ (ds.uintRecord sourceUint32 4 dataOffs.toNat ++
          ds.uintRecord sourceUint32 4 flags.toNat)))

variable {origin ds : DataSource} {finish start : Nat} {rest : List UInt8}

theorem Pending.copyString {size : Nat} (small : size ≤ 2 ^ 32) (s : CString size)
    (pending : origin.Pending finish ds (origin.stringRecord s.bytes ++ rest)) :
    ∃ next, ds.copyString size = .ok (s.bytes.length, s.bytes, next) ∧
        origin.Pending finish next rest := by
  obtain ⟨start, cursor, segment, _⟩ := pending.ahead
  have first := (Backend.segment_append.mp segment).1
  have same : ds.stringRecord s.bytes = origin.stringRecord s.bytes := by
    rw [stringRecord, stringRecord, pending.toSameSettings.typeCode, pending.byteOrder]
  rw [← same] at first
  have fits := s.fits
  obtain ⟨next, copied, consumed⟩ :=
    @copyString_segment _ _ size _ first
      (by rw [Nat.mod_eq_of_lt] <;> omega) cursor
  rw [same] at consumed
  exact ⟨next, copied, pending.of_consumed consumed⟩

theorem Pending.objectReadHeader (cls : ObjectClass) (dataOffs flags : UInt32)
    (pending : origin.Pending finish ds (origin.headerRecord cls dataOffs flags ++ rest)) :
    ∃ next, ds.objectReadHeader = .ok (some {
            cs := headerClassSpec cls.hier cls.libs
            dataOffs := dataOffs
            ver := agObjectClass.ver
            flags := flags
          }, next) ∧
        origin.Pending finish next rest := by
  rw [headerRecord, List.append_assoc, List.append_assoc, List.append_assoc,
    List.append_assoc] at pending
  obtain ⟨versioned, version, pending⟩ :=
    @Pending.readVersion _ _ _ _ _ _ agObjectClass.name.bytes pending
      (by decide) (by decide) agObjectClass.ver
  obtain ⟨hiered, hier, pending⟩ := (pending List.prefix_rfl).copyString (by decide) cls.hier
  obtain ⟨libbed, libs, pending⟩ := pending.copyString (by decide) cls.libs
  obtain ⟨offset, offs, pending⟩ := yields_readUint32 _ _ _ pending
  obtain ⟨next, flagged, pending⟩ := yields_readUint32 _ _ _ pending
  refine ⟨next, ?_, pending⟩
  rw [if_pos ⟨List.prefix_rfl, rfl⟩] at version
  have recent : agObjectClass.ver.minor ≥ 2 := by decide
  have spec : versioned.readClassSpec agObjectClass.ver =
        .ok (headerClassSpec cls.hier cls.libs, libbed) := by
    simp only [readClassSpec, if_pos recent, hier, libs, ok_bind, CString.strlcpy_bytes]
    rfl
  simp only [DataSource.objectReadHeader, version, ok_bind, spec, offs, flagged]
  rfl

theorem leaves_writeString (s : List UInt8) :
    origin.Leaves (fun ds => ds.writeString s) (origin.stringRecord s) := by
  intro ds start bytes after wrote returned
  have record := writeString_wrote wrote.stored.writes returned
  rw [stringRecord, wrote.toSameSettings.typeCode, wrote.byteOrder] at record
  exact wrote.trans record

theorem objectWriteHeader_wrote (healthy : ds.Healthy) (writes : ds.backend.WritesAt start)
    (cls : ObjectClass) (flags : UInt32) :
    ∃ wrote, ds.objectWriteHeader cls flags = .ok wrote ∧
        ds.Wrote wrote start (ds.headerRecord cls 0 flags) := by
  obtain ⟨versioned, version, healthy⟩ :=
    healthy.writeVersion agObjectClass.name.bytes agObjectClass.ver
  obtain ⟨hiered, hier, healthy⟩ := healthy.writeString cls.hier.bytes
  obtain ⟨libbed, libs, healthy⟩ := healthy.writeString cls.libs.bytes
  obtain ⟨offset, offs, healthy⟩ := completes_writeUint32 0 _ healthy
  obtain ⟨wrote, flagged, _⟩ := completes_writeUint32 flags _ healthy
  refine ⟨wrote, ?_, ?_⟩
  · simp only [objectWriteHeader, version, hier, libs, offs, flagged, ok_bind]
  · have wroteVersion := writeVersion_wrote writes version
    have wroteHier := leaves_writeString _ _ _ _ _ wroteVersion hier
    have wroteLibs := leaves_writeString _ _ _ _ _ wroteHier libs
    have wroteOffs := leaves_writeUint32 0 _ _ _ _ wroteLibs offs
    have wroteFlags := leaves_writeUint32 flags _ _ _ _ wroteOffs flagged
    simp only [List.append_assoc] at wroteFlags
    exact wroteFlags

/-- The header of an archive is read as it was saved. -/
theorem objectReadHeader_written (healthy : ds.Healthy) (writes : ds.backend.WritesAt start)
    (addressable : start < 2 ^ 63) (cls : ObjectClass) (flags : UInt32) :
    ∃ wrote back next, ds.objectWriteHeader cls flags = .ok wrote ∧
        wrote.seek start .seekSet = (0, back) ∧
        back.objectReadHeader = .ok (some {
            cs := headerClassSpec cls.hier cls.libs
            dataOffs := 0
            ver := agObjectClass.ver
            flags := flags
          }, next) := by
  obtain ⟨wrote, written, record⟩ := objectWriteHeader_wrote healthy writes cls flags
  have nonempty : ds.headerRecord cls 0 flags ≠ [] := by
    intro empty
    have length := length_versionName agObjectClass.name.bytes
    rw [headerRecord, List.append_eq_nil_iff, versionRecord, List.append_eq_nil_iff] at empty
    rw [empty.1.1] at length
    cases length
  obtain ⟨back, sought, pending, _⟩ := record.pending nonempty addressable
  rw [← List.append_nil (ds.headerRecord cls 0 flags)] at pending
  obtain ⟨next, read, _⟩ := pending.objectReadHeader
  exact ⟨wrote, back, next, written, sought, read⟩

theorem objectReadHeader_written_empty :
    ∃ wrote back next,
      (openFileHandle .zeroed ⟨[], 0, none⟩).objectWriteHeader agObjectClass 5 = .ok wrote ∧
        wrote.seek 0 .seekSet = (0, back) ∧
        back.objectReadHeader = .ok (some {
            cs := headerClassSpec agObjectClass.hier agObjectClass.libs
            dataOffs := 0
            ver := agObjectClass.ver
            flags := 5
          }, next) :=
  objectReadHeader_written (openFileHandle_healthy .zeroed ⟨[], 0, none⟩ rfl)
    (openFileHandle_writesAt .zeroed ⟨[], 0, none⟩ rfl) (by decide) agObjectClass 5

end DataSource

/-! ## Stability -/

/--
Parsing the specification again gives the same hierarchy, libraries and name;
and it is what the reader of a header makes of the hierarchy and libraries.
-/
def Stable (namespaceTbl : List ClassNamespace) (cs : ObjectClassSpec) : Prop :=
  (∃ again, parseClassSpec namespaceTbl cs.spec.bytes = .ok (some again) ∧
      again.hier = cs.hier ∧ again.libs = cs.libs ∧ again.name = cs.name) ∧
    cs.spec = (headerClassSpec cs.hier cs.libs).spec

/--
A hierarchy stands for itself as a specification: it names no libraries, and
has no `@` where it has no groups; the names of its groups, if it has any, fit
in a hierarchy and are joined to the same text, up to an `@`.
-/
def Settled (namespaceTbl : List ClassNamespace) (hier : List UInt8) : Prop :=
  libsOf hier = [] ∧ ∃ groups, groupsOf hier = some groups ∧ (groups = [] ∧ atSign ∉ hier ∨
          groups ≠ [] ∧ AllRegistered namespaceTbl groups ∧
            (joined (fullNamesOf namespaceTbl groups)).length + 1 < objectHierMax ∧
            withoutLibs (joined (fullNamesOf namespaceTbl groups)) = hier)

section Stability

variable {namespaceTbl : List ClassNamespace} {s hier : List UInt8}

theorem libs_bytes {libs : List UInt8} (noNul : 0 ∉ libs) :
    (CString.strlcpy libs : CString objectLibsMax).bytes = libs.take (objectLibsMax - 1) := by
  simp only [CString.strlcpy, cString_of_noNul noNul]

theorem libs_eq_of_field {libs field : List UInt8} (noNul : 0 ∉ libs)
    (few : field.length < objectLibsMax - 1) :
    (CString.strlcpy libs : CString objectLibsMax).bytes = field ↔ libs = field := by
  rw [libs_bytes noNul]
  constructor
  · intro same
    have length := congrArg List.length same
    rw [List.length_take] at length
    rw [← same, List.take_of_length_le (by omega)]
  · rintro rfl
    exact List.take_of_length_le few.le

theorem libsOf_noNul (noNul : 0 ∉ s) : 0 ∉ libsOf s := by
  by_cases none : libsOf s = []
  · rw [none]
    exact List.not_mem_nil
  · obtain ⟨front, shape⟩ := libsFrom_suffix none
    intro nul
    apply noNul
    rw [shape]
    exact List.mem_append_right front (List.mem_cons_of_mem atSign nul)

theorem settled_iff (short : hier.length < objectHierMax) : Settled namespaceTbl hier ↔
      Readable namespaceTbl hier ∧ hierarchyOf namespaceTbl hier = hier ∧ libsOf hier = [] := by
  constructor
  · rintro ⟨noLibs, groups, read, ⟨rfl, noAt⟩ | ⟨some, known, room, same⟩⟩
    · refine ⟨⟨short, [], read, fun _ member => ?_, ?_⟩, ?_, noLibs⟩
      · cases member
      · change 0 < objectHierMax
        decide
      · rw [hierarchyOf, expansion, read]
        exact withoutLibs_of_not_mem noAt
    · obtain ⟨group, groups, rfl⟩ := List.exists_cons_of_ne_nil some
      refine ⟨⟨short, _, read, known, ?_⟩, ?_, noLibs⟩
      · rw [appendedGroups, flatMap_colon (fullNamesOf_ne_nil known), List.length_append]
        exact room
      · rw [hierarchyOf, expansion, read]
        exact same
  · rintro ⟨⟨_, groups, read, known, room⟩, same, noLibs⟩
    refine ⟨noLibs, groups, read, ?_⟩
    rw [hierarchyOf, expansion, read] at same
    cases groups with
    | nil => exact .inl ⟨rfl, withoutLibs_eq_self.mp same⟩
    | cons group groups =>
      rw [appendedGroups, flatMap_colon (fullNamesOf_ne_nil known), List.length_append] at room
      exact .inr ⟨List.cons_ne_nil _ _, known, room, same⟩

theorem length_hierarchyOf_lt (readable : Readable namespaceTbl s) (some : libsOf s ≠ []) :
    (hierarchyOf namespaceTbl s).length + 1 < objectHierMax := by
  obtain ⟨groups, read, known, room⟩ := readable.groups
  have short := readable.short
  rw [hierarchyOf, expansion, read]
  cases groups with
  | nil =>
    obtain ⟨front, shape⟩ := libsFrom_suffix some
    have isAt : atSign ∈ s := by
      rw [shape]
      exact List.mem_append_right front List.mem_cons_self
    have shorter : (withoutLibs s).length < s.length := by
      refine lt_of_le_of_ne (withoutLibs_prefixOf s).length_le fun same => ?_
      exact withoutLibs_eq_self.mp ((withoutLibs_prefixOf s).eq_of_length same) isAt
    change (withoutLibs s).length + 1 < objectHierMax
    omega
  | cons group groups =>
    rw [appendedGroups, flatMap_colon (fullNamesOf_ne_nil known), List.length_append] at room
    have front := withoutLibs_prefixOf (joined (fullNamesOf namespaceTbl (group :: groups)))
    exact Nat.lt_of_le_of_lt (Nat.succ_le_succ front.length_le) room

theorem truncated_at {front back : List UInt8} {n : Nat} (short : front.length < n)
    (some : back ≠ []) (same : (front ++ back).take n = (front ++ atSign :: back).take n) :
    ∃ more, back = atSign :: more ∧ (front.length + 1 = n ∨ more ≠ []) := by
  obtain ⟨c, more, rfl⟩ := List.exists_cons_of_ne_nil some
  obtain ⟨room, rfl⟩ : ∃ room, n = front.length + (room + 1) := ⟨n - front.length - 1, by omega⟩
  rw [List.take_length_add_append, List.take_length_add_append,
    List.append_cancel_left_eq, List.take_succ_cons, List.take_succ_cons,
    List.cons.injEq] at same
  obtain ⟨rfl, later⟩ := same
  refine ⟨more, rfl, ?_⟩
  cases room with
  | zero => exact .inl rfl
  | succ room =>
    right
    rintro rfl
    cases later

theorem spec_eq {cs : ObjectClassSpec}
    (spec : cs.spec = if cs.libs.bytes = [] then cs.hier else cs.hier.strlcat cs.libs.bytes)
    (some : cs.libs.bytes ≠ []) :
    cs.spec.bytes = (cs.hier.bytes ++ cs.libs.bytes).take (objectHierMax - 1) := by
  have noNul : 0 ∉ cs.hier.bytes ++ cs.libs.bytes := by
    rw [List.mem_append, not_or]
    exact ⟨cs.hier.noNul, cs.libs.noNul⟩
  rw [spec, if_neg some]
  simp only [CString.strlcat, CString.strlcpy, cString_of_noNul noNul]

theorem headerClassSpec_spec {cs : ObjectClassSpec} (some : cs.libs.bytes ≠ []) :
    (headerClassSpec cs.hier cs.libs).spec.bytes =
      (cs.hier.bytes ++ atSign :: cs.libs.bytes).take (objectHierMax - 1) := by
  have noNulAt : 0 ∉ cs.hier.bytes ++ [atSign] := by
    rw [List.mem_append, not_or]
    exact ⟨cs.hier.noNul, by decide⟩
  have noNul : 0 ∉ cs.hier.bytes ++ [atSign] ++ cs.libs.bytes := by
    rw [List.mem_append, not_or]
    exact ⟨noNulAt, cs.libs.noNul⟩
  have together : (headerClassSpec cs.hier cs.libs).spec =
        .strlcpy (cs.hier.bytes ++ [atSign] ++ cs.libs.bytes) := by
    rw [← CString.strlcat_strlcpy noNulAt, ← CString.strlcat_strlcpy cs.hier.noNul]
    exact if_neg some
  rw [together]
  simp only [CString.strlcpy, cString_of_noNul noNul]
  rw [List.append_assoc, List.singleton_append]

theorem hierarchyOf_at_end {front : List UInt8}
    (ends : hierarchyOf namespaceTbl s = front ++ [atSign]) :
    (hierarchyOf namespaceTbl s).length + 1 ≤ (expansion namespaceTbl s).length := by
  rw [hierarchyOf] at ends ⊢
  cases found : splitLast atSign (expansion namespaceTbl s) with
  | none =>
    have noAt := splitLast_eq_none.mp found
    rw [withoutLibs_of_not_mem noAt] at ends
    rw [ends] at noAt
    exact absurd (List.mem_append_right front (List.mem_singleton_self atSign)) noAt
  | some parts =>
    obtain ⟨front, back⟩ := parts
    have length := congrArg List.length (splitLast_eq_some found).1
    rw [List.length_append, List.length_cons] at length
    rw [withoutLibs, found]
    change front.length + 1 ≤ _
    omega

theorem doubled_of_stable (strings : ∀ entry ∈ namespaceTbl, 0 ∉ entry.pfx) (noNul : 0 ∉ s)
    {cs : ObjectClassSpec} (accepted : parseClassSpec namespaceTbl s = .ok (some cs))
    (named : libsOf s ≠ []) (stable : Stable namespaceTbl cs) :
    groupsOf s = some [] ∧ s.length + 1 = objectHierMax ∧ libsOf s = [atSign] := by
  obtain ⟨readable, hier, libs, spec, _⟩ := parseClassSpec_reads strings noNul accepted
  obtain ⟨⟨again, parsed, _, sameLibs, _⟩, sameSpec⟩ := stable
  have libsNoNul := libsOf_noNul noNul
  have someLibs : cs.libs.bytes ≠ [] := by
    rw [libs, ne_eq, libs_eq_of_field libsNoNul (by decide)]
    exact named
  have room := length_hierarchyOf_lt readable named
  rw [← hier] at room
  have specBytes := spec_eq spec someLibs
  have headerBytes := headerClassSpec_spec someLibs
  rw [← sameSpec, specBytes] at headerBytes
  obtain ⟨more, starts, longest⟩ := truncated_at (Nat.lt_sub_of_add_lt room) someLibs headerBytes
  -- the libraries are a single `@`
  have isAt : libsOf s = [atSign] := by
    obtain ⟨c, others, shape⟩ := List.exists_cons_of_ne_nil named
    rw [libs, libs_bytes libsNoNul, shape] at starts
    obtain ⟨rfl, _⟩ := List.cons.inj starts
    rw [shape, libsFrom_eq_at shape]
  have field : cs.libs.bytes = [atSign] := by
    rw [libs, libs_eq_of_field libsNoNul (by decide)]
    exact isAt
  rw [field, List.cons.injEq] at starts
  have length : cs.hier.bytes.length + 1 = objectHierMax - 1 :=
    longest.resolve_right fun other => other starts.2.symm
  -- it is read again only behind another one
  have whole : cs.spec.bytes = cs.hier.bytes ++ [atSign] := by
    rw [specBytes, field, List.take_of_length_le]
    rw [List.length_append, List.length_singleton, length]
  have specNoNul := cs.spec.noNul
  obtain ⟨_, _, libsAgain, _⟩ := parseClassSpec_reads strings specNoNul parsed
  have rereadAt : libsOf cs.spec.bytes = [atSign] := by
    rw [← libs_eq_of_field (libsOf_noNul specNoNul) (by decide), ← libsAgain, sameLibs, field]
  obtain ⟨front, shape⟩ :=
    @libsFrom_suffix false cs.spec.bytes (by
      rw [← libsOf, rereadAt]
      exact List.cons_ne_nil _ _)
  rw [← libsOf, rereadAt, whole, List.append_cons front, List.append_cancel_right_eq, hier] at shape
  -- so the hierarchy is not that of groups
  have long := hierarchyOf_at_end shape
  rw [← hier, length] at long
  obtain ⟨groups, read, known, fits⟩ := readable.groups
  have short := readable.short
  cases groups with
  | nil =>
    rw [expansion, read] at long
    refine ⟨read, ?_, isAt⟩
    change objectHierMax - 1 ≤ s.length at long
    omega
  | cons group groups =>
    rw [appendedGroups, flatMap_colon (fullNamesOf_ne_nil known),
      List.length_append, List.length_singleton] at fits
    rw [expansion, read] at long
    change objectHierMax - 1 ≤ (joined _).length at long
    omega

theorem stable_of_doubled (strings : ∀ entry ∈ namespaceTbl, 0 ∉ entry.pfx) (noNul : 0 ∉ s)
    {cs : ObjectClassSpec} (accepted : parseClassSpec namespaceTbl s = .ok (some cs))
    (noGroups : groupsOf s = some []) (longest : s.length + 1 = objectHierMax)
    (isAt : libsOf s = [atSign]) : Stable namespaceTbl cs := by
  obtain ⟨_, hier, libs, spec, _⟩ := parseClassSpec_reads strings noNul accepted
  have field : cs.libs.bytes = [atSign] := by
    rw [libs, libs_eq_of_field (libsOf_noNul noNul) (by decide)]
    exact isAt
  have someLibs : cs.libs.bytes ≠ [] := by
    rw [field]
    exact List.cons_ne_nil _ _
  obtain ⟨front, shape⟩ :=
    @libsFrom_suffix false s (by
      rw [← libsOf, isAt]
      exact List.cons_ne_nil _ _)
  rw [← libsOf, isAt, List.append_cons front] at shape
  have isHier : cs.hier.bytes = front ++ [atSign] := by
    rw [hier, hierarchyOf, expansion, noGroups]
    change withoutLibs s = _
    rw [shape]
    exact withoutLibs_append _ List.not_mem_nil
  have length : (cs.hier.bytes ++ [atSign]).length = objectHierMax - 1 := by
    rw [isHier, ← shape]
    omega
  have whole : cs.spec.bytes = s := by
    rw [spec_eq spec someLibs, field, List.take_of_length_le length.le, isHier, ← shape]
  refine ⟨⟨cs, by rw [whole, accepted], rfl, rfl, rfl⟩, CString.ext ?_⟩
  have both : cs.hier.bytes ++ [atSign, atSign] = (cs.hier.bytes ++ [atSign]) ++ [atSign] :=
    List.append_cons _ _ _
  rw [headerClassSpec_spec someLibs, spec_eq spec someLibs, field, both,
    ← length, List.take_left, List.take_length]

end Stability

/--
An accepted specification is stable if and only if it names no libraries and
its hierarchy stands for itself; or it is as long as it can be, has no groups,
and its libraries are the second one of two `@` at its end.
-/
theorem spec_stable_iff (namespaceTbl : List ClassNamespace)
    (strings : ∀ entry ∈ namespaceTbl, 0 ∉ entry.pfx) (s : List UInt8) (noNul : 0 ∉ s)
    (cs : ObjectClassSpec) (accepted : parseClassSpec namespaceTbl s = .ok (some cs)) :
    Stable namespaceTbl cs ↔ libsOf s = [] ∧ Settled namespaceTbl (hierarchyOf namespaceTbl s) ∨
        groupsOf s = some [] ∧ s.length + 1 = objectHierMax ∧ libsOf s = [atSign] := by
  obtain ⟨readable, hier, libs, spec, name⟩ := parseClassSpec_reads strings noNul accepted
  have libsNoNul := libsOf_noNul noNul
  by_cases none : libsOf s = []
  · -- the specification is the hierarchy
    have noLibs : cs.libs.bytes = [] := by
      rw [libs, none]
      decide
    rw [if_pos noLibs] at spec
    have header : cs.spec = (headerClassSpec cs.hier cs.libs).spec := by
      rw [spec, headerClassSpec, if_pos noLibs, CString.strlcpy_bytes]
    have short := cs.hier.fits
    have hierNoNul := cs.hier.noNul
    rw [hier] at short hierNoNul
    rw [Stable, and_iff_left header, spec, hier, settled_iff short]
    constructor
    · rintro ⟨again, parsed, sameHier, sameLibs, _⟩
      obtain ⟨readableAgain, hierAgain, libsAgain, _⟩ :=
        parseClassSpec_reads strings hierNoNul parsed
      refine .inl ⟨none, readableAgain, ?_, ?_⟩
      · rw [← hierAgain, sameHier, hier]
      · rw [← libs_eq_of_field (libsOf_noNul hierNoNul) (by decide), ← libsAgain, sameLibs, noLibs]
    · rintro (⟨_, readableAgain, itself, noneAgain⟩ | ⟨_, _, isAt⟩)
      · obtain ⟨again, parsed⟩ :=
          parseClassSpec_of_readable hierNoNul readableAgain
        obtain ⟨_, hierAgain, libsAgain, _, nameAgain⟩ :=
          parseClassSpec_reads strings hierNoNul parsed
        have sameHier : again.hier = cs.hier := CString.ext (by rw [hierAgain, itself, hier])
        refine ⟨again, parsed, sameHier, ?_, ?_⟩
        · rw [libsAgain, libs, noneAgain, none]
        · rw [nameAgain, name, sameHier]
      · rw [none] at isAt
        cases isAt
  · constructor
    · exact fun stable => .inr (doubled_of_stable strings noNul accepted none stable)
    · rintro (⟨noLibs, _⟩ | ⟨noGroups, longest, isAt⟩)
      · exact absurd noLibs none
      · exact stable_of_doubled strings noNul accepted noGroups longest isAt

theorem spec_stable_iff_button : ∃ cs,
      parseClassSpec [agarNamespace] (ascii "Agar(Widget:Button)") = .ok (some cs) ∧
        Stable [agarNamespace] cs := by
  have parses : ((parseClassSpec [agarNamespace] (ascii "Agar(Widget:Button)")).toOption.bind
        id).isSome := by
    decide +kernel
  obtain ⟨cs, found⟩ := Option.isSome_iff_exists.mp parses
  obtain ⟨_, parsed, rfl⟩ := Option.bind_eq_some_iff.mp found
  have accepted := toOption_eq_some.mp parsed
  have isHier : hierarchyOf [agarNamespace] (ascii "Agar(Widget:Button)") =
        ascii "AG_Widget:AG_Button" := by
    decide +kernel
  refine ⟨cs, accepted, (spec_stable_iff [agarNamespace] (by decide) _
    (by decide +kernel) cs accepted).mpr (.inl ⟨by decide +kernel, ?_⟩)⟩
  rw [isHier]
  exact ⟨by decide +kernel, [], by decide +kernel, .inl ⟨rfl, by decide +kernel⟩⟩

theorem libraries_not_stable : ∃ cs, parseClassSpec [agarNamespace] (ascii "Agar(Widget)@ag_gui") =
          .ok (some cs) ∧
        cs.spec.bytes = ascii "AG_Widgetag_gui" ∧
        (headerClassSpec cs.hier cs.libs).spec.bytes = ascii "AG_Widget@ag_gui" ∧
        ¬ Stable [agarNamespace] cs := by
  have parses : ((parseClassSpec [agarNamespace] (ascii "Agar(Widget)@ag_gui")).toOption.bind
        id).map (fun cs => (cs.spec.bytes, (headerClassSpec cs.hier cs.libs).spec.bytes)) =
      some (ascii "AG_Widgetag_gui", ascii "AG_Widget@ag_gui") := by
    decide +kernel
  obtain ⟨cs, found, texts⟩ := Option.map_eq_some_iff.mp parses
  obtain ⟨_, parsed, rfl⟩ := Option.bind_eq_some_iff.mp found
  rw [Prod.mk.injEq] at texts
  refine ⟨cs, toOption_eq_some.mp parsed, texts.1, texts.2, fun stable => ?_⟩
  have same := congrArg CString.bytes stable.2
  rw [texts.1, texts.2] at same
  exact absurd same (by decide +kernel)

end Agar.Core
