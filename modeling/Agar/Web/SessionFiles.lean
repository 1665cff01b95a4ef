import Agar.Web.Session

namespace Agar.Web

open Agar.Lib
open Agar.Core

/-!
# Reloading sessions

Whether a session that was saved to a file can be loaded from it.  The
variables, the event counter and what the session manager adds are all found
where they were written; but a session is refused that has no variable, and
one that has more of them than `WEB_SESSION_VARIABLES_MAX`, which the
functions that set variables do not check.
-/

/-- A call that sets a variable. -/
inductive SessionCall where
  | setSV (key text : List UInt8)
  | setSVS (key s : List UInt8)

namespace SessionCall

/-- The key of the variable. -/
def key : SessionCall → List UInt8
  | setSV key _ | setSVS key _ => key

/-- Make the call. -/
def call {δ : Type} (S : Session δ) : SessionCall → Session δ
  | setSV key text => S.setSV key text
  | setSVS key s => S.setSVS key s

/-- The key is a string that fits in a variable. -/
def FitsKey (call : SessionCall) : Prop := 0 ∉ call.key ∧ call.key.length < sessionVarKeyMax

end SessionCall

namespace Session

variable {δ : Type}

/-- Make calls, in order. -/
def callAll (S : Session δ) (calls : List SessionCall) : Session δ :=
  calls.foldl (fun S call => call.call S) S

/-- The keys of the variables. -/
def keys (S : Session δ) : List (List UInt8) := S.vars.map fun SV => SV.key.bytes

/-! ## What is set -/

/-- The variables have keys of their own, and are counted. -/
structure Counted (S : Session δ) : Prop where
  once : S.keys.Nodup
  count : S.nVars = UInt32.ofNat S.vars.length

theorem counted_init (ops : SessionOps δ) : (init ops).Counted where
  once := List.nodup_nil
  count := rfl

theorem keys_assign (S : Session δ) {key : List UInt8} (noNul : 0 ∉ key)
    (fits : key.length < sessionVarKeyMax) (value : CString sessionVarValueMax) :
    (S.assign key value).keys = if key ∈ S.keys then S.keys else S.keys ++ [key] := by
  rw [assign]
  cases found : S.vars.find? fun SV => SV.key.bytes = key with
  | none =>
    have absent : key ∉ S.keys := by
      intro member
      obtain ⟨SV, listed, same⟩ := List.mem_map.mp member
      exact List.find?_eq_none.mp found SV listed (decide_eq_true same)
    rw [if_neg absent, keys, List.map_append, List.map_singleton]
    have stored : (CString.strlcpy key : CString sessionVarKeyMax).bytes = key :=
      CString.strlcpy_bytes_of_fits noNul fits
    rw [stored]
    rfl
  | some SV =>
    have present : key ∈ S.keys := by
      have selected := List.find?_some found
      exact List.mem_map.mpr ⟨SV, List.mem_of_find?_eq_some found, of_decide_eq_true selected⟩
    rw [if_pos present]
    apply map_updateFirst
    intro SV
    rfl

theorem Counted.assign {S : Session δ} (counted : S.Counted) {key : List UInt8} (noNul : 0 ∉ key)
    (fits : key.length < sessionVarKeyMax) (value : CString sessionVarValueMax) :
    (S.assign key value).Counted where
  once := by
    rw [keys_assign S noNul fits]
    split
    case isTrue => exact counted.once
    case isFalse absent =>
      apply List.nodup_append.mpr
      refine ⟨counted.once, List.nodup_singleton key, ?_⟩
      rintro old listed new member rfl
      rw [List.mem_singleton.mp member] at listed
      exact absent listed
  count := by
    rw [Session.assign]
    split
    · rw [length_updateFirst]
      exact counted.count
    · simp only [counted.count, List.length_append, List.length_singleton]
      exact (UInt32.ofNat_add ..).symm

theorem Counted.callAll {S : Session δ} (counted : S.Counted) {calls : List SessionCall}
    (fit : ∀ call ∈ calls, call.FitsKey) :
    (S.callAll calls).Counted ∧ (S.callAll calls).keys.toFinset =
        S.keys.toFinset ∪ (calls.map SessionCall.key).toFinset := by
  induction calls generalizing S with
  | nil =>
    refine ⟨counted, ?_⟩
    rw [List.map_nil, List.toFinset_nil, Finset.union_empty]
    rfl
  | cons call rest ih =>
    obtain ⟨noNul, fits⟩ := fit call List.mem_cons_self
    obtain ⟨value, made⟩ : ∃ value, call.call S = S.assign call.key value := by
      cases call <;> exact ⟨_, rfl⟩
    have after : (call.call S).Counted := by
      rw [made]
      exact counted.assign noNul fits value
    have keysAfter : (call.call S).keys.toFinset = insert call.key S.keys.toFinset := by
      rw [made, keys_assign S noNul fits]
      split
      case isTrue present => rw [Finset.insert_eq_of_mem (List.mem_toFinset.mpr present)]
      case isFalse =>
        rw [List.toFinset_append, List.toFinset_cons, List.toFinset_nil,
          insert_empty_eq, Finset.union_comm, Finset.insert_eq]
    obtain ⟨countedAll, keysAll⟩ :=
      ih after fun call member => fit call (List.mem_cons_of_mem _ member)
    refine ⟨countedAll, ?_⟩
    rw [List.map_cons, List.toFinset_cons, Finset.union_insert, ← Finset.insert_union, ← keysAfter]
    exact keysAll

theorem length_vars_callAll (ops : SessionOps δ) {calls : List SessionCall}
    (fit : ∀ call ∈ calls, call.FitsKey) :
    ((init ops).callAll calls).vars.length = (calls.map SessionCall.key).toFinset.card := by
  obtain ⟨counted, keysAll⟩ := (counted_init ops).callAll fit
  have initial : (init ops).keys = [] := rfl
  rw [initial, List.toFinset_nil, Finset.empty_union] at keysAll
  rw [← keysAll, List.toFinset_card_of_nodup counted.once, keys, List.length_map]

/-! ## What is written -/

/-- The record of a variable. -/
def varRecord (ds : DataSource) (SV : SessionVar) : List UInt8 :=
  ds.stringRecord SV.key.bytes ++ ds.stringRecord SV.value.bytes

/-- The record of a `Uint32`. -/
def uint32Record (ds : DataSource) (value : UInt32) : List UInt8 :=
  ds.typeCode sourceUint32 ++ ds.byteOrder.encode 4 value.toNat

theorem varRecord_of_sameSettings {ds after : DataSource} (same : ds.SameSettings after) :
    varRecord after = varRecord ds := by
  funext SV
  rw [varRecord, varRecord, DataSource.stringRecord, DataSource.stringRecord,
    DataSource.stringRecord, DataSource.stringRecord, same.typeCode,
    same.byteOrder]

theorem uint32Record_of_sameSettings {ds after : DataSource} (same : ds.SameSettings after) :
    uint32Record after = uint32Record ds := by
  funext value
  rw [uint32Record, uint32Record, same.typeCode, same.byteOrder]

/-- Some bytes are written to a file, which keeps its settings. -/
structure Adds (origin ds after : DataSource) (start : Nat) (bytes : List UInt8) : Prop where
  same : origin.SameSettings after
  wrote : ds.Wrote after start bytes
  file : after.FileAt (start + bytes.length)

theorem writeUint32_adds {origin ds : DataSource} {start : Nat} (same : origin.SameSettings ds)
    (file : ds.FileAt start) (value : UInt32) :
    ∃ after, ds.writeUint32 value = .ok after ∧
        Adds origin ds after start (uint32Record origin value) := by
  obtain ⟨after, written, wrote, healthy⟩ := file.writeUint32 value
  rw [← uint32Record_of_sameSettings same]
  exact ⟨after, written, same.trans wrote.toSameSettings, wrote, .behind wrote healthy⟩

theorem writeVar_adds {origin ds : DataSource} {start : Nat} (same : origin.SameSettings ds)
    (file : ds.FileAt start) (SV : SessionVar) :
    ∃ keyed after, ds.writeString SV.key.bytes = .ok keyed ∧
        keyed.writeString SV.value.bytes = .ok after ∧
        Adds origin ds after start (varRecord origin SV) := by
  obtain ⟨keyed, key, keyRecord, healthyKeyed⟩ := file.writeString SV.key.bytes
  obtain ⟨after, value, valueRecord, healthyAfter⟩ :=
    (DataSource.FileAt.behind keyRecord healthyKeyed).writeString SV.value.bytes
  have sameString : keyed.stringRecord SV.value.bytes = ds.stringRecord SV.value.bytes := by
    rw [DataSource.stringRecord, DataSource.stringRecord,
      keyRecord.toSameSettings.typeCode, keyRecord.byteOrder]
  rw [sameString] at valueRecord
  have record := keyRecord.trans valueRecord
  rw [← varRecord_of_sameSettings same]
  exact ⟨keyed, after, key, value, same.trans record.toSameSettings, record,
    .behind record healthyAfter⟩

theorem saveVars_adds {vars : List SessionVar} {origin ds : DataSource} {start : Nat}
    (same : origin.SameSettings ds) (file : ds.FileAt start) :
    ∃ after, saveVars vars ds = .ok after ∧
        Adds origin ds after start (vars.flatMap (varRecord origin)) := by
  induction vars generalizing ds start with
  | nil => exact ⟨ds, rfl, same, file.refl, file⟩
  | cons SV rest ih =>
    obtain ⟨keyed, valued, key, value, first⟩ := writeVar_adds same file SV
    obtain ⟨after, saved, later⟩ := ih first.same first.file
    have record := first.wrote.trans later.wrote
    refine ⟨after, ?_, later.same, record, .behind record later.file.healthy⟩
    rw [saveVars]
    simp only [key, value, saved, bind, Except.bind]

/-- The record of a session, up to what the session manager adds. -/
def sessionRecord (S : Session δ) (ds : DataSource) : List UInt8 :=
  uint32Record ds sessionDataMagic ++ (uint32Record ds S.nVars ++
      (S.vars.flatMap (varRecord ds) ++ uint32Record ds S.nEvents))

theorem saveToFD_wrote {ops : SessionOps δ} {S : Session δ} (undoes : ops.LoadUndoesSave S.data)
    (allocation : Allocation) (old : List UInt8) :
    ∃ ds wrote bytes, DataSource.openFileHandle allocation ⟨old, 0, none⟩ = ds ∧
        S.saveToFD ops allocation ⟨old, 0, none⟩ = .ok (0, wrote) ∧
        ds.Wrote wrote 0 (S.sessionRecord ds ++ bytes) ∧
        ∀ back, ds.SameSettings back → back.backend.Segment (S.sessionRecord ds).length bytes →
          back.tell = (S.sessionRecord ds).length → ∃ after,
              ops.loadData ops.initial back = .ok (0, S.data, after) := by
  have opened := DataSource.openFileHandle_fileAt allocation old
  generalize ready : DataSource.openFileHandle allocation ⟨old, 0, none⟩ = ds at opened
  obtain ⟨headed, magic, magicRecord⟩ := writeUint32_adds ⟨rfl, rfl⟩ opened sessionDataMagic
  obtain ⟨counted, count, countRecord⟩ := writeUint32_adds magicRecord.same magicRecord.file S.nVars
  obtain ⟨stored, vars, varsRecord⟩ := @saveVars_adds S.vars _ _ _ countRecord.same countRecord.file
  obtain ⟨evented, events, eventsRecord⟩ :=
    writeUint32_adds varsRecord.same varsRecord.file S.nEvents
  have record : ds.Wrote evented 0 (S.sessionRecord ds) :=
    magicRecord.wrote.trans (countRecord.wrote.trans (varsRecord.wrote.trans eventsRecord.wrote))
  obtain ⟨wrote, bytes, saved, dataRecord, loads⟩ :=
    undoes evented _ (.behind record eventsRecord.file.healthy)
  rw [Nat.zero_add] at loads
  refine ⟨ds, wrote, bytes, rfl, ?_, record.trans dataRecord, ?_⟩
  · simp only [saveToFD, ready, magic, count, vars, events, saved, bind, Except.bind]
    rfl
  · intro back same
    exact loads back (eventsRecord.same.symm.trans same)

/-! ## What is read -/

/-- Some bytes are read from a source, which keeps its settings. -/
structure Takes (origin ds after : DataSource) (start : Nat) (bytes : List UInt8) : Prop where
  same : origin.SameSettings after
  cursor : after.tell = (start + bytes.length : Nat)
  kept : ds.backend.Keeps after.backend fun _ _ => True

theorem readUint32_takes {origin ds : DataSource} {start : Nat} {value : UInt32}
    (same : origin.SameSettings ds) (segment : ds.backend.Segment start (uint32Record origin value))
    (cursor : ds.tell = start) :
    ∃ after, ds.readUint32 = .ok (value, after) ∧
        Takes origin ds after start (uint32Record origin value) := by
  rw [← uint32Record_of_sameSettings same] at segment ⊢
  obtain ⟨after, read, taken⟩ := DataSource.readUint32_segment segment value.toNat_lt cursor
  rw [UInt32.ofNat_toNat] at read
  refine ⟨after, read, same.trans taken.toSameSettings, ?_, taken.kept⟩
  rw [taken.cursor, cursor, Nat.cast_add]
  rfl

theorem copyVar_takes {origin ds : DataSource} {start : Nat} {SV : SessionVar}
    (same : origin.SameSettings ds) (segment : ds.backend.Segment start (varRecord origin SV))
    (cursor : ds.tell = start) :
    ∃ keyed after, ds.copyString sessionVarKeyMax = .ok (SV.key.bytes.length, SV.key.bytes, keyed) ∧
        keyed.copyString sessionVarValueMax = .ok (SV.value.bytes.length, SV.value.bytes, after) ∧
        Takes origin ds after start (varRecord origin SV) := by
  rw [← varRecord_of_sameSettings same] at segment ⊢
  obtain ⟨first, second⟩ := Backend.segment_append.mp segment
  have keyFits : SV.key.bytes.length ≤ (sessionVarKeyMax - 1) % 2 ^ 32 :=
    Nat.le_of_lt_succ SV.key.fits
  have valueFits : SV.value.bytes.length ≤ (sessionVarValueMax - 1) % 2 ^ 32 :=
    Nat.le_of_lt_succ SV.value.fits
  obtain ⟨keyed, key, keyTaken⟩ := DataSource.copyString_segment first keyFits cursor
  have sameString : keyed.stringRecord SV.value.bytes = ds.stringRecord SV.value.bytes := by
    rw [DataSource.stringRecord, DataSource.stringRecord,
      keyTaken.toSameSettings.typeCode, keyTaken.byteOrder]
  have behind := keyTaken.kept _ _ second trivial
  rw [← sameString] at behind
  obtain ⟨after, value, valueTaken⟩ :=
    DataSource.copyString_segment behind valueFits (by rw [keyTaken.cursor, cursor, Nat.cast_add])
  rw [sameString] at valueTaken
  have taken := keyTaken.trans valueTaken
  refine ⟨keyed, after, key, value, same.trans taken.toSameSettings, ?_, taken.kept⟩
  rw [taken.cursor, cursor, varRecord, List.length_append, Nat.cast_add start]

theorem loadVars_takes {vars : List SessionVar} {S : Session δ} {origin ds : DataSource}
    {start : Nat} (same : origin.SameSettings ds)
    (segment : ds.backend.Segment start (vars.flatMap (varRecord origin)))
    (cursor : ds.tell = start) :
    ∃ after, loadVars vars.length S ds =
          .ok ({ S with
            vars := S.vars ++ vars
            nVars := S.nVars + UInt32.ofNat vars.length }, after) ∧
        Takes origin ds after start (vars.flatMap (varRecord origin)) := by
  induction vars generalizing S ds start with
  | nil =>
    have none : S.nVars + UInt32.ofNat 0 = S.nVars := UInt32.add_zero _
    rw [List.append_nil, List.length_nil, none]
    exact ⟨ds, rfl, same, cursor, fun _ _ segment _ => segment⟩
  | cons SV rest ih =>
    rw [List.flatMap_cons] at segment ⊢
    obtain ⟨first, later⟩ := Backend.segment_append.mp segment
    obtain ⟨keyed, valued, key, value, taken⟩ := copyVar_takes same first cursor
    obtain ⟨after, loaded, restTaken⟩ := ih taken.same (taken.kept _ _ later trivial) taken.cursor
    refine ⟨after, ?_, restTaken.same, ?_, fun place old segment _ => ?_⟩
    · rw [List.length_cons, loadVars]
      simp only [key, value, bind, Except.bind, CString.strlcpy_bytes]
      rw [loaded]
      simp only [List.append_assoc, List.singleton_append,
        UInt32.ofNat_add, UInt32.add_assoc, UInt32.add_comm 1]
      rfl
    · rw [restTaken.cursor, List.length_append, Nat.add_assoc]
    · exact restTaken.kept _ _ (taken.kept _ _ segment trivial) trivial

theorem length_vars_loadVars {count : Nat} {S loaded : Session δ} {ds after : DataSource}
    (returned : loadVars count S ds = .ok (loaded, after)) :
    loaded.vars.length = S.vars.length + count := by
  induction count generalizing S ds with
  | zero =>
    cases returned
    rfl
  | succ count ih =>
    obtain ⟨key, _, rest⟩ := bind_eq_ok.mp returned
    obtain ⟨value, _, rest⟩ := bind_eq_ok.mp rest
    rw [ih rest, List.length_append, List.length_singleton]
    omega

theorem length_vars_load {ops : SessionOps δ} {id : List UInt8} {allocation : Allocation}
    {file : FileSource} {loaded : Session δ}
    (returned : (init ops).load ops id allocation file = .ok (0, loaded)) :
    1 ≤ loaded.vars.length ∧ loaded.vars.length ≤ 100 := by
  obtain ⟨⟨magic, headed⟩, _, rest⟩ := bind_eq_ok.mp returned
  dsimp only at rest
  split at rest
  case isTrue => cases congrArg Prod.fst (Except.ok.inj rest)
  case isFalse =>
    obtain ⟨⟨count, counted⟩, _, rest⟩ := bind_eq_ok.mp rest
    dsimp only at rest
    split at rest
    case isTrue => cases congrArg Prod.fst (Except.ok.inj rest)
    case isFalse inRange =>
      obtain ⟨⟨stored, behind⟩, vars, rest⟩ := bind_eq_ok.mp rest
      obtain ⟨⟨nEvents, evented⟩, _, rest⟩ := bind_eq_ok.mp rest
      obtain ⟨⟨status, data, final⟩, _, rest⟩ := bind_eq_ok.mp rest
      have sameVars : loaded.vars = stored.vars := by
        dsimp only at rest
        split at rest
        · cases congrArg Prod.fst (Except.ok.inj rest)
        · cases rest
          rfl
      have length := length_vars_loadVars vars
      have start : ({ { init ops with id := .strlcpy id } with
        nVars := 0 } : Session δ).vars.length = 0 := rfl
      rw [start, Nat.zero_add] at length
      rw [sameVars, length]
      rw [not_or, UInt32.not_lt, UInt32.le_iff_toNat_le, ← UInt32.toNat_inj] at inRange
      exact ⟨Nat.one_le_iff_ne_zero.mpr inRange.1, inRange.2⟩

theorem load_record {ops : SessionOps δ} {S : Session δ} {ds : DataSource} {bytes : List UInt8}
    {allocation : Allocation} {file : FileSource} (id : List UInt8) (counted : S.Counted)
    (some : 1 ≤ S.vars.length) (few : S.vars.length ≤ 100)
    (same : ds.SameSettings (.openFileHandle allocation file))
    (segment : (DataSource.openFileHandle allocation file).backend.Segment 0
        (S.sessionRecord ds ++ bytes))
    (cursor : (DataSource.openFileHandle allocation file).tell = 0)
    (loads : ∀ back, ds.SameSettings back → back.backend.Segment (S.sessionRecord ds).length bytes →
        back.tell = (S.sessionRecord ds).length →
          ∃ after, ops.loadData ops.initial back = .ok (0, S.data, after)) :
    (init ops).load ops id allocation file = .ok (0, { S with id := .strlcpy id }) := by
  unfold load
  generalize DataSource.openFileHandle allocation file = back at same segment cursor ⊢
  obtain ⟨front, dataSegment⟩ := Backend.segment_append.mp segment
  rw [Nat.zero_add] at dataSegment
  obtain ⟨magicSegment, front⟩ := Backend.segment_append.mp front
  obtain ⟨headed, magic, magicTaken⟩ := readUint32_takes same magicSegment cursor
  obtain ⟨countSegment, front⟩ := Backend.segment_append.mp (magicTaken.kept _ _ front trivial)
  obtain ⟨numbered, count, countTaken⟩ :=
    readUint32_takes magicTaken.same countSegment magicTaken.cursor
  obtain ⟨varsSegment, eventsSegment⟩ :=
    Backend.segment_append.mp (countTaken.kept _ _ front trivial)
  obtain ⟨stored, vars, varsTaken⟩ :=
    @loadVars_takes δ S.vars ⟨.strlcpy id, [], 0, 0, ops.initial⟩ _ _ _
      countTaken.same varsSegment countTaken.cursor
  obtain ⟨evented, events, eventsTaken⟩ :=
    readUint32_takes varsTaken.same (varsTaken.kept _ _ eventsSegment trivial) varsTaken.cursor
  have behind : evented.tell = ((S.sessionRecord ds).length : Nat) := by
    rw [eventsTaken.cursor]
    simp only [sessionRecord, List.length_append]
    congr 1
    omega
  obtain ⟨after, loaded⟩ :=
    loads evented eventsTaken.same (eventsTaken.kept _ _ (varsTaken.kept _ _ (countTaken.kept _ _
            (magicTaken.kept _ _ dataSegment trivial) trivial) trivial) trivial)
      behind
  have number : S.nVars.toNat = S.vars.length := by
    rw [counted.count, UInt32.toNat_ofNat']
    exact Nat.mod_eq_of_lt (by omega)
  have inRange : ¬ (S.nVars = 0 ∨ S.nVars > sessionVariablesMax) := by
    rw [not_or, UInt32.not_lt, UInt32.le_iff_toNat_le, ← UInt32.toNat_inj, number]
    exact ⟨Nat.one_le_iff_ne_zero.mp some, few⟩
  have total : (0 : UInt32) + UInt32.ofNat S.vars.length = S.nVars := by
    rw [UInt32.zero_add, counted.count]
  rw [total, List.nil_append] at vars
  simp only [magic, count, if_neg inRange, number, vars, events, bind,
    Except.bind, init, loaded, ne_eq, not_true_eq_false, if_false]
  rfl

end Session

/-- A session is loaded, with its variables and its counters, from a file. -/
def Session.Reloads {δ : Type} (S : Session δ) (ops : SessionOps δ) (id : List UInt8)
    (allocation : Allocation) (contents : List UInt8) : Prop :=
  ∃ loaded, (Session.init ops).load ops id allocation ⟨contents, 0, none⟩ = .ok (0, loaded) ∧
      loaded.vars = S.vars ∧ loaded.nVars = S.nVars ∧ loaded.nEvents = S.nEvents

theorem Session.Reloads.length_vars {δ : Type} {S : Session δ} {ops : SessionOps δ}
    {id : List UInt8} {allocation : Allocation} {contents : List UInt8}
    (reloads : S.Reloads ops id allocation contents) : 1 ≤ S.vars.length ∧ S.vars.length ≤ 100 := by
  obtain ⟨loaded, returned, vars, _⟩ := reloads
  rw [← vars]
  exact Session.length_vars_load returned

theorem SessionOps.loadUndoesSave_none : SessionOps.LoadUndoesSave ⟨(), none, none⟩ () :=
  fun ds _ file => ⟨ds, [], rfl, file.refl, fun back _ _ _ => ⟨back, rfl⟩⟩

/--
A session that calls built is saved, and reloads exactly when the calls had at
least one key, and at most as many as `WEB_SESSION_VARIABLES_MAX`.
-/
theorem session_reloads_iff {δ : Type} (ops : SessionOps δ) (calls : List SessionCall)
    (fit : ∀ call ∈ calls, call.FitsKey) (nEvents : UInt32) (data : δ)
    (undoes : ops.LoadUndoesSave data) (allocation : Allocation) (old id : List UInt8) :
    ∃ wrote,
      ({ (Session.init ops).callAll calls with
          nEvents := nEvents
          data := data } : Session δ).saveToFD ops allocation ⟨old, 0, none⟩ = .ok (0, wrote) ∧
        (({ (Session.init ops).callAll calls with
            nEvents := nEvents
            data := data } : Session δ).Reloads ops id allocation wrote.backend.contents ↔
          1 ≤ (calls.map SessionCall.key).toFinset.card ∧
            (calls.map SessionCall.key).toFinset.card ≤ 100) := by
  have built := Session.length_vars_callAll ops fit
  have counted := ((Session.counted_init ops).callAll fit).1
  generalize shape :
    ({ (Session.init ops).callAll calls with nEvents := nEvents, data := data } : Session δ) = S
  have sameVars : S.vars = ((Session.init ops).callAll calls).vars := by rw [← shape]
  have undoesS : ops.LoadUndoesSave S.data := by
    rw [← shape]
    exact undoes
  have countedS : S.Counted := by
    rw [← shape]
    exact ⟨counted.once, counted.count⟩
  rw [← built, ← sameVars]
  obtain ⟨ds, wrote, bytes, opened, saved, record, loads⟩ :=
    Session.saveToFD_wrote undoesS allocation old
  refine ⟨wrote, saved, ?_⟩
  constructor
  · exact Session.Reloads.length_vars
  · rintro ⟨some, few⟩
    have same : ds.SameSettings (.openFileHandle allocation ⟨wrote.backend.contents, 0, none⟩) := by
      rw [← opened]
      exact ⟨rfl, rfl⟩
    have segment : (DataSource.openFileHandle allocation
            ⟨wrote.backend.contents, 0, none⟩).backend.Segment 0
          (S.sessionRecord ds ++ bytes) :=
      ⟨record.stored.segment.held, rfl⟩
    exact ⟨_, Session.load_record id countedS some few same segment rfl loads, rfl, rfl, rfl⟩

theorem session_reloads_iff_one_variable : ∃ wrote,
      ({ (Session.init ⟨(), none, none⟩).callAll [.setSVS (ascii "user") (ascii "joe")] with
          nEvents := 3
          data := () } : Session Unit).saveToFD ⟨(), none, none⟩ .zeroed
            ⟨[], 0, none⟩ = .ok (0, wrote) ∧
        ({ (Session.init ⟨(), none, none⟩).callAll [.setSVS (ascii "user") (ascii "joe")] with
            nEvents := 3
            data := () } : Session Unit).Reloads ⟨(), none, none⟩
              (ascii "1234567890") .zeroed wrote.backend.contents := by
  have fit : ∀ call ∈ [SessionCall.setSVS (ascii "user") (ascii "joe")], call.FitsKey := by
    intro call member
    rw [List.mem_singleton.mp member]
    exact ⟨by decide, by decide⟩
  obtain ⟨wrote, saved, reloads⟩ :=
    session_reloads_iff ⟨(), none, none⟩ _ fit 3 ()
      SessionOps.loadUndoesSave_none .zeroed [] (ascii "1234567890")
  exact ⟨wrote, saved, reloads.mpr ⟨by decide, by decide⟩⟩

theorem empty_and_large_sessions_refused : ∃ calls : List SessionCall,
      (∀ call ∈ calls, call.FitsKey) ∧ (∃ wrote,
          (Session.init ⟨(), none, none⟩).saveToFD ⟨(), none, none⟩ .zeroed
              ⟨[], 0, none⟩ = .ok (0, wrote) ∧
            ¬ (Session.init ⟨(), none, none⟩).Reloads ⟨(), none, none⟩ [49]
              .zeroed wrote.backend.contents) ∧
        ∃ wrote, ((Session.init ⟨(), none, none⟩).callAll calls).saveToFD
              ⟨(), none, none⟩ .zeroed ⟨[], 0, none⟩ = .ok (0, wrote) ∧
            ¬ ((Session.init ⟨(), none, none⟩).callAll calls).Reloads
              ⟨(), none, none⟩ [49] .zeroed wrote.backend.contents := by
  have fit : ∀ call ∈ (List.range 101).map fun n =>
          SessionCall.setSVS [UInt8.ofNat (n + 1)] [],
        call.FitsKey := by
    intro call member
    obtain ⟨n, inside, rfl⟩ := List.mem_map.mp member
    have nonzero : UInt8.ofNat (n + 1) ≠ 0 := by
      rw [← UInt8.toNat_inj.ne, UInt8.toNat_ofNat']
      have := List.mem_range.mp inside
      rw [Nat.mod_eq_of_lt (by omega)]
      exact Nat.succ_ne_zero n
    have short : [UInt8.ofNat (n + 1)].length < sessionVarKeyMax := by
      rw [List.length_singleton]
      decide
    exact ⟨by simpa [SessionCall.key] using nonzero.symm, short⟩
  refine ⟨_, fit, ?_, ?_⟩
  · obtain ⟨_, wrote, _, _, saved, _⟩ :=
      @Session.saveToFD_wrote Unit ⟨(), none, none⟩ (.init ⟨(), none, none⟩)
        SessionOps.loadUndoesSave_none .zeroed []
    refine ⟨wrote, saved, fun reloads => ?_⟩
    exact absurd reloads.length_vars.1 (by decide)
  · obtain ⟨_, wrote, _, _, saved, _⟩ :=
      @Session.saveToFD_wrote Unit ⟨(), none, none⟩ ((Session.init ⟨(), none, none⟩).callAll _)
        SessionOps.loadUndoesSave_none .zeroed []
    refine ⟨wrote, saved, fun reloads => ?_⟩
    have length := reloads.length_vars.2
    rw [Session.length_vars_callAll _ fit] at length
    exact absurd length (by decide +kernel)

end Agar.Web
