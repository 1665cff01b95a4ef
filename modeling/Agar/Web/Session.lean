import Agar.Core.Records
import Agar.Lib.UpdateFirst
import Agar.Web.Query
import Agar.Web.VariableTexts

namespace Agar.Web

open Agar.Lib
open Agar.Core

/-!
# Session files

The variables of a `WEB_Session`, how they are set, and the file that they are
saved to and loaded from.  The session manager may save data of its own behind
them.  Files are opened without an error, the device reports none, and memory
for the variables is granted.
-/

/-- `WEB_SESSID_MAX` -/
abbrev sessidMax : Nat := 11

/-- `WEB_SESSION_VAR_KEY_MAX` -/
abbrev sessionVarKeyMax : Nat := 32

/-- `WEB_SESSION_VAR_VALUE_MAX` -/
abbrev sessionVarValueMax : Nat := 1024

/-- `WEB_SESSION_VARIABLES_MAX` -/
def sessionVariablesMax : UInt32 := 100

/-- `WEB_SESSION_DATA_MAGIC` -/
def sessionDataMagic : UInt32 := 0x50657243

instance : NeZero sessidMax := ⟨by decide⟩
instance : NeZero sessionVarKeyMax := ⟨by decide⟩
instance : NeZero sessionVarValueMax := ⟨by decide⟩

/-- `WEB_SessionVar` -/
@[ext] structure SessionVar where
  key : CString sessionVarKeyMax
  value : CString sessionVarValueMax

/-- `WEB_Session`, with the data `δ` that the session manager adds to it -/
structure Session (δ : Type) where
  id : CString sessidMax
  vars : List SessionVar
  nVars : UInt32
  nEvents : UInt32
  data : δ

/--
The functions of `WEB_SessionOps` that concern the data of the session
manager; `none` where there is no function
-/
structure SessionOps (δ : Type) where
  initial : δ
  load : Option (δ → DataSource → Except Stop (Int × δ × DataSource))
  save : Option (δ → DataSource → Except Stop DataSource)

namespace SessionOps

variable {δ : Type}

/-- `S->ops->save`, where there is such a function -/
def saveData (ops : SessionOps δ) (data : δ) (ds : DataSource) : Except Stop DataSource :=
  match ops.save with
  | some save => save data ds
  | none => .ok ds

/-- `S->ops->load`, where there is such a function -/
def loadData (ops : SessionOps δ) (data : δ)
    (ds : DataSource) : Except Stop (Int × δ × DataSource) :=
  match ops.load with
  | some load => load data ds
  | none => .ok (0, data, ds)

/--
The load function of a session manager undoes its save function: saving data
writes some bytes, and where these are found, loading gives the data.
-/
def LoadUndoesSave (ops : SessionOps δ) (data : δ) : Prop :=
  ∀ ds start, ds.FileAt start → ∃ wrote bytes, ops.saveData data ds = .ok wrote ∧
          ds.Wrote wrote start bytes ∧
          ∀ back, ds.SameSettings back → back.backend.Segment start bytes → back.tell = start →
              ∃ after, ops.loadData ops.initial back = .ok (0, data, after)

end SessionOps

namespace Session

variable {δ : Type}

/-- `WEB_SessionInit` -/
def init (ops : SessionOps δ) : Session δ where
  id := .strlcpy []
  vars := []
  nVars := 0
  nEvents := 0
  data := ops.initial

/-- The variable of a key gets a value, or a new variable does. -/
def assign (S : Session δ) (key : List UInt8) (value : CString sessionVarValueMax) : Session δ :=
  match S.vars.find? fun SV => SV.key.bytes = key with
  | some _ =>
    { S with
      vars := updateFirst (fun SV => SV.key.bytes = key)
        (fun SV => { SV with value := value }) S.vars
    }
  | none =>
    { S with
      vars := S.vars ++ [{ key := .strlcpy key, value := value }]
      nVars := S.nVars + 1
    }

/-- `WEB_SetSV`, of a formatted string that `vsnprintf` truncates -/
def setSV (S : Session δ) (key text : List UInt8) : Session δ := S.assign key (.strlcpy text)

/-- `WEB_SetSV_S` -/
def setSVS (S : Session δ) (key s : List UInt8) : Session δ := S.assign key (.strlcpy s)

/-- The loop of `WEB_SessionSaveToFD` over the variables -/
def saveVars : List SessionVar → DataSource → Except Stop DataSource
  | [], ds => .ok ds
  | SV :: rest, ds => do
      let ds ← ds.writeString SV.key.bytes
      let ds ← ds.writeString SV.value.bytes
      saveVars rest ds

/-- `WEB_SessionSaveToFD` on a file that is open for writing -/
def saveToFD (ops : SessionOps δ) (S : Session δ) (allocation : Allocation)
    (file : FileSource) : Except Stop (Int × DataSource) := do
  let ds := DataSource.openFileHandle allocation file
  let ds ← ds.writeUint32 sessionDataMagic
  let ds ← ds.writeUint32 S.nVars
  let ds ← saveVars S.vars ds
  let ds ← ds.writeUint32 S.nEvents
  let ds ← ops.saveData S.data ds
  return (0, ds)

/-- The loop of `WEB_SessionLoad` over the variables -/
def loadVars : Nat → Session δ → DataSource → Except Stop (Session δ × DataSource)
  | 0, S, ds => .ok (S, ds)
  | count + 1, S, ds => do
      let (_, key, ds) ← ds.copyString sessionVarKeyMax
      let (_, value, ds) ← ds.copyString sessionVarValueMax
      loadVars count { S with
        vars := S.vars ++ [{ key := .strlcpy key, value := .strlcpy value }]
        nVars := S.nVars + 1
      } ds

/-- `WEB_SessionLoad` of the file of a session -/
def load (ops : SessionOps δ) (S : Session δ) (id : List UInt8) (allocation : Allocation)
    (file : FileSource) : Except Stop (Int × Session δ) := do
  let S := { S with id := .strlcpy id }
  let ds := DataSource.openFileHandle allocation file
  let (magic, ds) ← ds.readUint32
  if magic ≠ sessionDataMagic then return (-1, S)
  else do
    let (count, ds) ← ds.readUint32
    if count = 0 ∨ count > sessionVariablesMax then return (-1, S)
    else do
      let (S, ds) ← loadVars count.toNat { S with nVars := 0 } ds
      let (nEvents, ds) ← ds.readUint32
      let (status, data, _) ← ops.loadData S.data ds
      let S := { S with nEvents := nEvents, data := data }
      if status = -1 then return (-1, S) else return (0, S)

end Session

end Agar.Web
