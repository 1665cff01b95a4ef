import Agar.Core.Event
import Agar.Core.Timeout

namespace Agar.Core

open Agar.Lib

/-!
# Objects

The tree of objects: initialisation, attachment, detachment, and the paths
that name objects in it.  Objects live in memory under references; an access
through a reference to no object has no defined result.

The events that an operation posts are recorded in order.  Class-specific
initialisation routines and event handlers are code of the application; what
they do to the tree they do by operations of their own.
-/

/-- An `AG_Event *` that a hook is called with -/
abbrev EventRef := Nat

/-- `AG_OBJECT_NAME_MAX` -/
abbrev objectNameMax : Nat := 128

instance : NeZero objectNameMax := ⟨by decide⟩

/-- `AG_OBJECT_PATH_MAX` -/
abbrev objectPathMax : Nat := 1024

instance : NeZero objectPathMax := ⟨by decide⟩

/-- `AG_OBJECT_HIER_MAX` -/
abbrev objectHierMax : Nat := 256

instance : NeZero objectHierMax := ⟨by decide⟩

/-- `AG_OBJECT_TYPE_MAX` -/
abbrev objectTypeMax : Nat := 48

instance : NeZero objectTypeMax := ⟨by decide⟩

/-- `AG_PATHSEPCHAR` -/
def pathSepChar : UInt8 := 47

/-- `AG_OBJECT_NAME_ONATTACH` -/
def objectNameOnAttach : UInt32 := 0x01000

/-- `struct ag_version`, without the strings that `AG_ReadVersion` allocates -/
structure Version where
  major : UInt32
  minor : UInt32
  deriving Repr, DecidableEq

/-- `AG_OBJECT_LIBS_MAX` -/
abbrev objectLibsMax : Nat := 128

instance : NeZero objectLibsMax := ⟨by decide⟩

/-- `struct ag_object_class`, without its routines -/
structure ObjectClass where
  hier : CString objectHierMax
  name : CString objectTypeMax
  libs : CString objectLibsMax
  ver : Version
  deriving DecidableEq

/-- `agObjectClass`, as `AG_InitClassTbl` leaves it -/
def agObjectClass : ObjectClass where
  hier := .strlcpy (ascii "AG_Object")
  name := .strlcpy (ascii "AG_Object")
  libs := .strlcpy []
  ver := { major := 7, minor := 2 }

/-- `struct ag_object_dep` -/
structure ObjectDep where
  persistent : Bool
  path : List UInt8
  obj : Option ObjRef
  count : UInt32
  deriving DecidableEq

/--
`struct ag_object`: its name, class and flags, its event handlers, variables
and dependencies, and its links in the tree
-/
structure Object where
  name : CString objectNameMax
  cls : ObjectClass
  flags : UInt32
  events : List Event
  vars : List Variable
  deps : List ObjectDep
  parent : Option ObjRef
  root : ObjRef
  children : List ObjRef
  attachFn : Option EventRef
  detachFn : Option EventRef
  deriving DecidableEq

/-- A posted event. -/
structure Post where
  sender : ObjRef
  receiver : ObjRef
  event : String
  deriving Repr, DecidableEq

/--
The objects in memory, their timers with the arguments of their callbacks
(`to->fnEvent`), and the events posted so far.
-/
structure World where
  objects : ObjRef → Option Object
  timing : Timing
  fnEvents : TimerRef → Option Event
  posted : List Post

/-- No object is initialised. -/
def World.initial : World where
  objects _ := none
  timing := .initial
  fnEvents _ := none
  posted := []

namespace World

/-- Read the object at a reference. -/
def object (w : World) (ob : ObjRef) : Except Stop Object :=
  match w.objects ob with
  | none => .error .undefined
  | some entry => .ok entry

theorem object_eq_ok {w : World} {ob : ObjRef} {entry : Object} :
    w.object ob = .ok entry ↔ w.objects ob = some entry := by
  unfold object
  cases w.objects ob <;> simp

/-- Store an object. -/
def setObject (w : World) (ob : ObjRef) (entry : Object) : World :=
  { w with objects := Function.update w.objects ob (some entry) }

/-- `AG_PostEvent`, up to the invocation of the handlers -/
def post (w : World) (sender receiver : ObjRef) (event : String) : World :=
  { w with posted := w.posted ++ [⟨sender, receiver, event⟩] }

/-! ## Initialisation and attachment -/

/-- `AG_ObjectInit` -/
def objectInit (w : World) (ob : ObjRef) (cl : Option ObjectClass) : World :=
  let initialised := w.setObject ob
    { name := .strlcpy []
      cls := cl.getD agObjectClass
      flags := 0
      events := []
      vars := []
      deps := []
      parent := none
      root := ob
      children := []
      attachFn := none
      detachFn := none }
  { initialised with timing := w.timing.setTimers ob [] }

/-- The name number `i` that `AG_ObjectGenName` tries. -/
def genNameTry (cl : ObjectClass) (i : Nat) : CString objectNameMax :=
  ((CString.strlcpy cl.name.bytes).strlcat (ascii " #")).strlcat (ascii (toString i))

/--
`AG_ObjectGenName`: the first name that no child of the object has.  One of
the first names, one more than there are children, is free.
-/
def objectGenName (w : World) (pobj : Object) (cl : ObjectClass) : CString objectNameMax :=
  let taken (name : CString objectNameMax) : Bool :=
    pobj.children.any fun ch => (w.objects ch).any fun entry => entry.name = name
  let free := (List.range (pobj.children.length + 1)).find? fun i => !taken (genNameTry cl i)
  genNameTry cl (free.getD 0)

/-- `AG_ObjectAttach`; `call` is what an attach hook does. -/
def objectAttach (call : EventRef → World → World) (w : World) (parentp : Option ObjRef)
    (chld : ObjRef) : Except Stop World :=
  match parentp with
  | none => .ok w
  | some parent => do
      let root := (← w.object parent).root
      let entry ← w.object chld
      let linked := w.setObject chld { entry with parent := some parent, root := root }
      match entry.attachFn with
      | some attachFn => return call attachFn linked
      | none => do
          let pobj ← linked.object parent
          let entry ← linked.object chld
          let named := linked.setObject chld
            { entry with
              name :=
                if entry.flags &&& objectNameOnAttach ≠ 0 then linked.objectGenName pobj entry.cls
                else entry.name }
          let pobj ← named.object parent
          let attached := named.setObject parent
            { pobj with children := pobj.children ++ [chld] }
          return (attached.post parent chld "attached").post chld parent "child-attached"

/-- `AG_ObjectDetach`; `call` is what a detach hook does. -/
def objectDetach (call : EventRef → World → World) (w : World)
    (chld : ObjRef) : Except Stop World := do
  let entry ← w.object chld
  match entry.parent with
  | none => .error .undefined
  | some parent =>
    let _ ← w.object parent
    match entry.detachFn with
    | some detachFn => return call detachFn w
    | none => do
        let timing :=
          (w.timing.timers chld).foldl (fun timing timer => timing.delTimer (some chld) timer)
            w.timing
        let pobj ← w.object parent
        if chld ∈ pobj.children then do
          let unlinked := w.setObject parent
            { pobj with children := pobj.children.erase chld }
          let entry ← unlinked.object chld
          let detached := unlinked.setObject chld
            { entry with parent := none, root := chld }
          return ({ detached with timing := timing }.post
            parent chld "detached").post chld parent "child-detached"
        else .error .undefined

/-! ## Paths -/

/--
`GenerateObjectPath` with a limit of `pathLen` bytes, in a buffer of
`capacity` bytes that holds `path`.
-/
def generateObjectPath (w : World) (capacity pathLen : Nat) (ob : ObjRef)
    (path : List UInt8) : Except Stop (Int × List UInt8) := do
  let entry ← w.object ob
  if tooLong : entry.name.bytes.length + path.length + 1 > pathLen then return (-1, path)
  else if entry.name.bytes.length + path.length + 2 > capacity then .error .undefined
  else
    let longer := pathSepChar :: (entry.name.bytes ++ path)
    match entry.parent with
    | none => return (0, longer)
    | some parent =>
      if parent ≠ entry.root then w.generateObjectPath capacity pathLen parent longer
      else return (0, longer)
termination_by pathLen + 1 - path.length
decreasing_by
  simp only [List.length_cons, List.length_append]
  omega

/-- `AG_ObjectCopyName` into a buffer of `pathLen` bytes -/
def objectCopyName (w : World) (ob : ObjRef) (pathLen : Nat) : Except Stop (Int × List UInt8) := do
  if pathLen < 2 then return (-1, [])
  else
    let entry ← w.object ob
    if ob = entry.root then return (0, (pathSepChar :: entry.name.bytes).take (pathLen - 1))
    else w.generateObjectPath pathLen pathLen ob [pathSepChar]

/-- The loop of `AG_ObjectGetName` that adds up the length of the path. -/
def pathLength (w : World) : Nat → ObjRef → Nat → Except Stop Nat
  | 0, _, _ => .error .outOfFuel
  | fuel + 1, pob, pathLen => do
      let entry ← w.object pob
      match entry.parent with
      | none => return pathLen
      | some parent => w.pathLength fuel parent (pathLen + entry.name.bytes.length + 1)

/-- `AG_ObjectGetName`, where the path can be allocated -/
def objectGetName (w : World) (fuel : Nat) (ob : ObjRef) : Except Stop (List UInt8) := do
  let pathLen ← w.pathLength fuel ob 1
  let entry ← w.object ob
  if ob = entry.root then return (pathSepChar :: entry.name.bytes).take (max 1 (pathLen - 1))
  else
    let (_, path) ← w.generateObjectPath (pathLen + 1) pathLen ob [pathSepChar]
    return path

/-- The loop over the children in `FindObjectByName`. -/
def findChild (w : World) (nodeName : List UInt8) : List ObjRef → Except Stop (Option ObjRef)
  | [] => return none
  | child :: rest => do
      let entry ← w.object child
      if entry.name.bytes = nodeName then return some child else w.findChild nodeName rest

/-- `FindObjectByName` -/
def findObjectByName (w : World) (parent : ObjRef)
    (name : List UInt8) : Except Stop (Option ObjRef) := do
  let pobj ← w.object parent
  let copied : CString objectPathMax := .strlcpy name
  let nodeName := copied.bytes.takeWhile (· ≠ pathSepChar)
  match ← w.findChild nodeName pobj.children with
  | none => return none
  | some child =>
    match _ : name.dropWhile (· ≠ pathSepChar) with
    | _ :: first :: rest => w.findObjectByName child (first :: rest)
    | _ => return some child
termination_by name.length
decreasing_by
  rename_i separated
  have shorter := (List.dropWhile_sublist (l := name) (· ≠ pathSepChar)).length_le
  simp only [separated, List.length_cons] at shorter ⊢
  omega

/-- `AG_ObjectFindS` -/
def objectFindS (w : World) (vfsRoot : ObjRef) (name : List UInt8) : Except Stop (Option ObjRef) :=
  match name with
  | [] => .error .undefined
  | first :: rest =>
    if first = pathSepChar ∧ rest = [] then return some vfsRoot else w.findObjectByName vfsRoot rest

end World

end Agar.Core
