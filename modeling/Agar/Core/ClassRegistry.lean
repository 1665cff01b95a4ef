import Agar.Core.ClassSpec
import Agar.Core.Table

namespace Agar.Core

open Agar.Lib

/-!
# Class registration

Classes are registered in a tree of superclasses and subclasses, and in a hash
table that finds them by their hierarchies.  Registering a class cuts its
hierarchy at the last colon to find its superclass; listing the classes that
it inherits from looks up every part of the hierarchy that ends at a colon.
-/

/-- An `AG_ObjectClass` in memory -/
abbrev ClassRef := Nat

/-- The place of `agObjectClass`, to which `agClassTree` points -/
def agClassTree : ClassRef := 0

/-- A class, with its links in the tree of classes -/
structure ClassNode where
  cls : ObjectClass
  super : Option ClassRef
  sub : List ClassRef

/-- The namespaces, the classes that are in use, and `agClassTbl` -/
structure ClassRegistry where
  namespaceTbl : List ClassNamespace
  node : ClassRef → Option ClassNode
  classTbl : Tbl

/-- `"AG_Object"` -/
def objectHier : List UInt8 := ascii "AG_Object"

/-- `"Agar(Object)"` -/
def objectSpec : List UInt8 := ascii "Agar(Object)"

/-- `InitClass` -/
def initClass (cl : ObjectClass) (hier libs : List UInt8) : ObjectClass where
  hier := .strlcpy hier
  libs := .strlcpy libs
  name := .strlcpy (lastName hier)
  ver := cl.ver

/-- The allocation of an entry, or `AG_FatalError` -/
def insertClass (classTbl : Tbl) (hier : List UInt8) (cl : ClassRef) : Except Stop Tbl := do
  match ← classTbl.insert hier (initPointer (some cl)) .all with
  | (.ok (), tbl) => return tbl
  | (.error _, _) => .error .fatal

/-- `AG_InitClassTbl` -/
def initClassTbl : Except Stop ClassRegistry := do
  let node : ClassNode :=
    { cls := initClass agObjectClass objectHier []
      super := none
      sub := [] }
  let classTbl ← insertClass (tblInit true 256 0).2 objectHier agClassTree
  return {
    namespaceTbl := [agarNamespace]
    node := Function.update (fun _ => none) agClassTree (some node)
    classTbl := classTbl
  }

namespace ClassRegistry

/-- Access a class. -/
def load (w : ClassRegistry) (cl : ClassRef) : Except Stop ClassNode :=
  match w.node cl with
  | some node => .ok node
  | none => .error .undefined

def setNode (w : ClassRegistry) (cl : ClassRef) (node : ClassNode) : ClassRegistry :=
  { w with node := Function.update w.node cl (some node) }

/-- `AG_LookupClass`, with no result where it returns `NULL` -/
def lookupClass (w : ClassRegistry) (inSpec : List UInt8) : Except Stop (Option ClassRef) :=
  if inSpec = [] ∨ inSpec = objectSpec ∨ inSpec = objectHier then .ok (some agClassTree)
  else do
    match ← parseClassSpec w.namespaceTbl inSpec with
    | none => return none
    | some cs =>
      match ← w.classTbl.lookup cs.hier.bytes with
      | .error _ => return none
      | .ok V =>
        match V.data with
        | .p cl => return cl
        | _ => .error .undefined

/-- The superclass that a hierarchy names, or `AG_FatalError` -/
def superClass (w : ClassRegistry) (hier : List UInt8) : Except Stop ClassRef :=
  match splitLast colon hier with
  | none => .ok agClassTree
  | some (front, _) => do
      match ← w.lookupClass front with
      | none => .error .fatal
      | some super => return super

/-- `AG_RegisterClass`, of the class at a place that is not in use -/
def registerClass (w : ClassRegistry) (p : ClassRef)
    (cl : ObjectClass) : Except Stop ClassRegistry := do
  match ← parseClassSpec w.namespaceTbl cl.hier.bytes with
  | none => .error .fatal
  | some cs => do
      let cl := initClass cl cs.hier.bytes cs.libs.bytes
      let super ← w.superClass cs.hier.bytes
      let w := w.setNode p { cls := cl, super := some super, sub := [] }
      let node ← w.load super
      let w := w.setNode super { node with sub := node.sub ++ [p] }
      let classTbl ← insertClass w.classTbl cl.hier.bytes p
      return { w with classTbl := classTbl }

/--
The loop of `AG_ObjectGetInheritHier`, from a character of the hierarchy on;
no result where it returns -1
-/
def inheritFrom (w : ClassRegistry) : List UInt8 → List UInt8 → Except Stop (Option (List ClassRef))
  | front, [] => do
      match ← w.lookupClass front with
      | none => return none
      | some cl => return some [cl]
  | front, c :: rest =>
    if c = colon then do
      match ← w.lookupClass front with
      | none => return none
      | some cl => do
          match ← w.inheritFrom (front ++ [c]) rest with
          | none => return none
          | some hier => return some (cl :: hier)
    else w.inheritFrom (front ++ [c]) rest

/-- `AG_ObjectGetInheritHier`, of an object of some class -/
def objectGetInheritHier (w : ClassRegistry)
    (cls : ClassRef) : Except Stop (Option (List ClassRef)) := do
  let node ← w.load cls
  if node.cls.hier.bytes = [] then return some [] else w.inheritFrom [] node.cls.hier.bytes

end ClassRegistry

end Agar.Core
