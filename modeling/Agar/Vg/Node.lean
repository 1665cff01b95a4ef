import Agar.Core.DataSource
import Agar.Lib.Outcome
import Agar.Lib.OwnedHeap

namespace Agar.Vg

open Agar.Lib Agar.Core

/-!
# Nodes of drawings

The nodes of the vector drawings are cells of a heap.  A drawing has a tree of
nodes, whose root is made with it, and a flat list of the nodes other than the
root.  Entities refer to points, and a point counts the references to it.

Memory that is not allocated, a missing drawing, and the removal of a node
from a list that it is not in are undefined behavior.  Reference counts are
natural numbers.
-/

/-- The classes of nodes -/
inductive NodeOps where
  | point
  | line
  | circle
  | arc
  | polygon
  | text
  deriving Repr, DecidableEq

/-- The name of a class -/
def NodeOps.name : NodeOps → String
  | .point => "Point"
  | .line => "Line"
  | .circle => "Circle"
  | .arc => "Arc"
  | .polygon => "Polygon"
  | .text => "Text"

/-- `VG_Node`, with the points that an entity keeps beside its references -/
structure Node where
  ops : NodeOps
  handle : Nat
  vg : Option Nat
  parent : Option Nat
  refs : List Nat
  nDeps : Nat
  cNodes : List Nat
  /-- `p1` and `p2`, `p`, or `pts` -/
  pts : List Nat
  deriving Repr, DecidableEq

/-- `VG_NodeInit`, with the points of an entity -/
def Node.init (ops : NodeOps) (pts : List Nat) : Node where
  ops := ops
  handle := 0
  vg := none
  parent := none
  refs := []
  nDeps := 0
  cNodes := []
  pts := pts

/-- `VG` -/
structure Drawing where
  root : Option Nat
  nodes : List Nat
  deriving Repr, DecidableEq

/-- The nodes, the drawings, and the nodes that were freed, the last first. -/
structure Drawings where
  heap : Heap Node
  vgs : Heap Drawing
  freed : List Nat

/-- `VG_HANDLE_MAX` -/
def handleMax : Nat := 0xffffffff - 1

/-- The pointer is not null. -/
def nonNull (pointer : Option Nat) : Except Stop Nat :=
  match pointer with
  | none => .error .undefined
  | some address => .ok address

/-- `TAILQ_REMOVE` -/
def tailqRemove (list : List Nat) (elm : Nat) : Except Stop (List Nat) :=
  if elm ∈ list then .ok (list.erase elm) else .error .undefined

namespace Drawings

/-- There is no drawing yet. -/
def empty : Drawings where
  heap := Heap.empty
  vgs := Heap.empty
  freed := []

/-- The node at an address -/
def node (s : Drawings) (vn : Nat) : Except Stop Node :=
  match s.heap.cells vn with
  | none => .error .undefined
  | some node => .ok node

/-- The drawing at an address -/
def drawing (s : Drawings) (vg : Nat) : Except Stop Drawing :=
  match s.vgs.cells vg with
  | none => .error .undefined
  | some drawing => .ok drawing

/-- Store fields of a node. -/
def setNode (s : Drawings) (vn : Nat) (change : Node → Node) : Drawings :=
  { s with heap := s.heap.modify vn change }

/-- Store fields of a drawing. -/
def setVg (s : Drawings) (vg : Nat) (change : Drawing → Drawing) : Drawings :=
  { s with vgs := s.vgs.modify vg change }

/-! ## Handles -/

/-- `VG_FindNode`, in the list of nodes -/
def findNode (s : Drawings) (handle : Nat) (type : String) : List Nat → Except Stop (Option Nat)
  | [] => .ok none
  | vn :: rest => do
      let node ← s.node vn
      if node.handle = handle ∧ node.ops.name = type then return some vn
      else s.findNode handle type rest

/-- The loop of `VG_GenNodeName`, with the names that are left to try -/
def genFrom (s : Drawings) (nodes : List Nat) (type : String) : Nat → Nat → Except Stop Nat
  | 0, _ => .error .fatal
  | left + 1, name => do
      match ← s.findNode name type nodes with
      | none => return name
      | some _ => s.genFrom nodes type left (name + 1)

/-- `VG_GenNodeName` -/
def genNodeName (s : Drawings) (vg : Nat) (type : String) : Except Stop Nat := do
  let drawing ← s.drawing vg
  s.genFrom drawing.nodes type (handleMax - 1) 1

/-! ## Attaching and detaching -/

/-- `VG_NodeAttach` -/
def nodeAttach (s : Drawings) (parent : Option Nat) (vn : Nat) : Except Stop Drawings := do
  let node ← s.node vn
  match parent with
  | none =>
    return s.setNode vn fun node =>
      { node with parent := none, vg := none }
  | some vnParent => do
      let parentNode ← s.node vnParent
      let vg ← nonNull parentNode.vg
      let handle ← (if node.handle = 0 then
          s.genNodeName vg node.ops.name
        else .ok node.handle)
      let _ ← s.drawing vg
      let s := s.setNode vn fun node =>
        { node with handle := handle, parent := some vnParent }
      let s := s.setNode vnParent fun node => { node with cNodes := node.cNodes ++ [vn] }
      let s := s.setVg vg fun drawing => { drawing with nodes := drawing.nodes ++ [vn] }
      return s.setNode vn fun node => { node with vg := some vg }

/-- The end of `VG_NodeDetach`, behind its loop over the children -/
def nodeUnlink (s : Drawings) (vn vg : Nat) : Except Stop Drawings := do
  let s := s.setNode vn fun node => { node with cNodes := [] }
  let node ← s.node vn
  let s ← (match node.parent with
    | none => .ok s
    | some parent => do
        let parentNode ← s.node parent
        let cNodes ← tailqRemove parentNode.cNodes vn
        let s := s.setNode parent fun node => { node with cNodes := cNodes }
        return s.setNode vn fun node => { node with parent := none })
  let drawing ← s.drawing vg
  let nodes ← tailqRemove drawing.nodes vn
  let s := s.setVg vg fun drawing => { drawing with nodes := nodes }
  return s.setNode vn fun node => { node with vg := none }

/-- `VG_NodeDetach`, with a bound on the depth of the tree -/
def nodeDetach : Nat → Drawings → Nat → Except Stop Drawings
  | 0, _, _ => .error .outOfFuel
  | fuel + 1, s, vn => do
      let node ← s.node vn
      let vg ← nonNull node.vg
      let s ← node.cNodes.foldlM (nodeDetach fuel) s
      s.nodeUnlink vn vg

/-- `Free` of a node -/
def free (s : Drawings) (vn : Nat) : Except Stop Drawings := do
  let _ ← s.node vn
  return { s with heap := s.heap.free vn, freed := vn :: s.freed }

/-- `VG_NodeDestroy`, with a bound on the depth of the tree -/
def nodeDestroy : Nat → Drawings → Nat → Except Stop Drawings
  | 0, _, _ => .error .outOfFuel
  | fuel + 1, s, vn => do
      let node ← s.node vn
      let s ← node.cNodes.foldlM (fun s vnChld => do
          let child ← s.node vnChld
          let vg ← nonNull child.vg
          let drawing ← s.drawing vg
          let nodes ← tailqRemove drawing.nodes vnChld
          nodeDestroy fuel (s.setVg vg fun drawing => { drawing with nodes := nodes }) vnChld)
        s
      let s := s.setNode vn fun node => { node with cNodes := [] }
      s.free vn

/-! ## References -/

/-- `VG_AddRef` -/
def addRef (s : Drawings) (vn ref : Nat) : Except Stop Drawings := do
  let _ ← s.node vn
  let s := s.setNode vn fun node => { node with refs := node.refs ++ [ref] }
  let _ ← s.node ref
  return s.setNode ref fun node => { node with nDeps := node.nDeps + 1 }

/-- `VG_DelRef`: the new count, and the drawings -/
def delRef (s : Drawings) (vn ref : Nat) : Except Stop (Nat × Drawings) := do
  let node ← s.node vn
  if ref ∈ node.refs then do
    let s := s.setNode vn fun node => { node with refs := node.refs.erase ref }
    let refNode ← s.node ref
    return (refNode.nDeps - 1, s.setNode ref fun node => { node with nDeps := node.nDeps - 1 })
  else .error .fatal

/--
`VG_Delete`: whether the node was deleted, and the drawings.

The functions of the classes that are called give up the points of an entity,
and delete those that are no longer in use.
-/
def delete : Nat → Drawings → Nat → Except Stop (Bool × Drawings)
  | 0, _, _ => .error .outOfFuel
  | fuel + 1, s, vn => do
      let node ← s.node vn
      let _ ← nonNull node.vg
      if node.nDeps > 0 then return (false, s)
      else do
        let s ← node.pts.foldlM (fun s pt => do
            let (newDeps, s) ← s.delRef vn pt
            if newDeps = 0 then do
              let (_, s) ← delete fuel s pt
              return s
            else return s)
          s
        let s ← nodeDetach fuel s vn
        let s ← nodeDestroy fuel s vn
        return (true, s)

/-! ## Merging -/

/-- The end of `MoveNodesRecursively`, behind its loop over the children -/
def moveNode (s : Drawings) (vgDst vn : Nat) : Except Stop Drawings := do
  let node ← s.node vn
  let handle ← s.genNodeName vgDst node.ops.name
  let s := s.setNode vn fun node => { node with handle := handle }
  let vg ← nonNull node.vg
  let drawing ← s.drawing vg
  let nodes ← tailqRemove drawing.nodes vn
  let s := s.setVg vg fun drawing => { drawing with nodes := nodes }
  let s := s.setNode vn fun node => { node with vg := some vgDst }
  let _ ← s.drawing vgDst
  return s.setVg vgDst fun drawing => { drawing with nodes := drawing.nodes ++ [vn] }

/-- `MoveNodesRecursively`, with a bound on the depth of the tree -/
def moveNodesRecursively (vgDst : Nat) : Nat → Drawings → Nat → Except Stop Drawings
  | 0, _, _ => .error .outOfFuel
  | fuel + 1, s, vn => do
      let node ← s.node vn
      let s ← node.cNodes.foldlM (moveNodesRecursively vgDst fuel) s
      s.moveNode vgDst vn

/-- `VG_Merge`, with a bound on the depth of the tree -/
def merge (fuel : Nat) (s : Drawings) (vnDst vgSrc : Nat) : Except Stop Drawings := do
  let source ← s.drawing vgSrc
  let vn ← nonNull source.root
  let dstNode ← s.node vnDst
  let vgDst ← nonNull dstNode.vg
  let _ ← s.node vn
  let _ ← s.drawing vgDst
  let s := s.setNode vn fun node =>
    { node with vg := some vgDst, parent := some vnDst }
  let s := s.setVg vgDst fun drawing => { drawing with nodes := drawing.nodes ++ [vn] }
  let s := s.setNode vnDst fun node => { node with cNodes := node.cNodes ++ [vn] }
  let s ← moveNodesRecursively vgDst fuel s vn
  return s.setVg vgSrc fun drawing => { drawing with root := none }

/-! ## Making drawings and entities -/

/-- `VG_PointNew`, `VG_LineNew` and the others, of a class and its points -/
def newNode (s : Drawings) (parent : Option Nat) (ops : NodeOps)
    (pts : List Nat) : Except Stop Drawings := do
  let vn := s.heap.next
  let s : Drawings := { s with heap := s.heap.alloc (Node.init ops pts) }
  let s ← pts.foldlM (fun s pt => s.addRef vn pt) s
  s.nodeAttach parent vn

/-- `VG_New`, as far as the nodes of the drawing go -/
def newVg (s : Drawings) : Except Stop Drawings := do
  let vg := s.vgs.next
  let s : Drawings :=
    { s with
      vgs := s.vgs.alloc
        { root := none
          nodes := [] } }
  let ptRoot := s.heap.next
  let s ← s.newNode none .point []
  let s := s.setVg vg fun drawing => { drawing with root := some ptRoot }
  return s.setNode ptRoot fun node =>
    { node with vg := some vg, handle := 1 }

/-- `VG_PolygonVertex` -/
def polygonVertex (s : Drawings) (vP pt : Nat) : Except Stop Drawings := do
  let polygon ← s.node vP
  let _ ← nonNull polygon.vg
  let s := s.setNode vP fun node => { node with pts := node.pts ++ [pt] }
  s.addRef vP pt

/-- `VG_PolygonDelVertex` -/
def polygonDelVertex (s : Drawings) (vP vtx : Nat) : Except Stop Drawings := do
  let polygon ← s.node vP
  let _ ← nonNull polygon.vg
  match polygon.pts[vtx]? with
  | none => return s
  | some pt => do
      let (_, s) ← s.delRef vP pt
      return s.setNode vP fun node => { node with pts := node.pts.eraseIdx vtx }

end Drawings

/-! ## Requests -/

/-- What is drawn -/
inductive Entity where
  | point
  | line (p1 p2 : Nat)
  | circle (pCenter : Nat)
  | arc (pCenter : Nat)
  | polygon
  | text (p1 p2 : Nat)
  deriving Repr, DecidableEq

/-- The class of an entity -/
def Entity.ops : Entity → NodeOps
  | .point => .point
  | .line _ _ => .line
  | .circle _ => .circle
  | .arc _ => .arc
  | .polygon => .polygon
  | .text _ _ => .text

/-- The points of a new entity -/
def Entity.pts : Entity → List Nat
  | .point => []
  | .line p1 p2 => [p1, p2]
  | .circle pCenter => [pCenter]
  | .arc pCenter => [pCenter]
  | .polygon => []
  | .text p1 p2 => [p1, p2]

/-- A call of one of the functions -/
inductive Request where
  /-- `VG_New` -/
  | newVg
  /-- `VG_PointNew`, `VG_LineNew` and the others -/
  | create (pNode : Option Nat) (entity : Entity)
  | attach (pParent : Option Nat) (pNode : Nat)
  | detach (vn : Nat)
  | delete (vn : Nat)
  | merge (vnDst vgSrc : Nat)
  | polygonVertex (vP pt : Nat)
  | polygonDelVertex (vP vtx : Nat)
  deriving Repr, DecidableEq

namespace Drawings

/-- The drawings after a call.  No tree is deeper than it has nodes. -/
def call (s : Drawings) : Request → Except Stop Drawings
  | .newVg => s.newVg
  | .create pNode entity => s.newNode pNode entity.ops entity.pts
  | .attach pParent pNode => s.nodeAttach pParent pNode
  | .detach vn => nodeDetach s.heap.next s vn
  | .delete vn => do
      let (_, s) ← delete s.heap.next s vn
      return s
  | .merge vnDst vgSrc => merge s.heap.next s vnDst vgSrc
  | .polygonVertex vP pt => s.polygonVertex vP pt
  | .polygonDelVertex vP vtx => s.polygonDelVertex vP vtx

/-- One call, where it is defined -/
def step (s : Drawings) (request : Request) : Option Drawings := (s.call request).toOption

end Drawings

end Agar.Vg
