import Agar.Vg.Node
import Agar.Lib.Grove

namespace Agar.Vg

open Agar.Lib Agar.Core

/-!
# The trees of drawings

The nodes of the drawings as a grove: a drawing owns the nodes that point to
it.  What a function does to the grove, to the class and handle of the nodes,
and to the references that they hold and count, is stated apart.
-/

theorem nonNull_eq_ok {pointer : Option Nat} {address : Nat} :
    nonNull pointer = .ok address ↔ pointer = some address := by
  cases pointer <;> simp [nonNull]

theorem tailqRemove_eq_ok {list removed : List Nat} {elm : Nat} :
    tailqRemove list elm = .ok removed ↔ elm ∈ list ∧ list.erase elm = removed := by
  rw [tailqRemove]
  split
  case isTrue member => simp [member]
  case isFalse missing => simp [missing]

/-- The class and the handle of a node -/
def Node.key (node : Node) : NodeOps × Nat := (node.ops, node.handle)

/-- What a node holds references to, its count, and its points -/
def Node.uses (node : Node) : List Nat × Nat × List Nat := (node.refs, node.nDeps, node.pts)

/-- The parent, the children and the drawing of a node -/
def Node.links (node : Node) : Option Nat × List Nat × Option Nat :=
  (node.parent, node.cNodes, node.vg)

namespace Drawings

/-- The links of the nodes, and what the drawings store of them -/
def grove (s : Drawings) : Grove Nat Nat where
  parent vn := (s.heap.cells vn).bind Node.parent
  children vn := ((s.heap.cells vn).map Node.cNodes).getD []
  owner vn := (s.heap.cells vn).bind Node.vg
  root vg := (s.vgs.cells vg).bind Drawing.root
  members vg := ((s.vgs.cells vg).map Drawing.nodes).getD []

/-- The class and the handle of the node at an address -/
def key (s : Drawings) (vn : Nat) : Option (NodeOps × Nat) := (s.heap.cells vn).map Node.key

/-- The references and the points of the node at an address -/
def uses (s : Drawings) (vn : Nat) : Option (List Nat × Nat × List Nat) :=
  (s.heap.cells vn).map Node.uses

section Read

variable {s : Drawings} {vn vg : Nat} {node : Node} {drawing : Drawing}

theorem node_eq_ok : s.node vn = .ok node ↔ s.heap.cells vn = some node := by
  rw [Drawings.node]
  cases s.heap.cells vn <;> simp

theorem drawing_eq_ok : s.drawing vg = .ok drawing ↔ s.vgs.cells vg = some drawing := by
  rw [Drawings.drawing]
  cases s.vgs.cells vg <;> simp

theorem parent_of_cell (found : s.heap.cells vn = some node) : s.grove.parent vn = node.parent := by
  simp [grove, found]

theorem children_of_cell (found : s.heap.cells vn = some node) :
    s.grove.children vn = node.cNodes := by
  simp [grove, found]

theorem owner_of_cell (found : s.heap.cells vn = some node) : s.grove.owner vn = node.vg := by
  simp [grove, found]

theorem members_of_cell (found : s.vgs.cells vg = some drawing) :
    s.grove.members vg = drawing.nodes := by
  simp [grove, found]

theorem key_of_cell (found : s.heap.cells vn = some node) : s.key vn = some node.key := by
  simp [key, found]

theorem cell_of_owner (owned : s.grove.owner vn = some vg) :
    ∃ node, s.heap.cells vn = some node ∧ node.vg = some vg :=
  Option.bind_eq_some_iff.mp owned

end Read

/-! ## Storing -/

section Store

variable {s : Drawings} {vn : Nat} {node : Node}

@[simp] theorem cells_setNode (s : Drawings) (vn : Nat) (change : Node → Node) :
    (s.setNode vn change).heap.cells =
      Function.update s.heap.cells vn ((s.heap.cells vn).map change) :=
  rfl

@[simp] theorem vgs_setNode (s : Drawings) (vn : Nat) (change : Node → Node) :
    (s.setNode vn change).vgs = s.vgs :=
  rfl

@[simp] theorem heap_setVg (s : Drawings) (vg : Nat) (change : Drawing → Drawing) :
    (s.setVg vg change).heap = s.heap :=
  rfl

@[simp] theorem cells_setVg (s : Drawings) (vg : Nat) (change : Drawing → Drawing) :
    (s.setVg vg change).vgs.cells = Function.update s.vgs.cells vg ((s.vgs.cells vg).map change) :=
  rfl

theorem read_setNode (found : s.heap.cells vn = some node) (change : Node → Node)
    (read : Option Node → β) :
    (fun other => read ((s.setNode vn change).heap.cells other)) =
      Function.update (fun other => read (s.heap.cells other)) vn (read (some (change node))) := by
  funext other
  rw [cells_setNode, found]
  by_cases same : other = vn
  · rw [same, Function.update_self, Function.update_self, Option.map_some]
  · rw [Function.update_of_ne same, Function.update_of_ne same]

variable {change : Node → Node}

theorem read_setNode_kept (s : Drawings) (vn : Nat) (read : Option Node → β)
    (kept : ∀ node, read (some (change node)) = read (some node)) :
    (fun other => read ((s.setNode vn change).heap.cells other)) =
      fun other => read (s.heap.cells other) := by
  rcases found : s.heap.cells vn with _ | node
  · funext other
    rw [cells_setNode, found, Option.map_none, ← found, Function.update_eq_self]
  · rw [read_setNode found, kept, ← found, Function.update_eq_self]

theorem grove_setNode_kept (s : Drawings) (vn : Nat)
    (links : ∀ node, (change node).links = node.links) : (s.setNode vn change).grove = s.grove :=
  Grove.ext (read_setNode_kept s vn (fun cell => cell.bind Node.parent)
      fun node => congrArg Prod.fst (links node))
    (read_setNode_kept s vn (fun cell => (cell.map Node.cNodes).getD [])
      fun node => congrArg (fun links => links.2.1) (links node))
    (read_setNode_kept s vn (fun cell => cell.bind Node.vg)
      fun node => congrArg (fun links => links.2.2) (links node))
    rfl rfl

theorem key_setNode (s : Drawings) (vn : Nat) (kept : ∀ node, (change node).key = node.key) :
    (s.setNode vn change).key = s.key :=
  read_setNode_kept s vn (fun cell => cell.map Node.key) fun node => congrArg some (kept node)

@[simp] theorem key_setVg (s : Drawings) (vg : Nat) (change : Drawing → Drawing) :
    (s.setVg vg change).key = s.key :=
  rfl

theorem uses_setNode (s : Drawings) (vn : Nat) (kept : ∀ node, (change node).uses = node.uses) :
    (s.setNode vn change).uses = s.uses :=
  read_setNode_kept s vn (fun cell => cell.map Node.uses) fun node => congrArg some (kept node)

@[simp] theorem uses_setVg (s : Drawings) (vg : Nat) (change : Drawing → Drawing) :
    (s.setVg vg change).uses = s.uses :=
  rfl

end Store

/-! ## Names -/

/-- No node of a list has a class and a handle. -/
def Unnamed (s : Drawings) (ops : NodeOps) (handle : Nat) (nodes : List Nat) : Prop :=
  ∀ vn ∈ nodes, s.key vn ≠ some (ops, handle)

theorem name_injective : Function.Injective NodeOps.name := by
  intro ops other same
  cases ops <;> cases other <;> first | rfl | exact absurd same (by decide)

variable {s : Drawings} {handle : Nat} {ops : NodeOps} {nodes : List Nat}

theorem findNode_eq_none (found : s.findNode handle ops.name nodes = .ok none) :
    s.Unnamed ops handle nodes := by
  induction nodes with
  | nil => exact fun vn member => absurd member List.not_mem_nil
  | cons first rest ih =>
    obtain ⟨node, read, found⟩ := bind_eq_ok.mp found
    split at found
    case isTrue => cases found
    case isFalse other =>
      refine List.forall_mem_cons.mpr ⟨fun same => other ?_, ih found⟩
      rw [key_of_cell (node_eq_ok.mp read)] at same
      obtain ⟨sameOps, sameHandle⟩ := Prod.mk.inj (Option.some.inj same)
      exact ⟨sameHandle, congrArg NodeOps.name sameOps⟩

variable {vn : Nat}

theorem key_of_findNode (found : s.findNode handle ops.name nodes = .ok (some vn)) :
    vn ∈ nodes ∧ s.key vn = some (ops, handle) := by
  induction nodes with
  | nil => cases found
  | cons first rest ih =>
    obtain ⟨node, read, found⟩ := bind_eq_ok.mp found
    split at found
    case isTrue same =>
      obtain rfl := Option.some.inj (Except.ok.inj found)
      refine ⟨List.mem_cons_self, ?_⟩
      rw [key_of_cell (node_eq_ok.mp read), Node.key, same.1, name_injective same.2]
    case isFalse =>
      obtain ⟨member, key⟩ := ih found
      exact ⟨List.mem_cons_of_mem _ member, key⟩

theorem genFrom_first {left name : Nat}
    (generated : s.genFrom nodes ops.name left name = .ok handle)
    (free : s.Unnamed ops name nodes) : handle = name := by
  cases left with
  | zero => cases generated
  | succ left =>
    obtain ⟨found, search, generated⟩ := bind_eq_ok.mp generated
    cases found with
    | none =>
      cases generated
      rfl
    | some vn =>
      obtain ⟨member, key⟩ := key_of_findNode search
      exact absurd key (free vn member)

theorem genFrom_ok {left name : Nat} (generated : s.genFrom nodes ops.name left name = .ok handle) :
    name ≤ handle ∧ s.Unnamed ops handle nodes := by
  induction left generalizing name with
  | zero => cases generated
  | succ left ih =>
    obtain ⟨found, search, generated⟩ := bind_eq_ok.mp generated
    cases found with
    | none =>
      cases generated
      exact ⟨Nat.le_refl _, findNode_eq_none search⟩
    | some vn =>
      have later := ih generated
      exact ⟨Nat.le_of_succ_le later.1, later.2⟩

theorem genNodeName_ok {vg : Nat} (generated : s.genNodeName vg ops.name = .ok handle) :
    0 < handle ∧ s.Unnamed ops handle (s.grove.members vg) ∧
      (s.Unnamed ops 1 (s.grove.members vg) → handle = 1) := by
  obtain ⟨drawing, read, generated⟩ := bind_eq_ok.mp generated
  rw [members_of_cell (drawing_eq_ok.mp read)]
  obtain ⟨positive, unnamed⟩ := genFrom_ok generated
  exact ⟨positive, unnamed, genFrom_first generated⟩

/-! ## Attaching -/

/-- What is stored beside the links stays. -/
structure SameRecords (s after : Drawings) : Prop where
  key : after.key = s.key
  uses : after.uses = s.uses
  freed : after.freed = s.freed
  next : after.heap.next = s.heap.next

theorem SameRecords.refl (s : Drawings) : SameRecords s s := ⟨rfl, rfl, rfl, rfl⟩

theorem SameRecords.trans {middle after : Drawings} (first : SameRecords s middle)
    (second : SameRecords middle after) : SameRecords s after :=
  ⟨second.key.trans first.key, second.uses.trans first.uses,
    second.freed.trans first.freed, second.next.trans first.next⟩

variable {after : Drawings}

/-- What attaching a node below another one does -/
structure Attached (s : Drawings) (p vn vg : Nat) (after : Drawings) : Prop where
  owned : s.grove.owner p = some vg
  grove : after.grove = s.grove.attach p vn vg
  named : ∃ node handle, s.heap.cells vn = some node ∧
        after.key = Function.update s.key vn (some (node.ops, handle)) ∧
        (node.handle ≠ 0 → handle = node.handle) ∧
        (node.handle = 0 → s.Unnamed node.ops handle (s.grove.members vg) ∧
            (s.Unnamed node.ops 1 (s.grove.members vg) → handle = 1))
  uses : after.uses = s.uses
  freed : after.freed = s.freed
  next : after.heap.next = s.heap.next

theorem nodeAttach_some {p : Nat} (unowned : s.grove.owner vn = none)
    (attached : s.nodeAttach (some p) vn = .ok after) : ∃ vg, Attached s p vn vg after := by
  obtain ⟨node, read, attached⟩ := bind_eq_ok.mp attached
  obtain ⟨parentNode, readParent, attached⟩ := bind_eq_ok.mp attached
  obtain ⟨vg, hasVg, attached⟩ := bind_eq_ok.mp attached
  obtain ⟨handle, named, attached⟩ := bind_eq_ok.mp attached
  obtain ⟨drawing, readVg, attached⟩ := bind_eq_ok.mp attached
  obtain rfl := Except.ok.inj attached
  have found := node_eq_ok.mp read
  have foundParent := node_eq_ok.mp readParent
  have foundVg := drawing_eq_ok.mp readVg
  have owned : s.grove.owner p = some vg :=
    (owner_of_cell foundParent).trans (nonNull_eq_ok.mp hasVg)
  have different : vn ≠ p := by
    rintro rfl
    rw [unowned] at owned
    cases owned
  refine ⟨vg, owned, ?_, ⟨node, handle, found, ?_, ?_, ?_⟩, ?_, rfl, rfl⟩
  · refine Grove.ext ?parent ?children ?owner ?root ?members <;> funext other
    case parent | children | owner =>
      by_cases here : other = vn <;> by_cases there : other = p <;>
        simp [grove, Grove.attach, Function.update_apply, here, there, found,
          foundParent, different, Ne.symm different]
    case root | members =>
      by_cases here : other = vg <;>
        simp [grove, Grove.attach, Function.update_apply, here, foundVg]
  · funext other
    by_cases here : other = vn <;> by_cases there : other = p <;>
      simp [key, Node.key, here, there, found, foundParent, different, Ne.symm different]
  · intro hasHandle
    rw [if_neg hasHandle] at named
    exact (Except.ok.inj named).symm
  · intro noHandle
    rw [if_pos noHandle] at named
    exact (genNodeName_ok named).2
  · rw [uses_setNode, uses_setVg, uses_setNode, uses_setNode] <;>
      exact fun _ => rfl

/-! ## References -/

theorem addRef_links {ref : Nat} (added : s.addRef vn ref = .ok after) :
    after.grove = s.grove ∧ after.key = s.key ∧
      after.freed = s.freed ∧ after.heap.next = s.heap.next := by
  obtain ⟨node, read, added⟩ := bind_eq_ok.mp added
  obtain ⟨refNode, readRef, added⟩ := bind_eq_ok.mp added
  obtain rfl := Except.ok.inj added
  refine ⟨?_, ?_, rfl, rfl⟩
  · rw [grove_setNode_kept, grove_setNode_kept] <;> exact fun _ => rfl
  · rw [key_setNode, key_setNode] <;> exact fun _ => rfl

theorem delRef_links {ref newDeps : Nat} (removed : s.delRef vn ref = .ok (newDeps, after)) :
    after.grove = s.grove ∧ after.key = s.key ∧
      after.freed = s.freed ∧ after.heap.next = s.heap.next := by
  obtain ⟨node, read, removed⟩ := bind_eq_ok.mp removed
  split at removed
  case isFalse => cases removed
  case isTrue =>
    obtain ⟨refNode, readRef, removed⟩ := bind_eq_ok.mp removed
    obtain ⟨-, rfl⟩ := Prod.mk.inj (Except.ok.inj removed)
    refine ⟨?_, ?_, rfl, rfl⟩
    · rw [grove_setNode_kept, grove_setNode_kept] <;> exact fun _ => rfl
    · rw [key_setNode, key_setNode] <;> exact fun _ => rfl

/-! ## Making nodes and drawings -/

section Make

variable {s after : Drawings}

theorem owner_next (s : Drawings) : s.grove.owner s.heap.next = none := by
  simp [grove, s.heap.unused s.heap.next (Nat.le_refl _)]

theorem grove_alloc (s : Drawings) (ops : NodeOps) (pts : List Nat) :
    Drawings.grove { s with heap := s.heap.alloc (Node.init ops pts) } = s.grove := by
  have unused := s.heap.unused s.heap.next (Nat.le_refl _)
  refine Grove.ext ?parent ?children ?owner rfl rfl
  case parent | children | owner =>
    funext other
    by_cases here : other = s.heap.next
    · simp [grove, Heap.cells_alloc, here, unused, Node.init]
    · simp [grove, Heap.cells_alloc, here]

theorem key_alloc (s : Drawings) (ops : NodeOps) (pts : List Nat) :
    Drawings.key { s with heap := s.heap.alloc (Node.init ops pts) } =
      Function.update s.key s.heap.next (some (ops, 0)) := by
  funext other
  by_cases here : other = s.heap.next
  · simp [key, Heap.cells_alloc, here, Node.init, Node.key]
  · simp [key, Heap.cells_alloc, here]

theorem addRefs_links {pts : List Nat}
    (added : pts.foldlM (fun s pt => s.addRef vn pt) s = .ok after) :
    after.grove = s.grove ∧ after.key = s.key ∧
      after.freed = s.freed ∧ after.heap.next = s.heap.next := by
  induction pts generalizing s with
  | nil =>
    obtain rfl := Except.ok.inj added
    exact ⟨rfl, rfl, rfl, rfl⟩
  | cons pt pts ih =>
    rw [List.foldlM_cons] at added
    obtain ⟨middle, first, added⟩ := bind_eq_ok.mp added
    obtain ⟨grove, key, freed, next⟩ := addRef_links first
    obtain ⟨laterGrove, laterKey, laterFreed, laterNext⟩ := ih added
    exact ⟨laterGrove.trans grove, laterKey.trans key, laterFreed.trans freed, laterNext.trans next⟩

theorem newNode_steps {parent : Option Nat} {pts : List Nat}
    (created : s.newNode parent ops pts = .ok after) :
    ∃ begun, pts.foldlM (fun begun pt => begun.addRef s.heap.next pt)
          { s with heap := s.heap.alloc (Node.init ops pts) } = .ok begun ∧
        begun.grove = s.grove ∧ begun.key = Function.update s.key s.heap.next (some (ops, 0)) ∧
        begun.freed = s.freed ∧ begun.heap.next = s.heap.next + 1 ∧
        begun.nodeAttach parent s.heap.next = .ok after := by
  obtain ⟨begun, referring, attached⟩ := bind_eq_ok.mp created
  obtain ⟨grove, key, freed, next⟩ := addRefs_links referring
  exact ⟨begun, referring, grove.trans (grove_alloc s ops pts),
    key.trans (key_alloc s ops pts), freed, next, attached⟩

theorem newVg_planted (made : s.newVg = .ok after) :
    after.grove = s.grove.plant s.vgs.next s.heap.next ∧
      after.key = Function.update s.key s.heap.next (some (.point, 1)) ∧
      s.grove.root s.vgs.next = none := by
  have unused := s.vgs.unused s.vgs.next (Nat.le_refl _)
  have unrooted : s.grove.root s.vgs.next = none := by simp [grove, unused]
  obtain ⟨created, creates, made⟩ := bind_eq_ok.mp made
  obtain rfl := Except.ok.inj made
  obtain ⟨begun, begins, attached⟩ := bind_eq_ok.mp creates
  obtain rfl := Except.ok.inj begins
  obtain ⟨node, read, attached⟩ := bind_eq_ok.mp attached
  obtain rfl := Except.ok.inj attached
  have fresh := s.heap.unused s.heap.next (Nat.le_refl _)
  refine ⟨Grove.ext ?parent ?children ?owner ?root ?members, ?_, unrooted⟩
  case parent | children | owner =>
    funext other
    by_cases here : other = s.heap.next <;>
      simp [grove, Grove.plant, Heap.cells_alloc, here, fresh, Node.init]
  case root | members =>
    funext other
    by_cases here : other = s.vgs.next <;>
      simp [grove, Grove.plant, Heap.cells_alloc, here, unused]
  · funext other
    by_cases here : other = s.heap.next <;>
      simp [key, Node.key, Heap.cells_alloc, here, Node.init]

theorem polygonVertex_links {vP pt : Nat} (added : s.polygonVertex vP pt = .ok after) :
    after.grove = s.grove ∧ after.key = s.key := by
  obtain ⟨polygon, read, added⟩ := bind_eq_ok.mp added
  obtain ⟨vg, hasVg, added⟩ := bind_eq_ok.mp added
  obtain ⟨grove, key, -, -⟩ := addRef_links added
  rw [grove, key]
  exact ⟨grove_setNode_kept s vP fun _ => rfl, key_setNode s vP fun _ => rfl⟩

theorem polygonDelVertex_links {vP vtx : Nat} (removed : s.polygonDelVertex vP vtx = .ok after) :
    after.grove = s.grove ∧ after.key = s.key := by
  obtain ⟨polygon, read, removed⟩ := bind_eq_ok.mp removed
  obtain ⟨vg, hasVg, removed⟩ := bind_eq_ok.mp removed
  split at removed
  case h_1 =>
    obtain rfl := Except.ok.inj removed
    exact ⟨rfl, rfl⟩
  case h_2 pt _ =>
    obtain ⟨⟨newDeps, middle⟩, deleted, removed⟩ := bind_eq_ok.mp removed
    obtain rfl := Except.ok.inj removed
    obtain ⟨grove, key, -, -⟩ := delRef_links deleted
    refine ⟨?_, ?_⟩
    · rw [← grove]
      exact grove_setNode_kept middle vP fun _ => rfl
    · rw [← key]
      exact key_setNode middle vP fun _ => rfl

end Make

end Drawings

end Agar.Vg
