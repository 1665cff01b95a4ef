import Agar.Core.VariableStore
import Agar.Lib.ByteArray

namespace Agar.Core

open Agar.Lib

/-!
# Lists of variables

An `AG_List` has its elements in an array of variables, which is reallocated
when an element is added.  A string variable that no buffer holds is copied
with its string, and the list frees the copy.  An access behind the end of the
array has no defined result, as has using an element that was never written.
-/

/-- The largest `int` -/
abbrev intMax : Nat := 2147483647

/-- The list is to free the string of a variable. -/
def StoredVariable.OwnsString (V : StoredVariable) : Prop := V.type = .string ∧ V.info = 0

instance (V : StoredVariable) : Decidable V.OwnsString := inferInstanceAs (Decidable (_ ∧ _))

/-- A variable that is passed to a list, and what its string pointer leads to -/
structure ListItem where
  V : StoredVariable
  memory : List UInt8

/--
`AG_List`, with the array up to the end of its allocation.  `reached` is where
the accesses of the last function ended; no function reads it.
-/
structure VariableList where
  n : Nat
  v : List (Option StoredVariable)
  reached : Nat

namespace VariableMemory

/-- `AG_Free` of the string of a variable that the list owns. -/
def freeString (m : VariableMemory) (V : StoredVariable) : Except Stop VariableMemory :=
  if V.OwnsString then
    match V.data.address with
    | some address => m.free address
    | none => .error .undefined
  else .ok m

/-- `AG_Strdup` of the string of a variable, where the list is to own it. -/
def dupString (m : VariableMemory) (V : StoredVariable) (memory : Option (List UInt8)) :
    Except Stop (StoredVariable × VariableMemory) :=
  if V.OwnsString then
    match V.data.address, memory with
    | some (_ + 1), some bytes =>
      .ok ({ V with data := .s m.heap.next }, (m.strdup (cString bytes)).give m.heap.next)
    | _, _ => .error .undefined
  else .ok (V, m)

/-- The bytes that the string pointer of a variable leads to. -/
def bytesOf (m : VariableMemory) (V : StoredVariable) : Option (List UInt8) :=
  V.data.address.bind fun address => (m.heap.cells address).map (·.bytes)

end VariableMemory

namespace VariableList

/-- `AG_ListNew` -/
def new : VariableList where
  n := 0
  v := []
  reached := 0

/-- Note that the elements before a position were accessed. -/
def access (L : VariableList) (limit : Nat) : VariableList :=
  { L with reached := max L.reached limit }

/-- Read an element. -/
def load (L : VariableList) (index : Nat) : Except Stop (StoredVariable × VariableList) :=
  match L.v[index]? with
  | some (some V) => .ok (V, L.access (index + 1))
  | _ => .error .undefined

/-- `memcpy` of a variable to an element -/
def store (L : VariableList) (index : Nat) (V : StoredVariable) : Except Stop VariableList :=
  if index < L.v.length then .ok { L.access (index + 1) with v := L.v.set index (some V) }
  else .error .undefined

/-- `memmove` of elements -/
def memmove (L : VariableList) (dst src count : Nat) : Except Stop VariableList :=
  if src + count ≤ L.v.length ∧ dst + count ≤ L.v.length then
    .ok { L.access (max src dst + count) with
      v := splice L.v dst ((L.v.drop src).take count)
    }
  else .error .undefined

/-- `memmove` of elements, where there are any to move -/
def moveWhere (L : VariableList) (follow : Prop) [Decidable follow]
    (dst src count : Nat) : Except Stop VariableList :=
  if follow then L.memmove dst src count else .ok L

/-- `AG_TryRealloc` of the array, which is granted -/
def realloc (L : VariableList) (count : Nat) : VariableList :=
  { L with v := resize (fun _ => none) count L.v }

/-- Copy a variable to an element, and then its string. -/
def put (L : VariableList) (index : Nat) (item : ListItem)
    (m : VariableMemory) : Except Stop (VariableList × VariableMemory) := do
  let L ← L.store index item.V
  let (V, m) ← m.dupString item.V (some item.memory)
  let L ← L.store index V
  return (L, m)

/-- `AG_ListAppend` -/
def append (L : VariableList) (item : ListItem) (m : VariableMemory) :
    Except Stop (VariableList × VariableMemory × Int) :=
  if L.n < intMax then do
    let (L, m) ← (L.realloc (L.n + 1)).put L.n item m
    return ({ L with n := L.n + 1 }, m, L.n)
  else .error .undefined

/-- `AG_ListInsert` -/
def insert (L : VariableList) (pos : Int) (item : ListItem) (m : VariableMemory) :
    Except Stop (VariableList × VariableMemory × Int) :=
  if pos < 0 ∨ pos > L.n then .ok (L, m, -1)
  else if L.n < intMax then do
    -- `vLen` less one element: as many as there are, from any position
    let L ← (L.realloc (L.n + 1)).moveWhere (pos < L.n) (pos.toNat + 1) pos.toNat L.n
    let (L, m) ← L.put pos.toNat item m
    return (L, m, pos)
  else .error .undefined

/-- `AG_ListPrepend` -/
def prepend (L : VariableList) (item : ListItem) (m : VariableMemory) :
    Except Stop (VariableList × VariableMemory × Int) :=
  L.insert 0 item m

/-- `AG_ListRemove` -/
def remove (L : VariableList) (idx : Int) (m : VariableMemory) :
    Except Stop (VariableList × VariableMemory × Int) :=
  if idx < 0 ∨ idx ≥ L.n then .ok (L, m, -1)
  else do
    let (V, L) ← L.load idx.toNat
    let m ← m.freeString V
    let L ← L.moveWhere (idx < L.n - 1) idx.toNat (idx.toNat + 1) (L.n - 1)
    return ({ L with n := L.n - 1 }, m, 1)

/-- One round of the loop of `AG_ListClear` -/
def clearElement (state : VariableList × VariableMemory)
    (index : Nat) : Except Stop (VariableList × VariableMemory) := do
  let (V, L) ← state.1.load index
  let m ← state.2.freeString V
  return (L, m)

/-- `AG_ListClear`, which returns nothing -/
def clear (L : VariableList) (m : VariableMemory) :
    Except Stop (VariableList × VariableMemory × Int) := do
  let (L, m) ← (List.range L.n).foldlM clearElement (L, m)
  return ({ L with v := [] }, m, 0)

/-- The loop of `AG_ListDup` over the elements and their copies -/
def dupElements : List (Option StoredVariable) → VariableMemory →
      Except Stop (List (Option StoredVariable) × VariableMemory)
  | some V :: rest, m => do
      let (V, m) ← m.dupString V (m.bytesOf V)
      let (rest, m) ← dupElements rest m
      return (some V :: rest, m)
  | none :: _, _ => .error .undefined
  | [], m => .ok ([], m)

/-- `AG_ListDup`: the list and its duplicate -/
def dup (L : VariableList) (m : VariableMemory) :
    Except Stop (VariableList × VariableList × VariableMemory) :=
  if L.n ≤ L.v.length then do
    let (v, m) ← dupElements (L.v.take L.n) m
    return (L.access L.n, { n := L.n, v := v, reached := L.n }, m)
  else .error .undefined

end VariableList

/-- The lists of a program, and the memory of their strings. -/
structure ListState where
  lists : List VariableList
  memory : VariableMemory

/-- A call for one of the lists, which the program numbers. -/
inductive ListCall where
  | new
  | append (list : Nat) (item : ListItem)
  | insert (list : Nat) (pos : Int) (item : ListItem)
  | prepend (list : Nat) (item : ListItem)
  | remove (list : Nat) (idx : Int)
  | clear (list : Nat)
  | dup (list : Nat)

namespace ListState

/-- No list, and nothing allocated -/
def initial : ListState where
  lists := []
  memory := { heap := .empty, strings := [] }

/--
Call a function for a list, where there is one.  The reply comes with whether
the function kept to the elements that the list has before it or after it.
-/
def on (s : ListState) (list : Nat)
    (f : VariableList → VariableMemory → Except Stop (VariableList × VariableMemory × Int)) :
    Option (ListState × Int × Bool) :=
  match s.lists[list]? with
  | some L =>
    match f { L with reached := 0 } s.memory with
    | .ok (M, m, reply) =>
      some ({ lists := s.lists.set list M, memory := m }, reply, decide (M.reached ≤ max L.n M.n))
    | .error _ => none
  | none => some (s, 0, true)

/-- Make a call. -/
def step (s : ListState) : ListCall → Option (ListState × Int × Bool)
  | .new => some ({ s with lists := s.lists ++ [.new] }, s.lists.length, true)
  | .append list item => s.on list fun L m => L.append item m
  | .insert list pos item => s.on list fun L m => L.insert pos item m
  | .prepend list item => s.on list fun L m => L.prepend item m
  | .remove list idx => s.on list fun L m => L.remove idx m
  | .clear list => s.on list fun L m => L.clear m
  | .dup list =>
    match s.lists[list]? with
    | some L =>
      match ({ L with reached := 0 } : VariableList).dup s.memory with
      | .ok (M, copy, m) =>
        some ({ lists := s.lists.set list M ++ [copy], memory := m }, s.lists.length,
          decide (M.reached ≤ max L.n M.n ∧ copy.reached ≤ copy.n))
      | .error _ => none
    | none => some (s, 0, true)

end ListState

end Agar.Core
