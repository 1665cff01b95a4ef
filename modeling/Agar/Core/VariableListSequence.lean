import Agar.Core.VariableList

namespace Agar.Core

open Agar.Lib

/-!
# Lists of variables as sequences

What the lists stand for: sequences of variables, of which those that own a
string have it for themselves.  An element that was inserted is not counted,
one that is removed from between two others is replaced by more elements than
there are, and a list that was cleared keeps its count; everything else does
what it would to a sequence.
-/

/-- An element of a sequence: a string under a name, or another variable. -/
inductive ListElement where
  | owned (name : CString variableNameMax) (text : List UInt8)
  | other (V : StoredVariable)

namespace ListItem

/-- The element that a variable is to become. -/
def element (item : ListItem) : ListElement :=
  if item.V.OwnsString then .owned item.V.name (cString item.memory) else .other item.V

/-- A string that the list is to copy is there. -/
def Readable (item : ListItem) : Prop :=
  item.V.OwnsString → ∃ address, item.V.data.address = some (address + 1)

end ListItem

/-- Sequences, in the place of lists. -/
abbrev Sequences := List (List ListElement)

namespace Sequences

/-- Change a sequence, where there is one. -/
def on (ideal : Sequences) (list : Nat) (f : List ListElement → List ListElement × Int) :
    Sequences × Int × Bool :=
  match ideal[list]? with
  | some elements => (ideal.set list (f elements).1, (f elements).2, true)
  | none => (ideal, 0, true)

/-- Insert an element, where there is such a position. -/
def inserted (pos : Int) (element : ListElement)
    (elements : List ListElement) : List ListElement × Int :=
  if 0 ≤ pos ∧ pos ≤ elements.length then (elements.insertIdx pos.toNat element, pos)
  else (elements, -1)

/-- What a call means. -/
def step (ideal : Sequences) : ListCall → Sequences × Int × Bool
  | .new => (ideal ++ [[]], ideal.length, true)
  | .append list item => ideal.on list fun elements => (elements ++ [item.element], elements.length)
  | .insert list pos item => ideal.on list (inserted pos item.element)
  | .prepend list item => ideal.on list (inserted 0 item.element)
  | .remove list idx =>
    ideal.on list fun elements =>
      if 0 ≤ idx ∧ idx < elements.length then (elements.eraseIdx idx.toNat, 1) else (elements, -1)
  | .clear list => ideal.on list fun _ => ([], 0)
  | .dup list =>
    match ideal[list]? with
    | some elements => (ideal ++ [elements], ideal.length, true)
    | none => (ideal, 0, true)

end Sequences

/-- The string that an element owns. -/
def ownedString : Option StoredVariable → List Address
  | some V => if V.OwnsString then V.data.address.toList else []
  | none => []

namespace VariableList

/-- The elements that are counted. -/
def elements (L : VariableList) : List (Option StoredVariable) := L.v.take L.n

/-- The strings that the elements of a list own. -/
def strings (L : VariableList) : List Address := L.elements.flatMap ownedString

end VariableList

/-- An element of an array is an element of a sequence. -/
def ListElement.HeldIn (heap : Heap Block) (cell : Option StoredVariable) : ListElement → Prop
  | .owned name text =>
    0 ∉ text ∧ ∃ address, cell = some {
          name := name
          type := .string
          info := 0
          data := .s address
        } ∧ heap.cells address = some { bytes := text ++ [0], malloced := true }
  | .other V => cell = some V ∧ ¬ V.OwnsString

/-- A list has the elements of a sequence, and counts them. -/
structure VariableList.Holds (heap : Heap Block) (L : VariableList)
    (sequence : List ListElement) : Prop where
  count : L.n = sequence.length
  elements : List.Forall₂ (ListElement.HeldIn heap) L.elements sequence

/--
Some addresses are of strings that were allocated, none of them twice, and
these are the strings that the lists were given and did not free.
-/
structure StringsOwned (addresses : List Address) (m : VariableMemory) : Prop where
  owned : m.heap.Owned (fun block => block.malloced = true) addresses
  given : m.strings.Perm addresses

/--
The lists hold the sequences, and each string that was given to a list and not
freed is that of one element.
-/
structure ListsRefine (s : ListState) (ideal : Sequences) : Prop where
  holds : List.Forall₂ (VariableList.Holds s.memory.heap) s.lists ideal
  strings : StringsOwned (s.lists.flatMap VariableList.strings) s.memory

/-! ## The memory of the strings -/

/--
What the program owned at some addresses is at others then, and what else it
owns is as it was.
-/
def Turns (m next : VariableMemory) (old new : List Address) : Prop :=
  ∀ others, StringsOwned (old ++ others) m → StringsOwned (new ++ others) next ∧
        ∀ address ∈ others, next.heap.cells address = m.heap.cells address

section

variable {m next : VariableMemory} {addresses others old new : List Address}
  {cells : List (Option StoredVariable)} {sequence : List ListElement}

theorem StringsOwned.perm (owned : StringsOwned addresses m) (same : addresses.Perm others) :
    StringsOwned others m where
  owned := owned.owned.perm same
  given := owned.given.trans same

theorem Turns.refl (same : old.Perm new) : Turns m m old new := by
  intro others owned
  exact ⟨owned.perm (same.append_right others), fun _ _ => rfl⟩

theorem Turns.perm (turns : Turns m next old new) {before after : List Address}
    (fromOld : before.Perm old) (toNew : new.Perm after) : Turns m next before after := by
  intro others owned
  obtain ⟨owned, kept⟩ := turns others (owned.perm (fromOld.append_right others))
  exact ⟨owned.perm (toNew.append_right others), kept⟩

theorem Turns.beside (turns : Turns m next old new) (more : List Address) :
    Turns m next (old ++ more) (new ++ more) := by
  intro others owned
  rw [List.append_assoc] at owned ⊢
  obtain ⟨owned, kept⟩ := turns (more ++ others) owned
  exact ⟨owned, fun address member => kept address (List.mem_append_right more member)⟩

theorem turns_give (s : List UInt8) : Turns m ((m.strdup s).give m.heap.next) [] [m.heap.next] := by
  intro others owned
  refine ⟨⟨owned.owned.alloc rfl, owned.given.cons m.heap.next⟩, ?_⟩
  intro address member
  have different : address ≠ m.heap.next := by
    rintro rfl
    exact owned.owned.next_not_mem member
  exact Function.update_of_ne different ..

theorem turns_free {address : Address} (owned : StringsOwned (address :: addresses) m) : ∃ next,
      m.free address = .ok next ∧ Turns m next [address] [] := by
  obtain ⟨block, found, malloced⟩ := owned.owned.allocated address List.mem_cons_self
  have nonzero : address ≠ 0 := by
    rintro rfl
    rw [m.heap.null] at found
    cases found
  refine ⟨{
    heap := m.heap.free address
    strings := m.strings.erase address
  }, ?_, ?_⟩
  · rw [VariableMemory.free, if_neg nonzero, found]
    exact if_pos malloced
  · intro others owned
    have fresh : address ∉ others := (List.nodup_cons.mp owned.owned.once).1
    refine ⟨⟨owned.owned.free, ?_⟩, ?_⟩
    · have given := owned.given.erase address
      rwa [List.singleton_append, List.erase_cons_head] at given
    · intro other member
      exact Function.update_of_ne (ne_of_mem_of_not_mem member fresh) ..

variable {element : ListElement}

theorem ListElement.HeldIn.kept {cell : Option StoredVariable} (held : element.HeldIn m.heap cell)
    (kept : ∀ address ∈ ownedString cell, next.heap.cells address = m.heap.cells address) :
    element.HeldIn next.heap cell := by
  cases element with
  | other V => exact held
  | owned name text =>
    obtain ⟨noNul, address, rfl, found⟩ := held
    refine ⟨noNul, address, rfl, ?_⟩
    rw [kept address List.mem_cons_self]
    exact found

theorem heldIn_kept (held : List.Forall₂ (ListElement.HeldIn m.heap) cells sequence)
    (kept : ∀ address ∈ cells.flatMap ownedString, next.heap.cells address = m.heap.cells address) :
    List.Forall₂ (ListElement.HeldIn next.heap) cells sequence := by
  induction held with
  | nil => exact .nil
  | cons first _ ih =>
    rw [List.flatMap_cons] at kept
    refine .cons (first.kept fun address member => ?_) (ih fun address member => ?_)
    · exact kept address (List.mem_append_left _ member)
    · exact kept address (List.mem_append_right _ member)

theorem ListElement.HeldIn.written {heap : Heap Block} {cell : Option StoredVariable}
    (held : element.HeldIn heap cell) : ∃ V, cell = some V := by
  cases element with
  | other V => exact ⟨V, held.1⟩
  | owned name text =>
    obtain ⟨_, address, rfl, _⟩ := held
    exact ⟨_, rfl⟩

theorem dupString_spec {V : StoredVariable} {memory : Option (List UInt8)} {bytes : List UInt8}
    (readable : V.OwnsString → memory = some bytes ∧
          ∃ address, V.data.address = some (address + 1)) :
    ∃ W next, m.dupString V memory = .ok (W, next) ∧
        (ListItem.element ⟨V, bytes⟩).HeldIn next.heap (some W) ∧
          Turns m next [] (ownedString (some W)) := by
  by_cases owns : V.OwnsString
  · obtain ⟨rfl, address, found⟩ := readable owns
    have element : ListItem.element ⟨V, bytes⟩ = .owned V.name (cString bytes) := if_pos owns
    refine ⟨{ V with data := .s m.heap.next },
      (m.strdup (cString bytes)).give m.heap.next, ?_, ?_, ?_⟩
    · simp only [VariableMemory.dupString, if_pos owns, found]
    · rw [element]
      refine ⟨cString_noNul bytes, m.heap.next, ?_, Function.update_self ..⟩
      rw [owns.1, owns.2]
    · have text : ownedString (some { V with data := .s m.heap.next }) = [m.heap.next] :=
        if_pos owns
      rw [text]
      exact turns_give _
  · have element : ListItem.element ⟨V, bytes⟩ = .other V := if_neg owns
    refine ⟨V, m, if_neg owns, ?_, ?_⟩
    · rw [element]
      exact ⟨rfl, owns⟩
    · rw [ownedString, if_neg owns]
      exact Turns.refl (.refl _)

theorem dupElement_spec {V : StoredVariable} (held : element.HeldIn m.heap (some V)) :
    ∃ W next, m.dupString V (m.bytesOf V) = .ok (W, next) ∧ element.HeldIn next.heap (some W) ∧
          Turns m next [] (ownedString (some W)) := by
  cases element with
  | other other =>
    obtain ⟨same, notOwned⟩ := held
    obtain rfl := Option.some.inj same
    have readable (owns : V.OwnsString) :
        m.bytesOf V = some [] ∧ ∃ address, V.data.address = some (address + 1) :=
      absurd owns notOwned
    obtain ⟨W, next, copied, held, turns⟩ := dupString_spec readable
    rw [ListItem.element, if_neg notOwned] at held
    exact ⟨W, next, copied, held, turns⟩
  | owned name text =>
    obtain ⟨noNul, address, same, found⟩ := held
    obtain rfl := Option.some.inj same
    have nonzero : address ≠ 0 := by
      rintro rfl
      rw [m.heap.null] at found
      cases found
    obtain ⟨before, rfl⟩ := Nat.exists_eq_succ_of_ne_zero nonzero
    obtain ⟨W, next, copied, held, turns⟩ :=
      dupString_spec (m := m) (V := ⟨name, .string, 0, .s (before + 1)⟩) fun _ => ⟨rfl, before, rfl⟩
    have element : ListItem.element ⟨⟨name, .string, 0, .s (before + 1)⟩, text ++ [0]⟩ =
          .owned name text := by
      rw [ListItem.element, if_pos ⟨rfl, rfl⟩, cString_terminated noNul]
    have bytes : m.bytesOf ⟨name, .string, 0, .s (before + 1)⟩ = some (text ++ [0]) := by
      simp only [VariableMemory.bytesOf, VariableData.address,
        Option.bind_some, found, Option.map_some]
    rw [element] at held
    rw [bytes]
    exact ⟨W, next, copied, held, turns⟩

theorem dupElements_spec (held : List.Forall₂ (ListElement.HeldIn m.heap) cells sequence)
    (owned : StringsOwned addresses m)
    (among : ∀ address ∈ cells.flatMap ownedString, address ∈ addresses) :
    ∃ copies next, VariableList.dupElements cells m = .ok (copies, next) ∧
        List.Forall₂ (ListElement.HeldIn next.heap) copies sequence ∧
          StringsOwned (copies.flatMap ownedString ++ addresses) next ∧ ∀ address ∈ addresses,
              next.heap.cells address = m.heap.cells address := by
  induction cells generalizing m sequence addresses with
  | nil =>
    cases held
    exact ⟨[], m, rfl, .nil, owned, fun _ _ => rfl⟩
  | cons cell rest ih =>
    obtain ⟨element, later, first, laterHeld, rfl⟩ := List.forall₂_cons_left_iff.mp held
    obtain ⟨V, rfl⟩ := first.written
    obtain ⟨W, middle, copied, heldCopy, turns⟩ := dupElement_spec first
    obtain ⟨ownedMiddle, keptMiddle⟩ := turns addresses owned
    rw [List.flatMap_cons] at among
    have laterMiddle :=
      heldIn_kept laterHeld fun address member =>
        keptMiddle address (among address (List.mem_append_right _ member))
    obtain ⟨copies, next, copiedLater, heldLater, ownedLater, keptLater⟩ :=
      ih laterMiddle ownedMiddle fun address member =>
        List.mem_append_right _ (among address (List.mem_append_right _ member))
    refine ⟨some W :: copies, next, ?_, .cons ?_ heldLater, ?_, ?_⟩
    · rw [VariableList.dupElements, copied]
      simp only [bind, Except.bind, copiedLater]
      rfl
    · exact heldCopy.kept fun address member => keptLater address (List.mem_append_left _ member)
    · apply ownedLater.perm
      rw [List.flatMap_cons, ← List.append_assoc]
      exact List.perm_append_comm.append_right addresses
    · intro address member
      rw [keptLater address (List.mem_append_right _ member), keptMiddle address member]

end

/-! ## Arrays and elements -/

section

variable {heap : Heap Block} {L : VariableList} {m : VariableMemory} {sequence : List ListElement}

theorem set_resize {cells : List (Option StoredVariable)} {count : Nat}
    (inside : count ≤ cells.length) (cell : Option StoredVariable) :
    (resize (fun _ => none) (count + 1) cells).set count cell = cells.take count ++ [cell] := by
  have length : (resize (fun _ => (none : Option StoredVariable)) (count + 1)
        cells).length = count + 1 :=
    length_resize _ _ _
  have kept : (resize (fun _ => none) (count + 1) cells).take count = cells.take count := by
    rw [resize, List.take_append_of_le_length, List.take_take, Nat.min_eq_left (Nat.le_succ count)]
    rw [List.length_take]
    exact Nat.le_min.mpr ⟨Nat.le_succ count, inside⟩
  rw [List.set_eq_take_append_cons_drop, if_pos (by rw [length]; omega), kept,
    List.drop_eq_nil_of_le (by rw [length])]

theorem VariableList.Holds.inside (holds : L.Holds heap sequence) : L.n ≤ L.v.length := by
  have lengths := holds.elements.length_eq
  rw [VariableList.elements, List.length_take, ← holds.count] at lengths
  omega

variable {index : Nat}

theorem VariableList.Holds.load (holds : L.Holds heap sequence) (inside : index < L.n) :
    ∃ V, L.load index = .ok (V, L.access (index + 1)) ∧ L.elements[index]? = some (some V) ∧
          ∃ element ∈ sequence, element.HeldIn heap (some V) := by
  have within : index < L.elements.length := by
    rw [holds.elements.length_eq, ← holds.count]
    exact inside
  have member : L.elements[index] ∈ L.elements := List.getElem_mem within
  obtain ⟨element, listed, held⟩ := forall₂_mem holds.elements member
  obtain ⟨V, written⟩ := held.written
  have found : L.elements[index]? = some (some V) := by
    rw [List.getElem?_eq_getElem within, written]
  refine ⟨V, ?_, found, element, listed, written ▸ held⟩
  rw [VariableList.elements, List.getElem?_take_of_lt inside] at found
  rw [VariableList.load, found]

theorem freeString_spec {V : StoredVariable} {element : ListElement} {others : List Address}
    (held : element.HeldIn m.heap (some V))
    (owned : StringsOwned (ownedString (some V) ++ others) m) :
    ∃ next, m.freeString V = .ok next ∧ Turns m next (ownedString (some V)) [] := by
  cases element with
  | other other =>
    obtain ⟨same, notOwned⟩ := held
    obtain rfl := Option.some.inj same
    refine ⟨m, if_neg notOwned, ?_⟩
    rw [ownedString, if_neg notOwned]
    exact Turns.refl (.refl _)
  | owned name text =>
    obtain ⟨_, address, same, _⟩ := held
    obtain rfl := Option.some.inj same
    exact turns_free owned

variable {item : ListItem}

theorem VariableList.put_spec (inside : index < L.v.length) (readable : item.Readable) :
    ∃ V next, L.put index item m =
          .ok ({ (L.access (index + 1)).access (index + 1) with
            v := L.v.set index (some V)
          }, next) ∧
        item.element.HeldIn next.heap (some V) ∧ Turns m next [] (ownedString (some V)) := by
  obtain ⟨V, next, copied, held, turns⟩ :=
    dupString_spec (m := m) fun owns => ⟨(rfl : some item.memory = some item.memory), readable owns⟩
  refine ⟨V, next, ?_, held, turns⟩
  simp only [VariableList.put, VariableList.store, if_pos inside, bind,
    Except.bind, copied, VariableList.access, List.length_set, List.set_set]
  rfl

theorem VariableList.Holds.append (holds : L.Holds m.heap sequence) (room : L.n < intMax)
    {item : ListItem} (readable : item.Readable) {others : List Address}
    (owned : StringsOwned (L.strings ++ others) m) :
    ∃ M next, L.append item m = .ok (M, next, L.n) ∧
        M.Holds next.heap (sequence ++ [item.element]) ∧ Turns m next L.strings M.strings ∧
            M.reached ≤ max L.reached M.n := by
  have length : (L.realloc (L.n + 1)).v.length = L.n + 1 := length_resize _ _ _
  obtain ⟨V, next, put, held, turns⟩ :=
    VariableList.put_spec (L := L.realloc (L.n + 1)) (m := m)
      (by rw [length]; exact Nat.lt_succ_self L.n) readable
  have array : (L.realloc (L.n + 1)).v.set L.n (some V) = L.elements ++ [some V] :=
    set_resize holds.inside (some V)
  have counted : L.elements.length = L.n := holds.elements.length_eq.trans holds.count.symm
  rw [array] at put
  have elements (reached : Nat) :
      VariableList.elements ⟨L.n + 1, L.elements ++ [some V], reached⟩ = L.elements ++ [some V] :=
    List.take_of_length_le (by
      rw [List.length_append, counted, List.length_singleton])
  refine ⟨{
    n := L.n + 1
    v := L.elements ++ [some V]
    reached := max (max L.reached (L.n + 1)) (L.n + 1)
  }, next, ?_, ?_, ?_, ?_⟩
  · simp only [VariableList.append, if_pos room, bind, Except.bind, put]
    rfl
  · refine ⟨by rw [List.length_append, ← holds.count]; rfl, ?_⟩
    rw [elements]
    refine List.rel_append ?_ (.cons held .nil)
    exact heldIn_kept holds.elements fun address member =>
      (turns _ owned).2 address (List.mem_append_left others member)
  · apply (turns.beside L.strings).perm (.refl _)
    rw [VariableList.strings, VariableList.strings, elements,
      List.flatMap_append, List.flatMap_singleton]
    exact List.perm_append_comm
  · dsimp only
    omega

theorem VariableList.Holds.remove (holds : L.Holds m.heap sequence) (inside : index < L.n)
    (atEnd : index = 0 ∨ index = L.n - 1) {others : List Address}
    (owned : StringsOwned (L.strings ++ others) m) :
    ∃ M next, L.remove index m = .ok (M, next, 1) ∧ M.Holds next.heap (sequence.eraseIdx index) ∧
          Turns m next L.strings M.strings ∧ M.reached ≤ max L.reached L.n := by
  obtain ⟨V, loaded, found, element, _, held⟩ := holds.load inside
  obtain ⟨within, here⟩ := List.getElem?_eq_some_iff.mp found
  have counted : L.elements.length = L.n := holds.elements.length_eq.trans holds.count.symm
  have parted : L.strings.Perm (ownedString (some V) ++
        (L.elements.eraseIdx index).flatMap ownedString) := by
    have split := (List.getElem_cons_eraseIdx_perm within).flatMap_right ownedString
    rw [here, List.flatMap_cons] at split
    exact split.symm
  have ownedParts : StringsOwned (ownedString (some V) ++
        ((L.elements.eraseIdx index).flatMap ownedString ++ others)) m := by
    rw [← List.append_assoc]
    exact owned.perm (parted.append_right others)
  obtain ⟨next, freed, turns⟩ := freeString_spec held ownedParts
  have kept := (turns _ ownedParts).2
  have valid : ¬ ((index : Int) < 0 ∨ (index : Int) ≥ L.n) := by omega
  -- whichever way the array ends up, its counted elements are the others
  have removed {M : VariableList} (count : M.n = L.n - 1)
      (elements : M.elements = L.elements.eraseIdx index) :
      M.Holds next.heap (sequence.eraseIdx index) ∧ Turns m next L.strings M.strings := by
    refine ⟨⟨?_, ?_⟩, ?_⟩
    · rw [count, List.length_eraseIdx_of_lt (by rw [← holds.count]; exact inside), holds.count]
    · rw [elements]
      exact heldIn_kept (forall₂_eraseIdx holds.elements index)
        fun address member => kept address (List.mem_append_left others member)
    · have strings : M.strings = (L.elements.eraseIdx index).flatMap ownedString := by
        rw [VariableList.strings, elements]
      rw [strings]
      exact (turns.beside _).perm parted (.refl _)
  by_cases last : index = L.n - 1
  · have notMoved : ¬ ((index : Int) < L.n - 1) := by
      omega
    refine ⟨{ L.access (index + 1) with n := L.n - 1 }, next, ?_, ?_⟩
    · simp only [VariableList.remove, if_neg valid, Int.toNat_natCast, loaded,
        freed, bind, Except.bind, VariableList.access,
        VariableList.moveWhere, if_neg notMoved]
      rfl
    · have elements : L.v.take (L.n - 1) = L.elements.eraseIdx index := by
        rw [List.eraseIdx_eq_take_drop_succ, VariableList.elements,
          List.take_take, Nat.min_eq_left inside.le,
          List.drop_eq_nil_of_le, List.append_nil, last]
        rw [List.length_take]
        omega
      obtain ⟨holds, turns⟩ :=
        removed (M := { L.access (index + 1) with n := L.n - 1 }) rfl elements
      refine ⟨holds, turns, ?_⟩
      dsimp only [VariableList.access]
      omega
  · have first : index = 0 := atEnd.resolve_right last
    subst first
    have fits := holds.inside
    have moved : ((0 : Nat) : Int) < L.n - 1 := by omega
    have range : 0 + 1 + (L.n - 1) ≤ L.v.length ∧ 0 + (L.n - 1) ≤ L.v.length := by omega
    refine ⟨{
      n := L.n - 1
      v := splice L.v 0 ((L.v.drop (0 + 1)).take (L.n - 1))
      reached := max (max L.reached (0 + 1)) (max 0 (0 + 1) + (L.n - 1))
    }, next, ?_, ?_⟩
    · simp only [VariableList.remove, if_neg valid, Int.toNat_natCast, loaded,
        freed, bind, Except.bind, VariableList.access,
        VariableList.moveWhere, if_pos moved, VariableList.memmove,
        if_pos range]
      rfl
    · have elements : (splice L.v 0 ((L.v.drop (0 + 1)).take (L.n - 1))).take (L.n - 1) =
            L.elements.eraseIdx 0 := by
        have moved : ((L.v.drop (0 + 1)).take (L.n - 1)).length = L.n - 1 := by
          rw [List.length_take, List.length_drop]
          omega
        rw [splice, List.take_zero, List.nil_append,
          List.take_append_of_le_length (Nat.le_of_eq moved.symm),
          List.take_take, Nat.min_self, VariableList.elements,
          List.eraseIdx_zero, ← List.drop_one, List.drop_take]
      obtain ⟨holds, turns⟩ := removed (M := {
        n := L.n - 1
        v := splice L.v 0 ((L.v.drop (0 + 1)).take (L.n - 1))
        reached := max (max L.reached (0 + 1)) (max 0 (0 + 1) + (L.n - 1))
      }) rfl elements
      refine ⟨holds, turns, ?_⟩
      dsimp only
      omega

theorem VariableList.Holds.dup (holds : L.Holds m.heap sequence) {addresses : List Address}
    (owned : StringsOwned addresses m) (among : ∀ address ∈ L.strings, address ∈ addresses) :
    ∃ copy next, L.dup m = .ok (L.access L.n, copy, next) ∧ copy.Holds next.heap sequence ∧
          copy.reached ≤ copy.n ∧
          StringsOwned (copy.strings ++ addresses) next ∧ ∀ address ∈ addresses,
              next.heap.cells address = m.heap.cells address := by
  obtain ⟨copies, next, copied, held, ownedNext, kept⟩ :=
    dupElements_spec holds.elements owned among
  have counted : copies.length = L.n := held.length_eq.trans holds.count.symm
  have elements : VariableList.elements ⟨L.n, copies, L.n⟩ = copies :=
    List.take_of_length_le (Nat.le_of_eq counted)
  refine ⟨⟨L.n, copies, L.n⟩, next, ?_, ⟨holds.count, ?_⟩, le_rfl, ?_, kept⟩
  · rw [VariableList.elements] at copied
    simp only [VariableList.dup, if_pos holds.inside, bind, Except.bind, copied]
    rfl
  · rwa [elements]
  · rwa [VariableList.strings, elements]

/-! ## What does not keep the sequence -/

variable {M : VariableList} {next : VariableMemory}

theorem VariableList.put_count (put : L.put index item m = .ok (M, next)) :
    M.n = L.n ∧ item.Readable := by
  simp only [VariableList.put, bind_eq_ok, pure_eq_ok, Prod.mk.injEq,
    Prod.exists, VariableList.store] at put
  obtain ⟨stored, first, V, after, copied, written, second, rfl, _⟩ := put
  constructor
  · split at first
    · obtain rfl := Except.ok.inj first
      split at second
      · obtain rfl := Except.ok.inj second
        rfl
      · cases second
    · cases first
  · intro owns
    simp only [VariableMemory.dupString, if_pos owns] at copied
    cases found : item.V.data.address with
    | none =>
      rw [found] at copied
      cases copied
    | some address =>
      cases address with
      | zero =>
        rw [found] at copied
        cases copied
      | succ address => exact ⟨address, rfl⟩

variable {reply : Int}

theorem VariableList.insert_count {pos : Int} (valid : 0 ≤ pos ∧ pos ≤ L.n)
    (inserted : L.insert pos item m = .ok (M, next, reply)) : M.n = L.n := by
  have inRange : ¬ (pos < 0 ∨ pos > L.n) := by omega
  rw [VariableList.insert, if_neg inRange] at inserted
  split at inserted
  · simp only [bind_eq_ok, pure_eq_ok, Prod.mk.injEq, Prod.exists] at inserted
    obtain ⟨moved, shift, put, after, copied, rfl, _⟩ := inserted
    rw [(put_count copied).1]
    unfold VariableList.moveWhere VariableList.memmove at shift
    split at shift
    · split at shift
      · obtain rfl := Except.ok.inj shift
        rfl
      · cases shift
    · obtain rfl := Except.ok.inj shift
      rfl
  · cases inserted

theorem VariableList.clear_count (cleared : L.clear m = .ok (M, next, reply)) : M.n = L.n := by
  have loop (indices : List Nat) {L N : VariableList} {m after : VariableMemory}
      (looped : indices.foldlM VariableList.clearElement (L, m) = .ok (N, after)) :
      N.n = L.n := by
    induction indices generalizing L m with
    | nil =>
      cases looped
      rfl
    | cons index rest ih =>
      rw [List.foldlM_cons] at looped
      simp only [VariableList.clearElement, bind_eq_ok, pure_eq_ok, Prod.exists] at looped
      obtain ⟨K, middle, ⟨V, J, loaded, freed, _, same⟩, later⟩ := looped
      obtain ⟨rfl, rfl⟩ := Prod.mk.inj same
      rw [ih later]
      unfold VariableList.load at loaded
      split at loaded
      · obtain ⟨_, rfl⟩ := Prod.mk.inj (Except.ok.inj loaded)
        rfl
      · cases loaded
  simp only [VariableList.clear, bind_eq_ok, pure_eq_ok, Prod.exists, Prod.mk.injEq] at cleared
  obtain ⟨N, after, looped, rfl, _⟩ := cleared
  have kept := loop _ looped
  exact kept

theorem VariableList.remove_reaches {idx : Int} (between : 0 < idx ∧ idx < L.n - 1)
    (removed : L.remove idx m = .ok (M, next, reply)) : ¬ M.reached ≤ max L.n M.n := by
  have valid : ¬ (idx < 0 ∨ idx ≥ L.n) := by omega
  rw [VariableList.remove, if_neg valid] at removed
  simp only [bind_eq_ok, pure_eq_ok, Prod.mk.injEq, Prod.exists] at removed
  obtain ⟨V, N, loaded, after, _, moved, shift, rfl, _⟩ := removed
  unfold VariableList.load at loaded
  split at loaded
  · obtain ⟨_, rfl⟩ := Prod.mk.inj (Except.ok.inj loaded)
    rw [VariableList.access] at shift
    rw [VariableList.moveWhere, if_pos between.2, VariableList.memmove] at shift
    split at shift
    · obtain rfl := Except.ok.inj shift
      simp only [VariableList.access]
      omega
    · cases shift
  · cases loaded

end

/-! ## Runs -/

/--
An element is appended to a list that can count it, and its string is there;
nothing is inserted; what is removed is first or last; what is cleared has no
element.
-/
def ListCall.Kept (s : ListState) : ListCall → Prop
  | .new => True
  | .append list item => ∀ L, s.lists[list]? = some L → L.n < intMax ∧ item.Readable
  | .insert list pos _ => ∀ L, s.lists[list]? = some L → pos < 0 ∨ pos > L.n
  | .prepend list _ => s.lists[list]? = none
  | .remove list idx => ∀ L, s.lists[list]? = some L → idx ≤ 0 ∨ idx ≥ L.n - 1
  | .clear list => ∀ L, s.lists[list]? = some L → L.n = 0
  | .dup _ => True

section

variable {s : ListState} {ideal : Sequences} {list : Nat}

theorem ListsRefine.find (refine : ListsRefine s ideal) (list : Nat) :
    s.lists[list]? = none ∧ ideal[list]? = none ∨ ∃ L sequence,
        s.lists[list]? = some L ∧ ideal[list]? = some sequence ∧ L.Holds s.memory.heap sequence :=
  forall₂_getElem? refine.holds list

theorem strings_parted {lists : List VariableList} {L : VariableList}
    (found : lists[list]? = some L) :
    (lists.flatMap VariableList.strings).Perm
      (L.strings ++ (lists.eraseIdx list).flatMap VariableList.strings) := by
  obtain ⟨inside, rfl⟩ := List.getElem?_eq_some_iff.mp found
  have split := (List.getElem_cons_eraseIdx_perm inside).flatMap_right VariableList.strings
  rw [List.flatMap_cons] at split
  exact split.symm

theorem ListsRefine.on (refine : ListsRefine s ideal)
    {f : VariableList → VariableMemory → Except Stop (VariableList × VariableMemory × Int)}
    {g : List ListElement → List ListElement × Int}
    (serves : ∀ L sequence others, s.lists[list]? = some L →
        ({ L with reached := 0 } : VariableList).Holds s.memory.heap sequence →
        StringsOwned (L.strings ++ others) s.memory → ∃ M next, f { L with reached := 0 } s.memory =
                .ok (M, next, (g sequence).2) ∧
              M.Holds next.heap (g sequence).1 ∧ Turns s.memory next L.strings M.strings ∧
                  M.reached ≤ max L.n M.n) :
    ∃ next, s.on list f = some (next, (ideal.on list g).2) ∧
        ListsRefine next (ideal.on list g).1 := by
  rcases refine.find list with
    ⟨absent, noSequence⟩ | ⟨L, sequence, found, sequenceFound, holds⟩
  · refine ⟨s, ?_, ?_⟩
    · simp only [ListState.on, absent, Sequences.on, noSequence]
    · simp only [Sequences.on, noSequence]
      exact refine
  have owned := refine.strings.perm (strings_parted found)
  obtain ⟨M, next, called, holdsNext, turns, reached⟩ :=
    serves L sequence _ found ⟨holds.count, holds.elements⟩ owned
  obtain ⟨ownedNext, kept⟩ := turns _ owned
  refine ⟨{ lists := s.lists.set list M, memory := next }, ?_, ?_, ?_⟩
  · simp only [ListState.on, found, called, Sequences.on, sequenceFound, decide_eq_true reached]
  · simp only [Sequences.on, sequenceFound]
    apply forall₂_set refine.holds holdsNext
    intro index N elements other foundN holdsN
    refine ⟨holdsN.count, heldIn_kept holdsN.elements fun address member => ?_⟩
    apply kept
    exact List.mem_flatMap.mpr
      ⟨N, List.mem_eraseIdx_iff_getElem?.mpr ⟨index, other, foundN⟩, member⟩
  · have inside : list < s.lists.length :=
      (List.getElem?_eq_some_iff.mp found).1
    have foundNext : (s.lists.set list M)[list]? = some M := List.getElem?_set_self inside
    have parted := strings_parted foundNext
    rw [List.eraseIdx_set_eq] at parted
    exact ownedNext.perm parted.symm

theorem ListsRefine.dup (refine : ListsRefine s ideal) (list : Nat) : ∃ next,
      s.step (.dup list) = some (next, (ideal.step (.dup list)).2) ∧
        ListsRefine next (ideal.step (.dup list)).1 := by
  rcases refine.find list with
    ⟨absent, noSequence⟩ | ⟨L, sequence, found, sequenceFound, holds⟩
  · refine ⟨s, ?_, ?_⟩
    · simp only [ListState.step, absent, Sequences.step, noSequence]
    · simp only [Sequences.step, noSequence]
      exact refine
  have holdsReset : ({ L with reached := 0 } : VariableList).Holds s.memory.heap sequence :=
    ⟨holds.count, holds.elements⟩
  have member : L ∈ s.lists := List.mem_of_getElem? found
  obtain ⟨copy, next, copied, holdsCopy, inside, owned, kept⟩ :=
    holdsReset.dup refine.strings fun address inStrings =>
      List.mem_flatMap.mpr ⟨L, member, inStrings⟩
  have keptHolds {N : VariableList} {elements : List ListElement} (listed : N ∈ s.lists)
      (holdsN : N.Holds s.memory.heap elements) :
      N.Holds next.heap elements :=
    ⟨holdsN.count, heldIn_kept holdsN.elements fun address inStrings =>
      kept address (List.mem_flatMap.mpr ⟨N, listed, inStrings⟩)⟩
  refine ⟨{
    lists := s.lists.set list (({ L with reached := 0 } : VariableList).access L.n) ++ [copy]
    memory := next
  }, ?_, ?_, ?_⟩
  · have reached : (({ L with reached := 0 } : VariableList).access L.n).reached ≤ max L.n L.n ∧
          copy.reached ≤ copy.n := by
      refine ⟨?_, inside⟩
      simp only [VariableList.access]
      omega
    have flag := decide_eq_true reached
    simp only [ListState.step, found, copied, Sequences.step, sequenceFound, refine.holds.length_eq]
    rw [← flag]
    rfl
  · simp only [Sequences.step, sequenceFound]
    refine List.rel_append ?_ (.cons holdsCopy .nil)
    have same : ideal = ideal.set list sequence := by
      obtain ⟨within, rfl⟩ := List.getElem?_eq_some_iff.mp sequenceFound
      exact (List.set_getElem_self within).symm
    rw [same]
    apply forall₂_set refine.holds
    · have keptList := keptHolds member holds
      exact ⟨keptList.count, keptList.elements⟩
    · intro index N elements _ foundN holdsN
      exact keptHolds (List.mem_of_getElem? foundN) holdsN
  · have insideLists : list < s.lists.length :=
      (List.getElem?_eq_some_iff.mp found).1
    have parted :=
      strings_parted (List.getElem?_set_self
        (a := ({ L with reached := 0 } : VariableList).access L.n) insideLists)
    rw [List.eraseIdx_set_eq] at parted
    have same := parted.trans (strings_parted found).symm
    rw [List.flatMap_append, List.flatMap_singleton]
    apply owned.perm
    exact List.perm_append_comm.trans (same.symm.append_right _)

theorem inserted_of_invalid {pos : Int} {sequence : List ListElement}
    (invalid : pos < 0 ∨ pos > sequence.length) (element : ListElement) :
    Sequences.inserted pos element sequence = (sequence, -1) :=
  if_neg (by omega)

theorem ListsRefine.call (refine : ListsRefine s ideal) {call : ListCall} (met : call.Kept s) :
    ∃ next, s.step call = some (next, (ideal.step call).2) ∧
        ListsRefine next (ideal.step call).1 := by
  cases call with
  | new =>
    refine ⟨{ s with lists := s.lists ++ [.new] }, ?_, ?_, ?_⟩
    · simp only [ListState.step, Sequences.step, refine.holds.length_eq]
    · exact List.rel_append refine.holds (.cons ⟨rfl, .nil⟩ .nil)
    · have same : (s.lists ++ [VariableList.new]).flatMap VariableList.strings =
            s.lists.flatMap VariableList.strings := by
        rw [List.flatMap_append, List.flatMap_singleton]
        exact List.append_nil _
      exact same ▸ refine.strings
  | append list item =>
    simp only [ListState.step, Sequences.step]
    apply refine.on
    intro L sequence others found holds owned
    obtain ⟨room, readable⟩ := met L found
    obtain ⟨M, next, called, holdsNext, turns, reached⟩ := holds.append room readable owned
    have count : L.n = sequence.length := holds.count
    refine ⟨M, next, ?_, holdsNext, turns, ?_⟩
    · rw [called, count]
    · exact reached.trans (max_le (Nat.zero_le _) (Nat.le_max_right _ _))
  | insert list pos item =>
    simp only [ListState.step, Sequences.step]
    apply refine.on
    intro L sequence others found holds owned
    have invalid := met L found
    have count : L.n = sequence.length := holds.count
    rw [inserted_of_invalid (count ▸ invalid)]
    exact ⟨_, _, if_pos invalid, holds, Turns.refl (.refl _), Nat.zero_le _⟩
  | prepend list item =>
    simp only [ListState.step, Sequences.step]
    apply refine.on
    intro L sequence others found holds owned
    rw [show s.lists[list]? = none from met] at found
    cases found
  | remove list idx =>
    simp only [ListState.step, Sequences.step]
    apply refine.on
    intro L sequence others found holds owned
    have atEnd := met L found
    have count : L.n = sequence.length := holds.count
    by_cases valid : 0 ≤ idx ∧ idx < sequence.length
    · obtain ⟨index, rfl⟩ := Int.eq_ofNat_of_zero_le valid.1
      have inside : index < L.n := by omega
      have end' : index = 0 ∨ index = L.n - 1 := by omega
      obtain ⟨M, next, called, holdsNext, turns, reached⟩ := holds.remove inside end' owned
      rw [if_pos valid]
      refine ⟨M, next, called, holdsNext, turns, ?_⟩
      exact reached.trans (max_le (Nat.zero_le _) (Nat.le_max_left _ _))
    · have invalid : idx < 0 ∨ idx ≥ L.n := by
        omega
      rw [if_neg valid]
      exact ⟨_, _, if_pos invalid, holds, Turns.refl (.refl _), Nat.zero_le _⟩
  | clear list =>
    simp only [ListState.step, Sequences.step]
    apply refine.on
    intro L sequence others found holds owned
    have empty := met L found
    refine ⟨{ L with v := [], reached := 0 }, s.memory, ?_, ?_, ?_, Nat.zero_le _⟩
    · rw [VariableList.clear, empty]
      rfl
    · exact ⟨empty, by rw [VariableList.elements, List.take_nil]; exact .nil⟩
    · have none (v : List (Option StoredVariable)) : VariableList.strings ⟨L.n, v, 0⟩ = [] := by
        rw [VariableList.strings, VariableList.elements, empty]
        rfl
      have same : L.strings = [] := none L.v
      rw [same, none]
      exact Turns.refl (.refl _)
  | dup list => exact refine.dup list

theorem ListsRefine.of_on (refine : ListsRefine s ideal)
    {f : VariableList → VariableMemory → Except Stop (VariableList × VariableMemory × Int)}
    {g : List ListElement → List ListElement × Int} {next : ListState}
    (called : s.on list f = some (next, (ideal.on list g).2))
    (refineNext : ListsRefine next (ideal.on list g).1) {L : VariableList}
    (found : s.lists[list]? = some L) :
    ∃ sequence M m, L.n = sequence.length ∧
        f { L with reached := 0 } s.memory = .ok (M, m, (g sequence).2) ∧
          M.n = (g sequence).1.length ∧ M.reached ≤ max L.n M.n := by
  rcases refine.find list with
    ⟨absent, _⟩ | ⟨other, sequence, foundOther, sequenceFound, holds⟩
  · rw [absent] at found
    cases found
  obtain rfl : L = other := Option.some.inj (found.symm.trans foundOther)
  simp only [ListState.on, found, Sequences.on, sequenceFound] at called
  split at called
  · rename_i M m reply result
    simp only [Option.some.injEq, Prod.mk.injEq, decide_eq_true_eq] at called
    obtain ⟨rfl, rfl, reached⟩ := called
    refine ⟨sequence, M, m, holds.count, result, ?_, reached⟩
    simp only [Sequences.on, sequenceFound] at refineNext
    have inside : list < s.lists.length := (List.getElem?_eq_some_iff.mp found).1
    rcases refineNext.find list with
      ⟨absent, _⟩ | ⟨N, elements, foundNext, elementsFound, holdsNext⟩
    · rw [List.getElem?_set_self inside] at absent
      cases absent
    · rw [List.getElem?_set_self inside] at foundNext
      obtain rfl := Option.some.inj foundNext
      rw [List.getElem?_set_self (refine.holds.length_eq ▸ inside)] at elementsFound
      obtain rfl := Option.some.inj elementsFound
      exact holdsNext.count
  · cases called

theorem ListsRefine.kept_of_call (refine : ListsRefine s ideal) {call : ListCall} {next : ListState}
    (called : s.step call = some (next, (ideal.step call).2))
    (refineNext : ListsRefine next (ideal.step call).1) : call.Kept s := by
  -- inserting at a position that there is does not count the element
  have notInserted {list : Nat} {pos : Int} {item : ListItem}
      (called : s.on list (fun L m => L.insert pos item m) =
          some (next, (ideal.on list (Sequences.inserted pos item.element)).2))
      (refineNext : ListsRefine next
          (ideal.on list (Sequences.inserted pos item.element)).1)
      {L : VariableList}
      (found : s.lists[list]? = some L) :
      pos < 0 ∨ pos > L.n := by
    obtain ⟨sequence, M, m, count, result, countNext, _⟩ := refine.of_on called refineNext found
    by_contra inside
    have valid : 0 ≤ pos ∧ pos ≤ L.n := by omega
    have kept : M.n = L.n := VariableList.insert_count (L := { L with reached := 0 }) valid result
    rw [Sequences.inserted, if_pos (count ▸ valid),
      List.length_insertIdx_of_le_length (by omega)] at countNext
    omega
  cases call with
  | new => exact trivial
  | append list item =>
    simp only [ListState.step, Sequences.step] at called refineNext
    intro L found
    obtain ⟨sequence, M, m, _, result, _⟩ := refine.of_on called refineNext found
    rw [VariableList.append] at result
    split at result
    case isTrue room =>
      simp only [bind_eq_ok, Prod.exists] at result
      obtain ⟨N, after, put, _⟩ := result
      exact ⟨room, (VariableList.put_count put).2⟩
    case isFalse => cases result
  | insert list pos item =>
    intro L found
    exact notInserted called refineNext found
  | prepend list item =>
    cases found : s.lists[list]? with
    | none => exact found
    | some L =>
      have invalid := notInserted called refineNext found
      omega
  | remove list idx =>
    simp only [ListState.step, Sequences.step] at called refineNext
    intro L found
    obtain ⟨sequence, M, m, _, result, _, reached⟩ := refine.of_on called refineNext found
    by_contra between
    have inside : 0 < idx ∧ idx < L.n - 1 := by omega
    exact VariableList.remove_reaches (L := { L with reached := 0 }) inside result reached
  | clear list =>
    simp only [ListState.step, Sequences.step] at called refineNext
    intro L found
    obtain ⟨sequence, M, m, _, result, countNext, _⟩ := refine.of_on called refineNext found
    have kept : M.n = L.n := VariableList.clear_count (L := { L with reached := 0 }) result
    rw [← kept, countNext]
    rfl
  | dup list => exact trivial

end

/--
The lists refine the sequences throughout a run exactly when every call of the
run meets its condition.
-/
theorem lists_refine_iff (calls : List ListCall) :
    Follows ListState.step Sequences.step ListsRefine .initial [] calls ↔
      EachInput ListState.step (fun s call => call.Kept s) .initial calls := by
  have admissible : ∀ call ∈ calls, (fun _ : ListCall => True) call := fun _ _ => trivial
  refine follows_iff_eachInput ListsRefine ?_ ?_ ?_ ?_ admissible
  · intro s ideal refine
    exact refine
  · intro s ideal call refine _ met
    exact refine.call met
  · intro s ideal call next refine _ called refineNext
    exact refine.kept_of_call called refineNext
  · exact {
      holds := .nil
      strings := ⟨Heap.owned_nil, .nil⟩
    }

theorem prepended_element_lost : ¬ ∀ calls : List ListCall,
        Follows ListState.step Sequences.step ListsRefine .initial [] calls := by
  intro follows
  have item : ListItem := ⟨.init (.strlcpy [97]) .int, []⟩
  obtain ⟨_, first, created, _, second, prepended, refine⟩ := follows [.new, .prepend 0 item]
  obtain rfl := Prod.mk.inj (Option.some.inj created) |>.1
  have refineFirst : ListsRefine
      { ListState.initial with lists := [VariableList.new] } [[]] := {
    holds := .cons ⟨rfl, .nil⟩ .nil
    strings := ⟨Heap.owned_nil, .nil⟩
  }
  have kept := refineFirst.kept_of_call prepended refine.initially
  cases kept

end Agar.Core
