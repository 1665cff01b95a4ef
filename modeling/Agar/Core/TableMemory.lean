import Agar.Core.Table
import Agar.Lib.Realloc

namespace Agar.Core

open Agar.Lib

/-!
# The memory of hash tables

The buckets of an `AG_Tbl` point to an array of keys and to an array of
variables, which `AG_TblInsertHash` extends one after the other.  Here the
arrays are blocks of two heaps, and what the allocator does with each request
is a parameter of an insertion.  A cell that was not stored yet holds nothing.
-/

/-- `struct ag_tbl_bucket`, with its pointers -/
structure StoredBucket where
  keys : Nat
  ents : Nat
  nEnts : UInt32
  deriving Repr, DecidableEq

/-- `struct ag_tbl`, and the arrays that its buckets point to -/
structure StoredTbl where
  flags : UInt32
  buckets : List StoredBucket
  nBuckets : UInt32
  keyArrays : Heap (List (Option TblKey))
  entArrays : Heap (List (Option Variable))

/--
What becomes of the requests of an insertion: the two reallocations, the copy
of the key, and that of the text of the variable
-/
structure TblRequests where
  ents : Resizing
  keys : Resizing
  key : Bool
  text : Bool
  deriving Repr, DecidableEq

/-- Read an element of an array. -/
def readElement {α : Type} (arrays : Heap (List (Option α))) (address i : Nat) : Except Stop α :=
  match arrays.cells address with
  | none => .error .undefined
  | some block =>
    match block[i]? with
    | some (some element) => .ok element
    | _ => .error .undefined

/-- Store an element of an array. -/
def storeElement {α : Type} (arrays : Heap (List (Option α))) (address i : Nat)
    (element : α) : Except Stop (Heap (List (Option α))) :=
  match arrays.storeCell address i (some element) with
  | none => .error .undefined
  | some stored => .ok stored

/-- `TryRealloc` of an array to some number of elements -/
def tryReallocArray {α : Type} (arrays : Heap (List (Option α))) (address : Nat) (count : UInt32)
    (resizing : Resizing) : Except Stop (Heap (List (Option α)) × Nat) :=
  match arrays.realloc (fun _ => none) address count.toNat resizing with
  | none => .error .undefined
  | some result => .ok result

/-- `free` of an array -/
def freeArray {α : Type} (arrays : Heap (List (Option α)))
    (address : Nat) : Except Stop (Heap (List (Option α))) :=
  match arrays.release address with
  | none => .error .undefined
  | some left => .ok left

namespace StoredTbl

/--
The loop over the keys of a bucket, from an index on: the index at which it
ends
-/
def searchKeys (tbl : StoredTbl) (buck : StoredBucket) (key : TblKey) : Nat → Nat → Except Stop Nat
  | i, 0 => .ok i
  | i, left + 1 => do
      let stored ← readElement tbl.keyArrays buck.keys i
      if stored = key then return i else tbl.searchKeys buck key (i + 1) left

/-- What `AG_TblInsertHash` does behind its loop over the keys -/
def extendBucket (tbl : StoredTbl) (h : UInt32) (buck : StoredBucket) (key : TblKey) (V : Variable)
    (requests : TblRequests) : Except Stop (Except TblError Unit × StoredTbl) := do
  let (entArrays, entsNew) ← tryReallocArray tbl.entArrays buck.ents (buck.nEnts + 1) requests.ents
  if entsNew = 0 then return (.error .outOfMemory, { tbl with entArrays := entArrays })
  else do
    let (keyArrays, keysNew) ←
      tryReallocArray tbl.keyArrays buck.keys (buck.nEnts + 1) requests.keys
    if keysNew = 0 then do
      -- `buck->ents` is not stored
      let entArrays ← freeArray entArrays entsNew
      return (.error .outOfMemory, { tbl with keyArrays := keyArrays, entArrays := entArrays })
    else do
      let keyNew ← strdup requests.key key
      let keyArrays ← storeElement keyArrays keysNew buck.nEnts.toNat keyNew
      let entNew ← copyVariable requests.text V
      let entArrays ← storeElement entArrays entsNew buck.nEnts.toNat entNew
      return (.ok (), { tbl with
        buckets := tbl.buckets.set h.toNat {
          keys := keysNew
          ents := entsNew
          nEnts := buck.nEnts + 1
        }
        keyArrays := keyArrays
        entArrays := entArrays
      })

/-- `AG_TblInsertHash` -/
def insertHash (tbl : StoredTbl) (h : UInt32) (key : TblKey) (V : Variable)
    (requests : TblRequests) : Except Stop (Except TblError Unit × StoredTbl) := do
  let buck ← readCell tbl.buckets h.toNat
  let i ← tbl.searchKeys buck key 0 buck.nEnts.toNat
  if tbl.flags &&& tblDuplicates = 0 ∧ i < buck.nEnts.toNat then return (.error .existingEntry, tbl)
  else tbl.extendBucket h buck key V requests

end StoredTbl

/--
A pointer to an array of so many elements: the array is allocated, and the
elements were stored.  Where there are none, the pointer may be `NULL`.
-/
def HoldsArray {α : Type} (arrays : Heap (List (Option α))) (address count : Nat) : Prop :=
  (address = 0 ∧ count = 0) ∨ ∃ block, arrays.cells address = some block ∧
      ∀ i < count, ∃ element, block[i]? = some (some element)

/-- The elements of an array of so many. -/
def elements {α : Type} (arrays : Heap (List (Option α))) (address count : Nat) : List (Option α) :=
  ((arrays.cells address).getD []).take count

namespace StoredTbl

/-- The arrays of every bucket are allocated and hold its entries. -/
def WellFormed (tbl : StoredTbl) : Prop :=
  ∀ buck ∈ tbl.buckets, HoldsArray tbl.keyArrays buck.keys buck.nEnts.toNat ∧
      HoldsArray tbl.entArrays buck.ents buck.nEnts.toNat

/-- The keys and the variables that the buckets hold. -/
def entries (tbl : StoredTbl) : List (List (Option TblKey) × List (Option Variable)) :=
  tbl.buckets.map fun buck =>
    (elements tbl.keyArrays buck.keys buck.nEnts.toNat,
      elements tbl.entArrays buck.ents buck.nEnts.toNat)

/-- An insertion into a bucket is made if the key is new or may be repeated. -/
def Admits (tbl : StoredTbl) (buck : StoredBucket) (key : TblKey) : Prop :=
  tbl.flags &&& tblDuplicates = 0 → some key ∉ elements tbl.keyArrays buck.keys buck.nEnts.toNat

/--
An insertion frees the array of variables of its bucket without storing
another one: it is granted and then given up, as no array of keys is; or it is
resized to nothing, where the number of entries wraps around.
-/
def LosesArray (tbl : StoredTbl) (h : UInt32) (key : TblKey) (requests : TblRequests) : Prop :=
  ∃ buck, tbl.buckets[h.toNat]? = some buck ∧ tbl.Admits buck key ∧ buck.ents ≠ 0 ∧
    ((requests.ents.Granted ∧ ¬ requests.keys.Granted) ∨
      (requests.ents = .freed ∧ buck.nEnts + 1 = 0))

end StoredTbl

/-! ## Arrays -/

section Arrays

variable {α : Type} {arrays : Heap (List (Option α))} {address count : Nat} {resizing : Resizing}
  {size : UInt32}

theorem HoldsArray.live (holds : HoldsArray arrays address count) (notNull : address ≠ 0) :
    ∃ block, arrays.cells address = some block := by
  rcases holds with ⟨null, _⟩ | ⟨block, live, _⟩
  · exact absurd null notNull
  · exact ⟨block, live⟩

theorem not_holdsArray_of_freed (notNull : address ≠ 0) (freed : arrays.cells address = none) :
    ¬ HoldsArray arrays address count := by
  intro holds
  obtain ⟨block, live⟩ := holds.live notNull
  rw [freed] at live
  cases live

theorem HoldsArray.count_of_null (holds : HoldsArray arrays address count) (null : address = 0) :
    count = 0 := by
  rcases holds with ⟨_, empty⟩ | ⟨block, live, _⟩
  · exact empty
  · exact absurd null (Heap.ne_null live)

theorem HoldsArray.pointer (holds : HoldsArray arrays address count) :
    address = 0 ∨ ∃ block, arrays.cells address = some block := by
  rcases holds with ⟨null, _⟩ | ⟨block, live, _⟩
  · exact .inl null
  · exact .inr ⟨block, live⟩

theorem HoldsArray.read (holds : HoldsArray arrays address count) {i : Nat} (inside : i < count) :
    ∃ element, readElement arrays address i = .ok element ∧
      (elements arrays address count)[i]? = some (some element) := by
  rcases holds with ⟨_, rfl⟩ | ⟨block, live, stored⟩
  · exact absurd inside (Nat.not_lt_zero i)
  · obtain ⟨element, here⟩ := stored i inside
    refine ⟨element, ?_, ?_⟩
    · simp only [readElement, live, here]
    · rw [elements, live, Option.getD_some, List.getElem?_take_of_lt inside, here]

theorem tryReallocArray_refused (holds : HoldsArray arrays address count)
    (refused : ¬ resizing.Granted) (kept : resizing = .freed → address = 0 ∨ size ≠ 0) :
    tryReallocArray arrays address size resizing = .ok (arrays, 0) := by
  have sized (isFreed : resizing = .freed) : address = 0 ∨ size.toNat ≠ 0 :=
    (kept isFreed).imp_right fun nonzero zero => nonzero (UInt32.toNat_inj.mp zero)
  rw [tryReallocArray, Heap.realloc_refused holds.pointer refused sized]

theorem tryReallocArray_granted (holds : HoldsArray arrays address count)
    (granted : resizing.Granted) :
    ∃ next new grown, tryReallocArray arrays address size resizing = .ok (next, new) ∧
        arrays.realloc (fun _ => none) address size.toNat resizing = some (next, new) ∧
        next.cells new = some grown := by
  obtain ⟨next, new, grown, resized, live⟩ :=
    @Heap.realloc_granted _ (fun _ => none) arrays address size.toNat resizing holds.pointer granted
  exact ⟨next, new, grown, by rw [tryReallocArray, resized], resized, live⟩

theorem tryReallocArray_freed (holds : HoldsArray arrays address count) (notNull : address ≠ 0) :
    tryReallocArray arrays address 0 .freed = .ok (arrays.free address, 0) := by
  obtain ⟨block, live⟩ := holds.live notNull
  rw [tryReallocArray, Heap.realloc, if_neg notNull, live]
  rfl

end Arrays

namespace StoredTbl

variable {tbl next : StoredTbl} {buck : StoredBucket} {h : UInt32} {key : TblKey} {V : Variable}
  {requests : TblRequests}

theorem searchKeys_eq {count : Nat} (holds : HoldsArray tbl.keyArrays buck.keys count)
    {i left : Nat} (whole : i + left = count) :
    ∃ found, tbl.searchKeys buck key i left = .ok found ∧ (found < count ↔
        some key ∈ (elements tbl.keyArrays buck.keys count).drop i) := by
  induction left generalizing i with
  | zero =>
    refine ⟨i, rfl, ?_⟩
    have short : (elements tbl.keyArrays buck.keys count).length ≤ i :=
      (List.length_take_le count _).trans (by omega)
    rw [List.drop_eq_nil_of_le short]
    simp only [List.not_mem_nil, iff_false]
    omega
  | succ left ih =>
    obtain ⟨stored, read, here⟩ := holds.read (by omega : i < count)
    rw [searchKeys, read]
    have split : (elements tbl.keyArrays buck.keys count).drop i = some stored ::
            (elements tbl.keyArrays buck.keys count).drop (i + 1) := by
      obtain ⟨inside, same⟩ := List.getElem?_eq_some_iff.mp here
      rw [List.drop_eq_getElem_cons inside, same]
    rw [split]
    by_cases same : stored = key
    · refine ⟨i, ?_, ?_⟩
      · rw [ok_bind, if_pos same]
        rfl
      · rw [same]
        simp only [List.mem_cons_self, iff_true]
        omega
    · obtain ⟨found, searched, isFound⟩ :=
        ih (by omega : i + 1 + left = count)
      refine ⟨found, ?_, ?_⟩
      · rw [ok_bind, if_neg same]
        exact searched
      · rw [isFound, List.mem_cons, Option.some.injEq]
        exact (or_iff_right (Ne.symm same)).symm

theorem insertHash_eq (holds : HoldsArray tbl.keyArrays buck.keys buck.nEnts.toNat)
    (found : tbl.buckets[h.toNat]? = some buck) :
    (tbl.Admits buck key ∧ tbl.insertHash h key V requests =
          tbl.extendBucket h buck key V requests) ∨
      (¬ tbl.Admits buck key ∧ tbl.insertHash h key V requests =
          .ok (.error .existingEntry, tbl)) := by
  obtain ⟨i, searched, isFound⟩ := @searchKeys_eq tbl buck key _ holds 0 _ (Nat.zero_add _)
  rw [List.drop_zero] at isFound
  have read : readCell tbl.buckets h.toNat = .ok buck := by rw [readCell, found]
  rw [insertHash, read, ok_bind, searched, ok_bind, Admits]
  by_cases present : tbl.flags &&& tblDuplicates = 0 ∧ i < buck.nEnts.toNat
  · rw [if_pos present]
    exact .inr ⟨fun admits => admits present.1 (isFound.mp present.2), rfl⟩
  · rw [if_neg present]
    exact .inl ⟨fun unique member => present ⟨unique, isFound.mpr member⟩, rfl⟩

theorem extendBucket_refused (entsHold : HoldsArray tbl.entArrays buck.ents buck.nEnts.toNat)
    (refused : ¬ requests.ents.Granted)
    (kept : requests.ents = .freed → buck.ents = 0 ∨ buck.nEnts + 1 ≠ 0) :
    tbl.extendBucket h buck key V requests = .ok (.error .outOfMemory, tbl) := by
  rw [extendBucket, tryReallocArray_refused entsHold refused kept]
  rfl

theorem extendBucket_freed (entsHold : HoldsArray tbl.entArrays buck.ents buck.nEnts.toNat)
    (notNull : buck.ents ≠ 0) (freed : requests.ents = .freed) (wraps : buck.nEnts + 1 = 0) :
    tbl.extendBucket h buck key V requests = .ok (.error .outOfMemory,
        { tbl with entArrays := tbl.entArrays.free buck.ents }) := by
  rw [extendBucket, freed, wraps, tryReallocArray_freed entsHold notNull]
  rfl

theorem extendBucket_givenUp (keysHold : HoldsArray tbl.keyArrays buck.keys buck.nEnts.toNat)
    (entsHold : HoldsArray tbl.entArrays buck.ents buck.nEnts.toNat)
    (granted : requests.ents.Granted) (refused : ¬ requests.keys.Granted) :
    ∃ keyArrays entArrays, tbl.extendBucket h buck key V requests = .ok (.error .outOfMemory,
          { tbl with keyArrays := keyArrays, entArrays := entArrays }) ∧
      (buck.ents ≠ 0 → entArrays.cells buck.ents = none) ∧
      (buck.ents = 0 → keyArrays = tbl.keyArrays ∧ entArrays.cells = tbl.entArrays.cells) := by
  obtain ⟨grown, new, cells, allocated, resized, live⟩ :=
    @tryReallocArray_granted _ _ _ _ _ (buck.nEnts + 1) entsHold granted
  have newEnts : new ≠ 0 := Heap.ne_null live
  have freed : freeArray grown new = .ok (grown.free new) := by
    rw [freeArray, Heap.release_live live]
  have given (keyArrays : Heap (List (Option TblKey)))
      (answer : tryReallocArray tbl.keyArrays buck.keys (buck.nEnts + 1)
        requests.keys = .ok (keyArrays, 0)) :
      tbl.extendBucket h buck key V requests =
        .ok (.error .outOfMemory, { tbl with
          keyArrays := keyArrays
          entArrays := grown.free new }) := by
    simp only [extendBucket, allocated, ok_bind, newEnts, answer, freed, if_true, if_false]
    rfl
  by_cases null : buck.ents = 0
  · have noEnts : buck.nEnts + 1 ≠ 0 := by
      have empty : buck.nEnts = 0 := UInt32.toNat_inj.mp (entsHold.count_of_null null)
      rw [empty]
      decide
    refine ⟨_, _, given _ (tryReallocArray_refused keysHold refused fun _ =>
      .inr noEnts), fun notNull => absurd null notNull, fun _ => ⟨rfl, ?_⟩⟩
    rw [null] at resized
    exact Heap.cells_free_of_malloc granted resized
  · obtain ⟨block, was⟩ := entsHold.live null
    have gone := Heap.cells_free_of_realloc was granted resized
    have answered : ∃ keyArrays, tryReallocArray tbl.keyArrays buck.keys (buck.nEnts + 1)
          requests.keys = .ok (keyArrays, 0) := by
      by_cases kept : requests.keys = .freed → buck.keys = 0 ∨ buck.nEnts + 1 ≠ 0
      · exact ⟨_, tryReallocArray_refused keysHold refused kept⟩
      · push Not at kept
        obtain ⟨keysFreed, notNull, wraps⟩ := kept
        rw [keysFreed, wraps]
        exact ⟨_, tryReallocArray_freed keysHold notNull⟩
    obtain ⟨keyArrays, answer⟩ := answered
    exact ⟨_, _, given _ answer, fun _ => gone, fun isNull => absurd isNull null⟩

theorem extendBucket_granted (keysHold : HoldsArray tbl.keyArrays buck.keys buck.nEnts.toNat)
    (entsHold : HoldsArray tbl.entArrays buck.ents buck.nEnts.toNat)
    (granted : requests.ents.Granted) (grantedToo : requests.keys.Granted) (error : TblError) :
    tbl.extendBucket h buck key V requests ≠ .ok (.error error, next) := by
  obtain ⟨_, newEnts, _, allocated, _, live⟩ :=
    @tryReallocArray_granted _ _ _ _ _ (buck.nEnts + 1) entsHold granted
  obtain ⟨_, newKeys, _, allocatedToo, _, liveToo⟩ :=
    @tryReallocArray_granted _ _ _ _ _ (buck.nEnts + 1) keysHold grantedToo
  simp only [extendBucket, allocated, allocatedToo, ok_bind,
    Heap.ne_null live, Heap.ne_null liveToo, if_false, ne_eq, bind_eq_ok,
    pure_eq_ok, Prod.mk.injEq]
  rintro ⟨_, _, _, _, _, _, _, _, succeeds, _⟩
  cases succeeds

theorem wellFormed_congr (buckets : next.buckets = tbl.buckets)
    (keys : next.keyArrays.cells = tbl.keyArrays.cells)
    (ents : next.entArrays.cells = tbl.entArrays.cells) :
    (next.WellFormed ↔ tbl.WellFormed) ∧ next.entries = tbl.entries := by
  constructor
  · simp only [WellFormed, HoldsArray, buckets, keys, ents]
  · simp only [entries, elements, buckets, keys, ents]

theorem insertHash_unchanged (wellFormed : tbl.WellFormed) (keeps : ¬ tbl.LosesArray h key requests)
    {error : TblError} (fails : tbl.insertHash h key V requests = .ok (.error error, next)) :
    next.buckets = tbl.buckets ∧ next.keyArrays.cells = tbl.keyArrays.cells ∧
      next.entArrays.cells = tbl.entArrays.cells := by
  have present : ∃ buck, tbl.buckets[h.toNat]? = some buck := by
    cases found : tbl.buckets[h.toNat]? with
    | some buck => exact ⟨buck, rfl⟩
    | none =>
      rw [insertHash, readCell, found] at fails
      cases fails
  obtain ⟨buck, found⟩ := present
  obtain ⟨keysHold, entsHold⟩ := wellFormed buck (List.mem_of_getElem? found)
  rcases @insertHash_eq tbl buck h key V requests keysHold found with
    ⟨admits, same⟩ | ⟨_, same⟩
  · rw [same] at fails
    have notLost (notNull : buck.ents ≠ 0) : ¬ ((requests.ents.Granted ∧ ¬ requests.keys.Granted) ∨
          (requests.ents = .freed ∧ buck.nEnts + 1 = 0)) :=
      fun lost => keeps ⟨buck, found, admits, notNull, lost⟩
    by_cases granted : requests.ents.Granted
    · by_cases grantedToo : requests.keys.Granted
      · exact absurd fails (extendBucket_granted keysHold entsHold granted grantedToo error)
      · have null : buck.ents = 0 := by
          by_contra notNull
          exact notLost notNull (.inl ⟨granted, grantedToo⟩)
        obtain ⟨keyArrays, entArrays, extended, _, kept⟩ :=
          @extendBucket_givenUp tbl buck h key V requests keysHold entsHold granted grantedToo
        rw [extended, Except.ok.injEq, Prod.mk.injEq] at fails
        obtain ⟨keysSame, entsSame⟩ := kept null
        rw [← fails.2]
        exact ⟨rfl, congrArg _ keysSame, entsSame⟩
    · have kept (freed : requests.ents = .freed) : buck.ents = 0 ∨ buck.nEnts + 1 ≠ 0 := by
        by_contra lost
        push Not at lost
        exact notLost lost.1 (.inr ⟨freed, lost.2⟩)
      rw [extendBucket_refused entsHold granted kept, Except.ok.injEq, Prod.mk.injEq] at fails
      rw [← fails.2]
      exact ⟨rfl, rfl, rfl⟩
  · rw [same, Except.ok.injEq, Prod.mk.injEq] at fails
    rw [← fails.2]
    exact ⟨rfl, rfl, rfl⟩

theorem insertHash_dangling (wellFormed : tbl.WellFormed) (loses : tbl.LosesArray h key requests) :
    ∃ next, tbl.insertHash h key V requests = .ok (.error .outOfMemory, next) ∧
        ¬ next.WellFormed := by
  obtain ⟨buck, found, admits, notNull, lost⟩ := loses
  have member := List.mem_of_getElem? found
  obtain ⟨keysHold, entsHold⟩ := wellFormed buck member
  have same : tbl.insertHash h key V requests = tbl.extendBucket h buck key V requests := by
    rcases @insertHash_eq tbl buck h key V requests keysHold found with
      ⟨_, same⟩ | ⟨refuses, _⟩
    · exact same
    · exact absurd admits refuses
  rcases lost with ⟨granted, refused⟩ | ⟨freed, wraps⟩
  · obtain ⟨keyArrays, entArrays, extended, gone, _⟩ :=
      @extendBucket_givenUp tbl buck h key V requests keysHold entsHold granted refused
    refine ⟨_, same.trans extended, fun stillWell => ?_⟩
    exact not_holdsArray_of_freed notNull (gone notNull) (stillWell buck member).2
  · refine ⟨_, same.trans (extendBucket_freed entsHold notNull freed wraps), fun stillWell => ?_⟩
    refine not_holdsArray_of_freed notNull ?_ (stillWell buck member).2
    rw [Heap.cells_free, Function.update_self]

end StoredTbl

/--
An insertion that fails leaves a well-formed table with the entries that it
had, exactly if it does not lose the array of variables of its bucket.
-/
theorem failed_insert_iff {tbl : StoredTbl} (wellFormed : tbl.WellFormed) (h : UInt32)
    (key : TblKey) (V : Variable) (requests : TblRequests) :
    (∀ error next, tbl.insertHash h key V requests = .ok (.error error, next) →
        next.WellFormed ∧ next.entries = tbl.entries) ↔
      ¬ tbl.LosesArray h key requests := by
  constructor
  · intro unchanged loses
    obtain ⟨next, fails, notWell⟩ :=
      @StoredTbl.insertHash_dangling tbl h key V requests wellFormed loses
    exact notWell (unchanged _ next fails).1
  · intro keeps error next fails
    obtain ⟨buckets, keys, ents⟩ := StoredTbl.insertHash_unchanged wellFormed keeps fails
    obtain ⟨well, entries⟩ := StoredTbl.wellFormed_congr buckets keys ents
    exact ⟨well.mpr wellFormed, entries⟩

def StoredTbl.oneBucket (entry : Option (TblKey × Variable)) : StoredTbl where
  flags := 0
  buckets :=
    match entry with
    | none => [{ keys := 0, ents := 0, nEnts := 0 }]
    | some _ => [{ keys := 1, ents := 1, nEnts := 1 }]
  nBuckets := 1
  keyArrays :=
    match entry with
    | none => .empty
    | some (key, _) => Heap.empty.alloc [some key]
  entArrays :=
    match entry with
    | none => .empty
    | some (_, V) => Heap.empty.alloc [some V]

theorem StoredTbl.wellFormed_oneBucket (entry : Option (TblKey × Variable)) :
    (oneBucket entry).WellFormed := by
  intro buck member
  cases entry with
  | none =>
    obtain rfl := List.mem_singleton.mp member
    exact ⟨.inl ⟨rfl, rfl⟩, .inl ⟨rfl, rfl⟩⟩
  | some entry =>
    obtain rfl := List.mem_singleton.mp member
    refine ⟨.inr ⟨_, rfl, ?_⟩, .inr ⟨_, rfl, ?_⟩⟩ <;>
    · intro i first
      obtain rfl : i = 0 := Nat.lt_one_iff.mp first
      exact ⟨_, rfl⟩

theorem failed_insert_first : (∀ error next,
        (StoredTbl.oneBucket none).insertHash 0 (ascii "a") (initPointer none)
            ⟨.moved, .refused, true, true⟩ = .ok (.error error, next) →
        next.WellFormed ∧ next.entries = (StoredTbl.oneBucket none).entries) ↔
      ¬ (StoredTbl.oneBucket none).LosesArray 0 (ascii "a") ⟨.moved, .refused, true, true⟩ :=
  failed_insert_iff (StoredTbl.wellFormed_oneBucket none) ..

theorem failed_insert_second : let tbl := StoredTbl.oneBucket (some (ascii "a", initPointer none))
    tbl.WellFormed ∧ ∃ next, tbl.insertHash 0 (ascii "b") (initPointer none)
            ⟨.moved, .refused, true, true⟩ =
          .ok (.error .outOfMemory, next) ∧
        ¬ next.WellFormed := by
  intro tbl
  refine ⟨StoredTbl.wellFormed_oneBucket _, ?_⟩
  apply StoredTbl.insertHash_dangling (StoredTbl.wellFormed_oneBucket _)
  exact ⟨_, rfl, fun _ => by decide, by decide, .inl ⟨.inr rfl, nofun⟩⟩

end Agar.Core
