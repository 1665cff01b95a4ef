import Agar.Core.Variable
import Agar.Lib.Multimap
import Agar.Lib.Outcome
import Agar.Lib.Runs

namespace Agar.Core

open Agar.Lib

/-!
# Hash tables of variables

An `AG_Tbl` is an array of buckets.  A bucket has an array of keys and an
array of variables, with the number of entries that they hold; behind them the
arrays may have cells of entries that were deleted.  An array that was freed
has no cells.
-/

/-- A key: a string, without its terminator -/
abbrev TblKey := List UInt8

/-- `AG_TBL_DUPLICATES` -/
def tblDuplicates : UInt32 := 0x01

/-- `struct ag_tbl_bucket` -/
structure TblBucket where
  keys : List TblKey
  ents : List Variable
  nEnts : UInt32
  deriving DecidableEq

/-- `struct ag_tbl` -/
structure Tbl where
  flags : UInt32
  buckets : List TblBucket
  nBuckets : UInt32
  deriving DecidableEq

/-- The errors that the operations set. -/
inductive TblError where
  /-- `"Existing entry: %s"` -/
  | existingEntry
  /-- `"No such entry: %s"` -/
  | noSuchEntry
  /-- `"Out of memory"` -/
  | outOfMemory
  deriving Repr, DecidableEq

/-- Which requests of an insertion the allocator grants. -/
structure TblAllocation where
  ents : Bool
  keys : Bool
  key : Bool
  text : Bool
  deriving Repr, DecidableEq

/-- All requests are granted. -/
def TblAllocation.all : TblAllocation where
  ents := true
  keys := true
  key := true
  text := true

/--
`TryRealloc` of an array to some number of cells.  Cells that it adds come
with the first write to them; a request for no memory is not granted.
-/
def tryReallocCells {α : Type} (granted : Bool) (count : UInt32)
    (cells : List α) : Option (List α) :=
  if granted ∧ count ≠ 0 then some (cells.take count.toNat) else none

/-- `memmove(&cells[i], &cells[i+1], count)`, with `count` in cells -/
def memmoveDown {α : Type} (cells : List α) (i count : Nat) : Except Stop (List α) :=
  if i + 1 + count ≤ cells.length then .ok (splice cells i ((cells.drop (i + 1)).take count))
  else .error .undefined

/-- Read a cell of an array. -/
def readCell {α : Type} (cells : List α) (i : Nat) : Except Stop α :=
  match cells[i]? with
  | none => .error .undefined
  | some cell => .ok cell

/-- `Strdup`, which ends the program without memory -/
def strdup (granted : Bool) (s : List UInt8) : Except Stop (List UInt8) :=
  if granted then .ok s else .error .fatal

/--
`AG_CopyVariable` without its result, which its caller ignores: the copy of a
string that is not in a buffer is `NULL` without memory
-/
def copyVariable (granted : Bool) (Vsrc : Variable) : Except Stop Variable :=
  if Vsrc.type = .string ∧ Vsrc.size = 0 then
    match Vsrc.data with
    | .s (some text) => .ok { Vsrc with data := .s (if granted then some text else none) }
    | _ => .error .undefined
  else .ok Vsrc

/-- `AG_InitPointer` -/
def initPointer (v : Pointer) : Variable :=
  { initVariable (.strlcpy []) .pointer with data := .p v }

/-- `AG_TblInit` -/
def tblInit (granted : Bool) (nBuckets flags : UInt32) : Except TblError Unit × Tbl :=
  if granted then
    (.ok (), {
      flags := flags
      buckets := List.replicate nBuckets.toNat
        { keys := [], ents := [], nEnts := 0 }
      nBuckets := nBuckets
    })
  else
    (.error .outOfMemory, {
      flags := flags
      buckets := []
      nBuckets := nBuckets
    })

namespace Tbl

/-- `AG_TblHash` -/
def hash (tbl : Tbl) (key : TblKey) : UInt32 :=
  key.foldl (fun h p => 31 * h + p.toUInt32) 0 % tbl.nBuckets

/-- `tbl->buckets[h]` -/
def bucket (tbl : Tbl) (h : UInt32) : Except Stop TblBucket := readCell tbl.buckets h.toNat

/-- Store a bucket. -/
def setBucket (tbl : Tbl) (h : UInt32) (buck : TblBucket) : Tbl :=
  { tbl with buckets := tbl.buckets.set h.toNat buck }

end Tbl

/--
The loop over the keys of a bucket that all operations start with: how many
of the entries that are left it passes before the key
-/
def searchKeys (key : TblKey) : List TblKey → Nat → Except Stop Nat
  | _, 0 => .ok 0
  | [], _ + 1 => .error .undefined
  | first :: rest, left + 1 =>
    if first = key then .ok 0
    else do
      let i ← searchKeys key rest left
      return i + 1

/-- The index at which the loop over the keys ends. -/
def TblBucket.search (buck : TblBucket) (key : TblKey) : Except Stop Nat :=
  searchKeys key buck.keys buck.nEnts.toNat

namespace Tbl

/-- `AG_TblLookupHash` -/
def lookupHash (tbl : Tbl) (h : UInt32)
    (key : TblKey) : Except Stop (Except TblError Variable) := do
  let buck ← tbl.bucket h
  let i ← buck.search key
  if i = buck.nEnts.toNat then return .error .noSuchEntry
  else
    let ent ← readCell buck.ents i
    return .ok ent

/-- `AG_TblExistsHash` -/
def existsHash (tbl : Tbl) (h : UInt32) (key : TblKey) : Except Stop Bool := do
  let buck ← tbl.bucket h
  let i ← buck.search key
  return decide (i ≠ buck.nEnts.toNat)

/-- `AG_TblInsertHash` -/
def insertHash (tbl : Tbl) (h : UInt32) (key : TblKey) (V : Variable) (allocation : TblAllocation) :
    Except Stop (Except TblError Unit × Tbl) := do
  let buck ← tbl.bucket h
  let i ← buck.search key
  if tbl.flags &&& tblDuplicates = 0 ∧ i < buck.nEnts.toNat then return (.error .existingEntry, tbl)
  else
    match tryReallocCells allocation.ents (buck.nEnts + 1) buck.ents with
    | none => return (.error .outOfMemory, tbl)
    | some entsNew =>
      match tryReallocCells allocation.keys (buck.nEnts + 1) buck.keys with
      | none =>
        -- `buck->ents` still points to the array before its reallocation
        return (.error .outOfMemory, tbl.setBucket h { buck with ents := [] })
      | some keysNew => do
          let keyNew ← strdup allocation.key key
          let entNew ← copyVariable allocation.text V
          return (.ok (), tbl.setBucket h {
            keys := splice keysNew buck.nEnts.toNat [keyNew]
            ents := splice entsNew buck.nEnts.toNat [entNew]
            nEnts := buck.nEnts + 1
          })

/-- `AG_TblDeleteHash` -/
def deleteHash (tbl : Tbl) (h : UInt32)
    (key : TblKey) : Except Stop (Except TblError Unit × Tbl) := do
  let buck ← tbl.bucket h
  let i ← buck.search key
  if i = buck.nEnts.toNat then return (.error .noSuchEntry, tbl)
  else
    -- `AG_FreeVariable` looks at the entry
    let _ ← readCell buck.ents i
    if i < (buck.nEnts - 1).toNat then
      let ents ← memmoveDown buck.ents i (buck.nEnts.toNat - i - 1)
      let keys ← memmoveDown buck.keys i (buck.nEnts.toNat - i - 1)
      return (.ok (), tbl.setBucket h {
        keys := keys
        ents := ents
        nEnts := buck.nEnts - 1
      })
    else return (.ok (), tbl.setBucket h { buck with nEnts := buck.nEnts - 1 })

/-- `AG_TblLookup` -/
def lookup (tbl : Tbl) (key : TblKey) : Except Stop (Except TblError Variable) :=
  tbl.lookupHash (tbl.hash key) key

/-- `AG_TblLookupPointer`: what `V->data` holds, to be read as a pointer -/
def lookupPointer (tbl : Tbl) (key : TblKey) : Except Stop (Except TblError Data) := do
  let found ← tbl.lookupHash (tbl.hash key) key
  return found.map fun V => V.data

/-- `AG_TblExists` -/
def tblExists (tbl : Tbl) (key : TblKey) : Except Stop Bool := tbl.existsHash (tbl.hash key) key

/-- `AG_TblInsert` -/
def insert (tbl : Tbl) (key : TblKey) (V : Variable) (allocation : TblAllocation) :
    Except Stop (Except TblError Unit × Tbl) :=
  tbl.insertHash (tbl.hash key) key V allocation

/-- `AG_TblInsertPointer` -/
def insertPointer (tbl : Tbl) (key : TblKey) (p : Pointer) (allocation : TblAllocation) :
    Except Stop (Except TblError Unit × Tbl) :=
  tbl.insertHash (tbl.hash key) key (initPointer p) allocation

/-- `AG_TblDelete` -/
def delete (tbl : Tbl) (key : TblKey) : Except Stop (Except TblError Unit × Tbl) :=
  tbl.deleteHash (tbl.hash key) key

/-- `AG_TBL_FOREACH`: the entries that it visits, with their keys -/
def foreach (tbl : Tbl) : Except Stop (List (TblKey × Variable)) :=
  collect (fun i => do
      let buck ← readCell tbl.buckets i
      collect (fun j => do
          let key ← readCell buck.keys j
          let ent ← readCell buck.ents j
          return [(key, ent)])
        (List.range buck.nEnts.toNat))
    (List.range tbl.nBuckets.toNat)

end Tbl

/-! ## Operations -/

/-- A call of one of the operations, on one table. -/
inductive TblOp where
  | tblInit (nBuckets flags : UInt32) (granted : Bool)
  | insertPointer (key : TblKey) (p : Pointer) (allocation : TblAllocation)
  | insert (key : TblKey) (V : Variable) (allocation : TblAllocation)
  | lookup (key : TblKey)
  | lookupPointer (key : TblKey)
  | delete (key : TblKey)
  | tblExists (key : TblKey)

/-- What a call returns. -/
inductive TblResult where
  | status (result : Except TblError Unit)
  | entry (result : Except TblError Variable)
  | data (result : Except TblError Data)
  | present (result : Bool)
  deriving DecidableEq

/-- A multimap that admits several values of a key or not. -/
structure TblMultimap where
  duplicates : Bool
  values : Multimap TblKey Variable

namespace TblMultimap

/-- The oldest value of a key. -/
def lookup (ideal : TblMultimap) (key : TblKey) : Except TblError Variable :=
  match ideal.values.lookup key with
  | none => .error .noSuchEntry
  | some V => .ok V

/-- A key gets one value, or one more where duplicates are allowed. -/
def insert (ideal : TblMultimap) (key : TblKey)
    (V : Variable) : Except TblError Unit × TblMultimap :=
  if ideal.duplicates = false ∧ ideal.values key ≠ [] then (.error .existingEntry, ideal)
  else (.ok (), { ideal with values := ideal.values.insert key V })

/-- A key loses its oldest value. -/
def delete (ideal : TblMultimap) (key : TblKey) : Except TblError Unit × TblMultimap :=
  if ideal.values key = [] then (.error .noSuchEntry, ideal)
  else (.ok (), { ideal with values := ideal.values.delete key })

/-- What an operation does to the multimap, and what it returns. -/
def step (ideal : TblMultimap) : TblOp → TblMultimap × TblResult
  | .tblInit _ flags _ =>
    ({
      duplicates := decide (flags &&& tblDuplicates ≠ 0)
      values := Multimap.empty
    }, .status (.ok ()))
  | .insertPointer key p _ =>
    let (result, next) := ideal.insert key (initPointer p)
    (next, .status result)
  | .insert key V _ =>
    let (result, next) := ideal.insert key V
    (next, .status result)
  | .lookup key => (ideal, .entry (ideal.lookup key))
  | .lookupPointer key => (ideal, .data ((ideal.lookup key).map fun V => V.data))
  | .delete key =>
    let (result, next) := ideal.delete key
    (next, .status result)
  | .tblExists key => (ideal, .present (decide (ideal.values key ≠ [])))

end TblMultimap

/-! ## Buckets -/

/-- A bucket holds some entries, with what is left of deleted ones behind. -/
structure TblBucket.Holds (buck : TblBucket) (entries : List (TblKey × Variable)) : Prop where
  keys : entries.map Prod.fst <+: buck.keys
  ents : entries.map Prod.snd <+: buck.ents
  nEnts : buck.nEnts.toNat = entries.length

theorem toNat_succ {count : UInt32} (room : count + 1 ≠ 0) :
    (count + 1).toNat = count.toNat + 1 := by
  have small := count.toNat_lt
  have nonzero : (count + 1).toNat ≠ 0 := by
    intro zero
    exact room (UInt32.toNat_inj.mp zero)
  rw [UInt32.toNat_add] at nonzero ⊢
  have one : UInt32.toNat 1 = 1 := rfl
  rw [one] at nonzero ⊢
  omega

theorem toNat_pred {count : UInt32} (positive : 0 < count.toNat) :
    (count - 1).toNat = count.toNat - 1 :=
  UInt32.toNat_sub_of_le count 1 (UInt32.le_iff_toNat_le.mpr positive)

theorem readCell_prefix {α : Type} {front cells : List α} {i : Nat} {cell : α}
    (starts : front <+: cells) (found : front[i]? = some cell) : readCell cells i = .ok cell := by
  obtain ⟨rest, rfl⟩ := starts
  have inside := (List.getElem?_eq_some_iff.mp found).1
  rw [readCell, List.getElem?_append_left inside, found]

theorem searchKeys_eq {key : TblKey} {entries : List (TblKey × Variable)} {keys : List TblKey}
    (starts : entries.map Prod.fst <+: keys) :
    searchKeys key keys entries.length = .ok (placeOf key entries) := by
  induction entries generalizing keys with
  | nil => cases keys <;> rfl
  | cons entry entries ih =>
    obtain ⟨rest, rfl⟩ := starts
    rw [List.map_cons, List.cons_append, List.length_cons, searchKeys,
      ih (List.prefix_append _ rest), placeOf, placeOf,
      List.findIdx_cons]
    by_cases same : entry.1 = key
    · simp [same]
    · simp [same, bind, Except.bind, pure, Except.pure]

theorem memmoveDown_eq {α : Type} {front cells : List α} {i : Nat} (starts : front <+: cells)
    (inside : i < front.length) :
    ∃ moved, memmoveDown cells i (front.length - i - 1) = .ok moved ∧
        front.eraseIdx i <+: moved := by
  obtain ⟨rest, rfl⟩ := starts
  have room : i + 1 + (front.length - i - 1) ≤ (front ++ rest).length := by
    rw [List.length_append]
    omega
  have behind : ((front ++ rest).drop (i + 1)).take (front.length - i - 1) =
        front.drop (i + 1) := by
    rw [List.drop_append_of_le_length inside]
    apply List.take_left'
    rw [List.length_drop, Nat.sub_sub]
  refine ⟨_, if_pos room, ?_⟩
  rw [behind, splice, List.take_append_of_le_length inside.le, List.eraseIdx_eq_take_drop_succ]
  exact List.prefix_append _ _

theorem eraseIdx_last {α : Type} {front cells : List α} {i : Nat} (starts : front <+: cells)
    (last : i + 1 = front.length) : front.eraseIdx i <+: cells := by
  rw [List.eraseIdx_eq_take_drop_succ, last, List.drop_length, List.append_nil]
  exact (List.take_prefix i front).trans starts

namespace TblBucket.Holds

variable {buck : TblBucket} {entries : List (TblKey × Variable)} (holds : buck.Holds entries)

include holds

theorem search (key : TblKey) : buck.search key = .ok (placeOf key entries) := by
  rw [TblBucket.search, holds.nEnts]
  exact searchKeys_eq holds.keys

theorem readCell_ents {key : TblKey} {V : Variable}
    (oldest : (valuesOf entries).lookup key = some V) :
    readCell buck.ents (placeOf key entries) = .ok V := by
  apply readCell_prefix holds.ents
  rw [List.getElem?_map, getElem?_placeOf, oldest]

theorem insert (key : TblKey) (V : Variable) (room : buck.nEnts + 1 ≠ 0) : TblBucket.Holds
      {
        keys := splice (buck.keys.take (buck.nEnts + 1).toNat) buck.nEnts.toNat [key]
        ents := splice (buck.ents.take (buck.nEnts + 1).toNat) buck.nEnts.toNat [V]
        nEnts := buck.nEnts + 1
      }
      (entries ++ [(key, V)]) := by
  have count : (buck.nEnts + 1).toNat = entries.length + 1 := by
    rw [← holds.nEnts]
    exact toNat_succ room
  have appended {α : Type} {front cells : List α} (starts : front <+: cells)
      (length : front.length = entries.length)
      (cell : α) :
      front ++ [cell] <+: splice (cells.take (entries.length + 1)) entries.length [cell] := by
    obtain ⟨rest, rfl⟩ := starts
    rw [← length, splice, List.take_take, min_eq_left (Nat.le_succ _), List.take_left]
    exact List.prefix_append _ _
  rw [count, holds.nEnts]
  exact {
    keys := by
      rw [List.map_append]
      exact appended holds.keys (List.length_map _) key
    ents := by
      rw [List.map_append]
      exact appended holds.ents (List.length_map _) V
    nEnts := by rw [count, List.length_append, List.length_singleton]
  }

theorem erase {i : Nat} {keys : List TblKey} {ents : List Variable} (inside : i < entries.length)
    (keysKept : (entries.map Prod.fst).eraseIdx i <+: keys)
    (entsKept : (entries.map Prod.snd).eraseIdx i <+: ents) :
    TblBucket.Holds
      { keys := keys, ents := ents, nEnts := buck.nEnts - 1 }
      (entries.eraseIdx i) where
  keys := by rwa [← List.eraseIdx_map]
  ents := by rwa [← List.eraseIdx_map]
  nEnts := by
    have positive : 0 < buck.nEnts.toNat := by
      rw [holds.nEnts]
      exact Nat.zero_lt_of_lt inside
    rw [toNat_pred positive, holds.nEnts, List.length_eraseIdx_of_lt inside]

theorem foreach : collect
        (fun j => do
          let key ← readCell buck.keys j
          let ent ← readCell buck.ents j
          return [(key, ent)])
        (List.range buck.nEnts.toNat) =
      .ok entries := by
  rw [holds.nEnts]
  conv_rhs => rw [← flatMap_range_getElem? entries]
  apply collect_eq_flatMap
  intro j listed
  have inside : j < entries.length := List.mem_range.mp listed
  have entry := List.getElem?_eq_getElem inside
  have key : readCell buck.keys j = .ok entries[j].1 := by
    apply readCell_prefix holds.keys
    rw [List.getElem?_map, entry, Option.map_some]
  have ent : readCell buck.ents j = .ok entries[j].2 := by
    apply readCell_prefix holds.ents
    rw [List.getElem?_map, entry, Option.map_some]
  rw [key, ent, entry]
  rfl

end TblBucket.Holds

/-! ## Tables -/

/-- Every bucket of a table holds the entries of its hash. -/
structure Tbl.Holds (tbl : Tbl) (chains : Nat → List (TblKey × Variable)) : Prop where
  positive : 0 < tbl.nBuckets.toNat
  length : tbl.buckets.length = tbl.nBuckets.toNat
  buckets : ∀ (h : Nat) (buck : TblBucket), tbl.buckets[h]? = some buck → buck.Holds (chains h)
  hashed : Hashed (fun key => (tbl.hash key).toNat) chains

namespace Tbl.Holds

variable {tbl : Tbl} {chains : Nat → List (TblKey × Variable)} (holds : tbl.Holds chains)

include holds

theorem hash_lt (key : TblKey) : (tbl.hash key).toNat < tbl.buckets.length := by
  rw [holds.length, Tbl.hash, UInt32.toNat_mod]
  exact Nat.mod_lt _ holds.positive

theorem bucket (key : TblKey) : ∃ buck, tbl.bucket (tbl.hash key) = .ok buck ∧
        buck.Holds (chains (tbl.hash key).toNat) := by
  have found := List.getElem?_eq_getElem (holds.hash_lt key)
  refine ⟨_, ?_, holds.buckets _ _ found⟩
  rw [Tbl.bucket, readCell, found]

theorem setBucket (key : TblKey) {buck : TblBucket} {entries : List (TblKey × Variable)}
    (bucketHolds : buck.Holds entries) (hashed : Hashed (fun key => (tbl.hash key).toNat)
        (Function.update chains (tbl.hash key).toNat entries)) :
    (tbl.setBucket (tbl.hash key) buck).Holds
      (Function.update chains (tbl.hash key).toNat entries) where
  positive := holds.positive
  length := by
    rw [Tbl.setBucket, List.length_set]
    exact holds.length
  buckets := by
    intro h other found
    rw [Tbl.setBucket, List.getElem?_set] at found
    split at found
    case isTrue here =>
      rw [if_pos (here ▸ holds.hash_lt key)] at found
      obtain rfl := Option.some.inj found
      rw [← here, Function.update_self]
      exact bucketHolds
    case isFalse elsewhere =>
      rw [Function.update_of_ne (Ne.symm elsewhere)]
      exact holds.buckets h other found
  hashed := hashed

end Tbl.Holds

/-- A table has the values of a multimap, and its flag. -/
structure Tbl.Represents (tbl : Tbl) (ideal : TblMultimap) : Prop where
  duplicates : ideal.duplicates = decide (tbl.flags &&& tblDuplicates ≠ 0)
  values : ∃ chains, tbl.Holds chains ∧
        chainValues (fun key => (tbl.hash key).toNat) chains = ideal.values

/-- The bucket of a key has as many entries as can be counted. -/
def Tbl.Full (tbl : Tbl) (key : TblKey) : Prop :=
  ∃ buck, tbl.bucket (tbl.hash key) = .ok buck ∧ buck.nEnts + 1 = 0

instance (tbl : Tbl) (key : TblKey) : Decidable (tbl.Full key) :=
  match found : tbl.bucket (tbl.hash key) with
  | .ok buck =>
    decidable_of_iff (buck.nEnts + 1 = 0) (by
      constructor
      · exact fun full => ⟨buck, found, full⟩
      · rintro ⟨other, otherFound, full⟩
        rw [found] at otherFound
        cases otherFound
        exact full)
  | .error _ =>
    isFalse (by
      rintro ⟨other, otherFound, _⟩
      rw [found] at otherFound
      cases otherFound)

/-- A string that a variable owns is not `NULL`. -/
def Variable.Copyable (V : Variable) : Prop :=
  V.type = .string → V.size = 0 → ∃ text, V.data = .s (some text)

theorem copyVariable_eq {V : Variable} (copyable : V.Copyable) : copyVariable true V = .ok V := by
  unfold copyVariable
  split
  case isTrue owned =>
    obtain ⟨text, holds⟩ := copyable owned.1 owned.2
    cases V
    simp only at holds
    subst holds
    rfl
  case isFalse => rfl

theorem TblBucket.Holds.place_eq_nEnts {buck : TblBucket} {entries : List (TblKey × Variable)}
    (holds : buck.Holds entries) {key : TblKey} :
    placeOf key entries = buck.nEnts.toNat ↔ valuesOf entries key = [] := by
  rw [holds.nEnts, ← not_iff_not, ← Ne, ← Ne, ← placeOf_lt_iff]
  exact ⟨fun different => lt_of_le_of_ne (placeOf_le key entries) different, ne_of_lt⟩

namespace Tbl.Represents

variable {tbl : Tbl} {ideal : TblMultimap} (represents : tbl.Represents ideal)

include represents

variable (key : TblKey)

theorem bucket : ∃ chains buck, tbl.Holds chains ∧
        chainValues (fun key => (tbl.hash key).toNat) chains = ideal.values ∧
          tbl.bucket (tbl.hash key) = .ok buck ∧ buck.Holds (chains (tbl.hash key).toNat) ∧
              valuesOf (chains (tbl.hash key).toNat) key = ideal.values key := by
  obtain ⟨chains, holds, values⟩ := represents.values
  obtain ⟨buck, found, bucketHolds⟩ := holds.bucket key
  exact ⟨chains, buck, holds, values, found, bucketHolds, congrFun values key⟩

theorem lookup : tbl.lookup key = .ok (ideal.lookup key) := by
  obtain ⟨chains, buck, _, _, found, bucketHolds, values⟩ := represents.bucket key
  rw [Tbl.lookup, Tbl.lookupHash, found, TblMultimap.lookup, Multimap.lookup, ← values]
  simp only [bind, Except.bind, bucketHolds.search key]
  cases oldest : valuesOf (chains (tbl.hash key).toNat) key with
  | nil =>
    rw [if_pos (bucketHolds.place_eq_nEnts.mpr oldest)]
    rfl
  | cons V younger =>
    have there : valuesOf (chains (tbl.hash key).toNat) key ≠ [] := by
      rw [oldest]
      exact List.cons_ne_nil V younger
    have first : (valuesOf (chains (tbl.hash key).toNat)).lookup key = some V := by
      rw [Multimap.lookup, oldest, List.head?_cons]
    rw [if_neg (mt bucketHolds.place_eq_nEnts.mp there), bucketHolds.readCell_ents first]
    rfl

theorem lookupPointer : tbl.lookupPointer key = .ok ((ideal.lookup key).map fun V => V.data) := by
  have found := represents.lookup key
  rw [Tbl.lookup] at found
  rw [Tbl.lookupPointer, found]
  rfl

theorem tblExists : tbl.tblExists key = .ok (decide (ideal.values key ≠ [])) := by
  obtain ⟨chains, buck, _, _, found, bucketHolds, values⟩ := represents.bucket key
  rw [Tbl.tblExists, Tbl.existsHash, found, ← values]
  simp only [bind, Except.bind, bucketHolds.search key, pure, Except.pure,
    Ne, bucketHolds.place_eq_nEnts]

theorem insert_cases {V : Variable} (copyable : V.Copyable) : ∃ result tblNew,
      tbl.insert key V .all = .ok (result, tblNew) ∧ (tbl.Full key ∧ result = .error .outOfMemory ∨
          result = (ideal.insert key V).1 ∧ tblNew.Represents (ideal.insert key V).2) := by
  obtain ⟨chains, buck, holds, same, found, bucketHolds, values⟩ := represents.bucket key
  have present : placeOf key (chains (tbl.hash key).toNat) < buck.nEnts.toNat ↔
        ideal.values key ≠ [] := by
    rw [bucketHolds.nEnts, placeOf_lt_iff, values]
  have flag : tbl.flags &&& tblDuplicates = 0 ↔ ideal.duplicates = false := by
    rw [represents.duplicates, decide_eq_false_iff_not, Ne, not_not]
  rw [Tbl.insert, Tbl.insertHash, found, TblMultimap.insert]
  simp only [bind, Except.bind, bucketHolds.search key, present, flag]
  split
  case isTrue existing => exact ⟨_, tbl, rfl, .inr ⟨rfl, represents⟩⟩
  case isFalse =>
    by_cases room : buck.nEnts + 1 = 0
    · have refused (cells : List Variable) :
          tryReallocCells TblAllocation.all.ents (buck.nEnts + 1) cells = none := by
        rw [tryReallocCells, if_neg (fun granted => granted.2 room)]
      rw [refused]
      exact ⟨_, tbl, rfl, .inl ⟨⟨buck, found, room⟩, rfl⟩⟩
    · have granted {α : Type} (cells : List α) : tryReallocCells true (buck.nEnts + 1) cells =
            some (cells.take (buck.nEnts + 1).toNat) :=
        if_pos ⟨rfl, room⟩
      have ents := granted buck.ents
      have keys := granted buck.keys
      simp only [TblAllocation.all, ents, keys, strdup, if_true, copyVariable_eq copyable]
      refine ⟨_, _, rfl, .inr ⟨rfl, represents.duplicates, ?_⟩⟩
      refine ⟨_, holds.setBucket key (bucketHolds.insert key V room)
        (holds.hashed.insert key V), ?_⟩
      rw [← same]
      exact chainValues_insert key V

theorem insert {V : Variable} (copyable : V.Copyable) : ∃ result tblNew,
      tbl.insert key V .all = .ok (result, tblNew) ∧ (result = .error .outOfMemory ∨
          result = (ideal.insert key V).1 ∧ tblNew.Represents (ideal.insert key V).2) := by
  obtain ⟨result, tblNew, inserted, outcome⟩ := represents.insert_cases key copyable
  exact ⟨result, tblNew, inserted, outcome.imp_left And.right⟩

theorem insert_full {key : TblKey} (full : tbl.Full key) (V : Variable) :
    ∃ error tblNew, tbl.insert key V .all = .ok (.error error, tblNew) := by
  obtain ⟨chains, buck, _, _, found, bucketHolds, _⟩ := represents.bucket key
  obtain ⟨other, otherFound, noRoom⟩ := full
  rw [found, Except.ok.injEq] at otherFound
  rw [← otherFound] at noRoom
  have refused (cells : List Variable) :
      tryReallocCells TblAllocation.all.ents (buck.nEnts + 1) cells = none := by
    rw [tryReallocCells, if_neg (fun granted => granted.2 noRoom)]
  rw [Tbl.insert, Tbl.insertHash, found]
  simp only [bind, Except.bind, bucketHolds.search key, refused]
  split <;> exact ⟨_, _, rfl⟩

theorem delete : ∃ tblNew, tbl.delete key = .ok ((ideal.delete key).1, tblNew) ∧
        tblNew.Represents (ideal.delete key).2 := by
  obtain ⟨chains, buck, holds, same, found, bucketHolds, values⟩ := represents.bucket key
  have absent : placeOf key (chains (tbl.hash key).toNat) = buck.nEnts.toNat ↔
        ideal.values key = [] := by
    rw [bucketHolds.place_eq_nEnts, values]
  rw [Tbl.delete, Tbl.deleteHash, found, TblMultimap.delete]
  simp only [bind, Except.bind, bucketHolds.search key, absent]
  split
  case isTrue => exact ⟨tbl, rfl, represents⟩
  case isFalse present =>
    obtain ⟨V, younger, oldest⟩ := List.exists_cons_of_ne_nil present
    have first : (valuesOf (chains (tbl.hash key).toNat)).lookup key = some V := by
      rw [Multimap.lookup, values, oldest, List.head?_cons]
    have inside : placeOf key (chains (tbl.hash key).toNat) <
          (chains (tbl.hash key).toNat).length := by
      rw [placeOf_lt_iff, values]
      exact present
    have positive : 0 < buck.nEnts.toNat := by
      rw [bucketHolds.nEnts]
      exact Nat.zero_lt_of_lt inside
    have kept {keys : List TblKey} {ents : List Variable} (erased : TblBucket.Holds
            { keys := keys, ents := ents, nEnts := buck.nEnts - 1 }
            (eraseFirst key (chains (tbl.hash key).toNat))) :
        (tbl.setBucket (tbl.hash key)
          { keys := keys, ents := ents, nEnts := buck.nEnts - 1 }).Represents
            { ideal with values := ideal.values.delete key } := by
      refine ⟨represents.duplicates, _, holds.setBucket key erased (holds.hashed.delete key), ?_⟩
      rw [← same]
      exact chainValues_delete key
    have keysInside := inside
    have entsInside := inside
    rw [← List.length_map Prod.fst] at keysInside
    rw [← List.length_map Prod.snd] at entsInside
    rw [bucketHolds.readCell_ents first, toNat_pred positive]
    dsimp only
    split
    case isTrue =>
      obtain ⟨ents, entsMoved, entsKept⟩ := memmoveDown_eq bucketHolds.ents entsInside
      obtain ⟨keys, keysMoved, keysKept⟩ := memmoveDown_eq bucketHolds.keys keysInside
      rw [List.length_map, ← bucketHolds.nEnts] at entsMoved keysMoved
      rw [entsMoved, keysMoved]
      exact ⟨_, rfl, kept (bucketHolds.erase inside keysKept entsKept)⟩
    case isFalse last =>
      have atEnd : placeOf key (chains (tbl.hash key).toNat) + 1 =
            (chains (tbl.hash key).toNat).length := by
        have count := bucketHolds.nEnts
        omega
      refine ⟨_, rfl, kept (bucketHolds.erase inside ?_ ?_)⟩
      · exact eraseIdx_last bucketHolds.keys (atEnd.trans (List.length_map _).symm)
      · exact eraseIdx_last bucketHolds.ents (atEnd.trans (List.length_map _).symm)

theorem foreach : ∃ visited, tbl.foreach = .ok visited ∧ valuesOf visited = ideal.values := by
  obtain ⟨chains, holds, same⟩ := represents.values
  refine ⟨(List.range tbl.nBuckets.toNat).flatMap chains, ?_, ?_⟩
  · apply collect_eq_flatMap
    intro i listed
    have inside : i < tbl.buckets.length := by
      rw [holds.length]
      exact List.mem_range.mp listed
    have bucketHolds := holds.buckets i _ (List.getElem?_eq_getElem inside)
    rw [readCell, List.getElem?_eq_getElem inside]
    exact bucketHolds.foreach
  · funext key
    rw [← same]
    apply valuesOf_flatMap holds.hashed
    rw [← holds.length]
    exact holds.hash_lt key

end Tbl.Represents

/-! ## Runs -/

/-- A call gives a table at least one bucket, and its strings are not `NULL`. -/
def TblOp.Valid : TblOp → Prop
  | .tblInit nBuckets _ _ => 0 < nBuckets.toNat
  | .insert _ V _ => V.Copyable
  | _ => True

/-- The requests that a call makes are granted. -/
def TblOp.Granted : TblOp → Prop
  | .tblInit _ _ granted => granted = true
  | .insertPointer _ _ allocation => allocation = .all
  | .insert _ _ allocation => allocation = .all
  | _ => True

/-- The table, where there is one, represents the multimap. -/
def TblKept : Option Tbl → TblMultimap → Prop
  | none, _ => True
  | some tbl, ideal => tbl.Represents ideal

/--
Going through the table, where there is one, visits every entry of the
multimap once, and those of each key in their order.
-/
def TblVisits : Option Tbl → TblMultimap → Prop
  | none, _ => True
  | some tbl, ideal => ∃ visited, tbl.foreach = .ok visited ∧ valuesOf visited = ideal.values

theorem tblInit_represents {nBuckets flags : UInt32} (positive : 0 < nBuckets.toNat) :
    (tblInit true nBuckets flags).2.Represents {
      duplicates := decide (flags &&& tblDuplicates ≠ 0)
      values := Multimap.empty
    } where
  duplicates := rfl
  values := by
    refine ⟨fun _ => [], ?_, rfl⟩
    exact {
      positive := positive
      length := List.length_replicate
      buckets := by
        intro h buck found
        obtain rfl := List.eq_of_mem_replicate (List.mem_of_getElem? found)
        exact {
          keys := List.nil_prefix
          ents := List.nil_prefix
          nEnts := rfl
        }
      hashed := hashed_empty
    }

theorem initPointer_copyable (p : Pointer) : (initPointer p).Copyable := by
  intro isString
  cases isString

theorem TblKept.visits {state : Option Tbl} {ideal : TblMultimap} (kept : TblKept state ideal) :
    TblVisits state ideal := by
  cases state with
  | none => exact trivial
  | some tbl =>
    have represents : tbl.Represents ideal := kept
    exact represents.foreach

end Agar.Core
