import Mathlib

namespace Agar.Lib

/-!
# Multimaps as lists of entries

A multimap gives every key its values, oldest first.  Lists of entries in
order of insertion represent multimaps: inserting appends an entry, and
deleting a key erases its first entry.  A family of such lists, one for each
hash of a key, represents a multimap as well.
-/

/-- The values of each key, oldest first. -/
abbrev Multimap (κ ν : Type) := κ → List ν

section

variable {κ ν : Type} [DecidableEq κ]

namespace Multimap

/-- No key has a value. -/
def empty : Multimap κ ν := fun _ => []

/-- The oldest value of a key. -/
def lookup (values : Multimap κ ν) (key : κ) : Option ν := (values key).head?

/-- Give a key one more value. -/
def insert (values : Multimap κ ν) (key : κ) (value : ν) : Multimap κ ν :=
  Function.update values key (values key ++ [value])

/-- Take its oldest value from a key. -/
def delete (values : Multimap κ ν) (key : κ) : Multimap κ ν :=
  Function.update values key (values key).tail

end Multimap

/-! ## One list -/

/-- The values of a key in a list of entries. -/
def valuesOf (entries : List (κ × ν)) : Multimap κ ν :=
  fun key => (entries.filter (·.1 = key)).map Prod.snd

/-- The place of the first entry of a key, or the end of the list. -/
def placeOf (key : κ) (entries : List (κ × ν)) : Nat := entries.findIdx (·.1 = key)

/-- Erase the first entry of a key. -/
def eraseFirst (key : κ) (entries : List (κ × ν)) : List (κ × ν) :=
  entries.eraseIdx (placeOf key entries)

@[simp] theorem valuesOf_nil : valuesOf ([] : List (κ × ν)) = Multimap.empty := rfl

theorem valuesOf_cons (entry : κ × ν) (entries : List (κ × ν)) (key : κ) :
    valuesOf (entry :: entries) key = if entry.1 = key then
        entry.2 :: valuesOf entries key
      else
        valuesOf entries key := by
  unfold valuesOf
  by_cases same : entry.1 = key <;> simp [same]

theorem valuesOf_append (front back : List (κ × ν)) (key : κ) : valuesOf (front ++ back) key =
      valuesOf front key ++ valuesOf back key := by
  simp [valuesOf]

variable {entries : List (κ × ν)}

theorem valuesOf_eq_nil {key : κ} (absent : ∀ entry ∈ entries, entry.1 ≠ key) :
    valuesOf entries key = [] := by
  rw [valuesOf, List.map_eq_nil_iff, List.filter_eq_nil_iff]
  intro entry member
  simpa using absent entry member

theorem valuesOf_insert (entries : List (κ × ν)) (key : κ) (value : ν) :
    valuesOf (entries ++ [(key, value)]) = (valuesOf entries).insert key value := by
  funext other
  rw [valuesOf_append, valuesOf_cons, Multimap.insert]
  by_cases same : key = other
  · subst same
    simp [Multimap.empty]
  · have different : other ≠ key := Ne.symm same
    simp [same, different, Multimap.empty]

theorem placeOf_le (key : κ) (entries : List (κ × ν)) : placeOf key entries ≤ entries.length :=
  List.findIdx_le_length

theorem placeOf_lt_iff {key : κ} :
    placeOf key entries < entries.length ↔ valuesOf entries key ≠ [] := by
  rw [placeOf, List.findIdx_lt_length, valuesOf, Ne, List.map_eq_nil_iff, List.filter_eq_nil_iff]
  push Not
  rfl

theorem getElem?_placeOf (key : κ) (entries : List (κ × ν)) :
    (entries[placeOf key entries]?).map Prod.snd = (valuesOf entries).lookup key := by
  unfold Multimap.lookup
  induction entries with
  | nil => rfl
  | cons entry rest ih =>
    rw [valuesOf_cons, placeOf, List.findIdx_cons]
    by_cases same : entry.1 = key
    · simp [same]
    · simpa [same, placeOf] using ih

theorem valuesOf_eraseFirst (key : κ) (entries : List (κ × ν)) :
    valuesOf (eraseFirst key entries) = (valuesOf entries).delete key := by
  induction entries with
  | nil =>
    funext other
    simp [eraseFirst, placeOf, Multimap.delete, Multimap.empty, Function.update_apply]
  | cons entry rest ih =>
    funext other
    have later := congrFun ih other
    by_cases same : entry.1 = key
    · have first : eraseFirst key (entry :: rest) = rest := by
        simp [eraseFirst, placeOf, List.findIdx_cons, same]
      rw [first, Multimap.delete]
      by_cases asked : other = key
      · subst asked
        simp [valuesOf_cons, same]
      · have different : entry.1 ≠ other := by
          rw [same]
          exact Ne.symm asked
        rw [Function.update_of_ne asked, valuesOf_cons, if_neg different]
    · have behind : eraseFirst key (entry :: rest) = entry :: eraseFirst key rest := by
        simp [eraseFirst, placeOf, List.findIdx_cons, same]
      rw [behind, valuesOf_cons, later, Multimap.delete, Multimap.delete]
      by_cases asked : other = key
      · subst asked
        simp [valuesOf_cons, same]
      · rw [Function.update_of_ne asked, Function.update_of_ne asked, valuesOf_cons]

theorem mem_of_mem_eraseFirst {key : κ} {entry : κ × ν} (member : entry ∈ eraseFirst key entries) :
    entry ∈ entries :=
  List.mem_of_mem_eraseIdx member

/-! ## A list for each hash -/

/-- Every list holds entries of keys with its hash. -/
def Hashed (hash : κ → Nat) (chains : Nat → List (κ × ν)) : Prop :=
  ∀ h, ∀ entry ∈ chains h, hash entry.1 = h

/-- The values of the keys in the lists of their hashes. -/
def chainValues (hash : κ → Nat) (chains : Nat → List (κ × ν)) : Multimap κ ν :=
  fun key => valuesOf (chains (hash key)) key

variable {hash : κ → Nat} {chains : Nat → List (κ × ν)}

omit [DecidableEq κ] in
theorem hashed_empty : Hashed hash (fun _ => ([] : List (κ × ν))) := by
  intro h entry member
  cases member

omit [DecidableEq κ] in
theorem Hashed.insert (hashed : Hashed hash chains) (key : κ) (value : ν) : Hashed hash
      (Function.update chains (hash key) (chains (hash key) ++ [(key, value)])) := by
  intro h entry member
  by_cases here : h = hash key
  · subst here
    rw [Function.update_self] at member
    rcases List.mem_append.mp member with old | new
    · exact hashed _ entry old
    · rw [List.mem_singleton.mp new]
  · rw [Function.update_of_ne here] at member
    exact hashed h entry member

theorem Hashed.delete (hashed : Hashed hash chains) (key : κ) : Hashed hash
      (Function.update chains (hash key) (eraseFirst key (chains (hash key)))) := by
  intro h entry member
  by_cases here : h = hash key
  · subst here
    rw [Function.update_self] at member
    exact hashed _ entry (mem_of_mem_eraseFirst member)
  · rw [Function.update_of_ne here] at member
    exact hashed h entry member

theorem chainValues_update {key : κ} {values : List ν}
    (changed : valuesOf entries = Function.update (valuesOf (chains (hash key))) key values) :
    chainValues hash (Function.update chains (hash key) entries) =
      Function.update (chainValues hash chains) key values := by
  funext other
  unfold chainValues
  by_cases here : hash other = hash key
  · rw [here, Function.update_self, changed]
    by_cases same : other = key
    · subst same
      rw [Function.update_self, Function.update_self]
    · rw [Function.update_of_ne same, Function.update_of_ne same, here]
  · have different : other ≠ key := by
      rintro rfl
      exact here rfl
    rw [Function.update_of_ne here, Function.update_of_ne different]

theorem chainValues_insert (key : κ) (value : ν) : chainValues hash
        (Function.update chains (hash key) (chains (hash key) ++ [(key, value)])) =
      (chainValues hash chains).insert key value :=
  chainValues_update (valuesOf_insert _ key value)

theorem chainValues_delete (key : κ) : chainValues hash
        (Function.update chains (hash key) (eraseFirst key (chains (hash key)))) =
      (chainValues hash chains).delete key :=
  chainValues_update (valuesOf_eraseFirst key _)

theorem valuesOf_flatMap (hashed : Hashed hash chains) {count : Nat} {key : κ}
    (inside : hash key < count) :
    valuesOf ((List.range count).flatMap chains) key = chainValues hash chains key := by
  have other {h : Nat} (different : h ≠ hash key) : valuesOf (chains h) key = [] := by
    apply valuesOf_eq_nil
    intro entry member same
    apply different
    rw [← hashed h entry member, same]
  have before (m : Nat) (below : m ≤ hash key) :
      valuesOf ((List.range m).flatMap chains) key = [] := by
    induction m with
    | zero => rfl
    | succ m ih =>
      rw [List.range_succ, List.flatMap_append, valuesOf_append,
        ih (by omega), List.flatMap_singleton,
        other (by omega), List.append_nil]
  induction count with
  | zero => cases inside
  | succ count ih =>
    rw [List.range_succ, List.flatMap_append, valuesOf_append, List.flatMap_singleton]
    by_cases last : hash key = count
    · rw [before count (by omega), List.nil_append, chainValues, last]
    · rw [ih (by omega), other (Ne.symm last), List.append_nil]

end

end Agar.Lib
