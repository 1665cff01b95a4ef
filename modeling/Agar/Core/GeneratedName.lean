import Agar.Core.Object
import Agar.Lib.Outcome

namespace Agar.Core

open Agar.Lib

/-!
# Generated names

`AG_ObjectGenName` and `AG_ObjectGenNamePfx` number the name of a class or a
prefix until no child of the parent has the name.  Where the buffer has no room
for all digits, `AG_StrlcatUint` keeps the last ones, so that different numbers
may give one name.
-/

/-! ## Numbers in a buffer -/

/-- The decimal digits of a number, the last one first -/
def decimalDigits (val : Nat) : List UInt8 :=
  if val = 0 then [48] else (Nat.digits 10 val).map fun digit => (48 + digit).toUInt8

/--
The loop of `AG_StrlcatUint`: what it stores from `s[i]` on, and whether it
leaves for `trunc`
-/
def storeDigits (size i val : Nat) : List UInt8 × Bool :=
  if i + 1 > size then ([], true)
  else
    let digit := (48 + val % 10).toUInt8
    if val / 10 > 0 then
      let (rest, trunc) := storeDigits size (i + 1) (val / 10)
      (digit :: rest, trunc)
    else ([digit], decide (i + 2 > size))
termination_by val

/-- `AG_StrlcatUint` -/
def strlcatUint (s : List UInt8) (val : UInt32) (size : Nat) : List UInt8 :=
  if size < 1 then s
  else
    let (digits, trunc) := storeDigits size s.length val.toNat
    if trunc then
      -- `s[size-1] = '\0'`
      s ++ (digits.take (size - 1 - s.length)).reverse
    else s ++ digits.reverse

/-- `AG_Strlcpy` to a buffer with room for a terminator -/
def strlcpyTo (src : List UInt8) (size : Nat) : List UInt8 := src.take (size - 1)

/-- `AG_Strlcat` in a buffer with room for a terminator -/
def strlcatTo (dst src : List UInt8) (size : Nat) : List UInt8 := (dst ++ src).take (size - 1)

/-! ## The functions -/

/-- The loop behind `tryname`, from a number on, for so many turns -/
def tryName (taken : List UInt8 → Bool)
    (name : UInt32 → List UInt8) : Nat → UInt32 → Except Stop (List UInt8)
  | 0, _ => .error .outOfFuel
  | turns + 1, i => if taken (name i) then tryName taken name turns (i + 1) else .ok (name i)

namespace World

/-- The names of the children of an object; `NULL` has none -/
def childNames (w : World) : Option ObjRef → List (List UInt8)
  | none => []
  | some p =>
    match w.objects p with
    | none => []
    | some pobj =>
      pobj.children.filterMap fun ch => (w.objects ch).map fun entry => entry.name.bytes

/-- `AG_ObjectGenName`, for so many turns of its loop -/
def objectGenNameIn (w : World) (p : Option ObjRef) (cl : ObjectClass)
    (len turns : Nat) : Except Stop (List UInt8) :=
  tryName (fun name => (w.childNames p).contains name) (fun i =>
      strlcatUint (strlcatTo (strlcpyTo cl.name.bytes len) (ascii " #") len) i len)
    turns 0

/-- `AG_ObjectGenNamePfx`, for so many turns of its loop -/
def objectGenNamePfx (w : World) (p : Option ObjRef) (pfx : List UInt8)
    (len turns : Nat) : Except Stop (List UInt8) :=
  tryName (fun name => (w.childNames p).contains name)
    (fun i => strlcatUint (strlcpyTo pfx len) i len)
    turns 1

end World

/-! ## The names that are tried -/

/--
A prefix with a number in a buffer of some size: what fits of the prefix, and
the last digits of the number for which there is room behind it
-/
def numberedName (pfx : List UInt8) (len i : Nat) : List UInt8 :=
  let start := pfx.take (len - 1)
  start ++ ((decimalDigits i).take (len - 1 - start.length)).reverse

theorem decimalDigits_cons (val : Nat) : decimalDigits val = (48 + val % 10).toUInt8 ::
        if val / 10 > 0 then decimalDigits (val / 10) else [] := by
  unfold decimalDigits
  by_cases zero : val = 0
  · rw [if_pos zero, zero]
    rfl
  · rw [if_neg zero, Nat.digits_eq_cons_digits_div (by decide) zero, List.map_cons]
    by_cases more : val / 10 > 0
    · rw [if_pos more, if_neg (Nat.ne_of_gt more)]
    · rw [if_neg more, Nat.eq_zero_of_not_pos more, Nat.digits_zero, List.map_nil]

theorem ofDigits_decimalDigits (val : Nat) :
    Nat.ofDigits 10 ((decimalDigits val).map fun c => c.toNat - 48) = val := by
  unfold decimalDigits
  split
  case isTrue zero =>
    rw [zero]
    rfl
  case isFalse =>
    have back : ((Nat.digits 10 val).map fun digit => (48 + digit).toUInt8).map
            (fun c => c.toNat - 48) =
          Nat.digits 10 val := by
      rw [List.map_map]
      conv_rhs => rw [← List.map_id (Nat.digits 10 val)]
      refine List.map_congr_left fun digit member => ?_
      have small : digit < 10 := Nat.digits_lt_base (by decide) member
      simp only [Function.comp_apply, Nat.toUInt8_eq, UInt8.toNat_ofNat', id]
      omega
    rw [back, Nat.ofDigits_digits]

theorem length_decimalDigits_le {val room : Nat} (small : val < 10 ^ room) (positive : 0 < room) :
    (decimalDigits val).length ≤ room := by
  unfold decimalDigits
  split
  · exact positive
  · rw [List.length_map]
    exact (Nat.digits_length_le_iff (by decide) val).mpr small

theorem storeDigits_eq {size i : Nat} (val : Nat) : storeDigits size i val =
      ((decimalDigits val).take (size - i),
        decide (size < i + (decimalDigits val).length + 1)) := by
  fun_induction storeDigits size i val with
  | case1 i val full =>
    rw [Nat.sub_eq_zero_of_le (by omega), List.take_zero]
    have : size < i + (decimalDigits val).length + 1 := by omega
    rw [decide_eq_true this]
  | case2 i val room digit more rest trunc stored ih =>
    rw [stored, Prod.mk.injEq] at ih
    obtain ⟨here, there⟩ := ih
    have turn : size - i = size - (i + 1) + 1 := by omega
    rw [decimalDigits_cons val, if_pos more, turn, List.take_succ_cons,
      List.length_cons, here, there]
    congr 2
    exact propext ⟨fun long => by omega, fun long => by omega⟩
  | case3 i val room digit last =>
    have turn : size - i = size - (i + 1) + 1 := by omega
    rw [decimalDigits_cons val, if_neg last, turn, List.take_succ_cons,
      List.take_nil, List.length_singleton]

theorem strlcatUint_eq {s : List UInt8} {size : Nat} (val : UInt32) (fits : s.length < size) :
    strlcatUint s val size =
      s ++ ((decimalDigits val.toNat).take (size - 1 - s.length)).reverse := by
  rw [strlcatUint, if_neg (by omega), storeDigits_eq]
  by_cases long : size < s.length + (decimalDigits val.toNat).length + 1
  · simp only [decide_eq_true long, if_true]
    rw [List.take_take, min_eq_left (by omega)]
  · simp only [decide_eq_false long, Bool.false_eq_true, if_false]
    rw [List.take_of_length_le (by omega), List.take_of_length_le (by omega)]

theorem strlcatUint_strlcpyTo {len : Nat} (nonempty : 0 < len) (pfx : List UInt8) (i : UInt32) :
    strlcatUint (strlcpyTo pfx len) i len = numberedName pfx len i.toNat := by
  have fits : (strlcpyTo pfx len).length < len := (List.length_take_le _ _).trans_lt (by omega)
  rw [strlcatUint_eq i fits, numberedName]
  rfl

theorem strlcatTo_strlcpyTo (dst src : List UInt8) (len : Nat) :
    strlcatTo (strlcpyTo dst len) src len = strlcpyTo (dst ++ src) len := by
  rw [strlcatTo, strlcpyTo, strlcpyTo, List.take_append, List.take_append,
    List.take_take, min_self, List.length_take]
  congr 1
  by_cases long : dst.length ≤ len - 1
  · rw [min_eq_right long]
  · rw [min_eq_left (by omega), Nat.sub_self, Nat.sub_eq_zero_of_le (by omega)]

/-! ## The search -/

section Search

variable {taken : List UInt8 → Bool} {name : UInt32 → List UInt8}

theorem tryName_free {turns : Nat} {i : UInt32} {found : List UInt8}
    (ends : tryName taken name turns i = .ok found) :
    taken found = false ∧ ∃ j, name j = found := by
  induction turns generalizing i with
  | zero => cases ends
  | succ turns ih =>
    rw [tryName] at ends
    split at ends
    case isTrue => exact ih ends
    case isFalse free =>
      rw [Except.ok.injEq] at ends
      rw [← ends]
      exact ⟨Bool.not_eq_true _ ▸ free, i, rfl⟩

theorem tryName_ends {i : UInt32} {k : Nat} (free : taken (name (i + .ofNat k)) = false) :
    ∃ found, tryName taken name (k + 1) i = .ok found := by
  induction k generalizing i with
  | zero =>
    have here : taken (name i) = false := by simpa using free
    rw [tryName, if_neg (by simp [here])]
    exact ⟨_, rfl⟩
  | succ k ih =>
    rw [tryName]
    by_cases now : taken (name i) = true
    · rw [if_pos now]
      apply ih
      have later : i + 1 + .ofNat k = i + .ofNat (k + 1) := by
        rw [UInt32.ofNat_add, UInt32.add_assoc, UInt32.add_comm 1]
        rfl
      rw [later, free]
    · rw [if_neg now]
      exact ⟨_, rfl⟩

theorem tryName_ends_iff (i : UInt32) : (∃ turns found, tryName taken name turns i = .ok found) ↔
      ∃ j, taken (name j) = false := by
  constructor
  · rintro ⟨turns, found, ends⟩
    obtain ⟨free, j, rfl⟩ := tryName_free ends
    exact ⟨j, free⟩
  · rintro ⟨j, free⟩
    have reached : i + .ofNat (j - i).toNat = j := by
      rw [UInt32.ofNat_toNat, UInt32.add_comm, UInt32.sub_add_cancel]
    exact ⟨_, tryName_ends (reached.symm ▸ free)⟩

end Search

/-! ## Free names -/

/-- A loop ends, with a name that no child has. -/
def EndsFresh (children : List (List UInt8)) (generate : Nat → Except Stop (List UInt8)) : Prop :=
  ∃ turns name, generate turns = .ok name ∧ name ∉ children

/-- The prefix with one of the numbers of a `Uint` is no name of a child. -/
def SomeFree (children : List (List UInt8)) (pfx : List UInt8) (len : Nat) : Prop :=
  ∃ i < 2 ^ 32, numberedName pfx len i ∉ children

theorem endsFresh_iff {children : List (List UInt8)} {pfx : List UInt8} {len : Nat}
    {name : UInt32 → List UInt8} (numbers : ∀ i, name i = numberedName pfx len i.toNat)
    (first : UInt32) :
    EndsFresh children (fun turns => tryName (fun name => children.contains name) name
          turns first) ↔
      SomeFree children pfx len := by
  have free_iff (j : UInt32) : children.contains (name j) = false ↔
        numberedName pfx len j.toNat ∉ children := by
    rw [numbers, ← Bool.not_eq_true, List.contains_iff_mem]
  constructor
  · rintro ⟨turns, found, ends, _⟩
    obtain ⟨free, j, rfl⟩ := tryName_free ends
    exact ⟨j.toNat, j.toNat_lt, (free_iff j).mp free⟩
  · rintro ⟨i, small, free⟩
    have isFree : ∃ j, children.contains (name j) = false := by
      refine ⟨.ofNat i, (free_iff _).mpr ?_⟩
      rwa [UInt32.toNat_ofNat_of_lt' small]
    obtain ⟨turns, found, ends⟩ := (tryName_ends_iff first).mpr isFree
    refine ⟨turns, found, ends, ?_⟩
    have notTaken := (tryName_free ends).1
    rwa [← Bool.not_eq_true, List.contains_iff_mem] at notTaken

theorem numberedName_of_full {pfx : List UInt8} {len : Nat} (full : len - 1 ≤ pfx.length)
    (i : Nat) : numberedName pfx len i = pfx.take (len - 1) := by
  rw [numberedName, List.length_take, min_eq_left full, Nat.sub_self,
    List.take_zero, List.reverse_nil, List.append_nil]

/--
In a buffer that objects have for their names, or a larger one, the functions
end with a fresh name exactly if the name of the class, or the prefix, with
one of the numbers of a `Uint` and cut to the buffer is no name of a child.
-/
theorem generated_names_fresh_iff (w : World) (p : Option ObjRef) (cl : ObjectClass)
    (pfx : List UInt8) {len : Nat} (large : objectNameMax ≤ len) :
    (EndsFresh (w.childNames p) (w.objectGenNameIn p cl len) ↔
        SomeFree (w.childNames p) (cl.name.bytes ++ ascii " #") len) ∧
      (EndsFresh (w.childNames p) (w.objectGenNamePfx p pfx len) ↔
        SomeFree (w.childNames p) pfx len) := by
  have nonempty : 0 < len := Nat.lt_of_lt_of_le (by decide) large
  refine ⟨endsFresh_iff (fun i => ?_) 0, endsFresh_iff (strlcatUint_strlcpyTo nonempty pfx) 1⟩
  rw [strlcatTo_strlcpyTo]
  exact strlcatUint_strlcpyTo nonempty _ i

theorem generated_names_fresh_unattached : (EndsFresh (World.initial.childNames none)
          (World.initial.objectGenNameIn none agObjectClass objectNameMax) ↔
        SomeFree (World.initial.childNames none)
          (agObjectClass.name.bytes ++ ascii " #") objectNameMax) ∧
      (EndsFresh (World.initial.childNames none)
          (World.initial.objectGenNamePfx none (ascii "x") objectNameMax) ↔
        SomeFree (World.initial.childNames none) (ascii "x") objectNameMax) :=
  generated_names_fresh_iff World.initial none agObjectClass (ascii "x") (Nat.le_refl objectNameMax)

/-! ## Naming on attachment -/

def plainObject (name : CString objectNameMax) (root : ObjRef) (parent : Option ObjRef)
    (children : List ObjRef) : Object where
  name := name
  cls := agObjectClass
  flags := 0
  events := []
  vars := []
  deps := []
  parent := parent
  root := root
  children := children
  attachFn := none
  detachFn := none

theorem full_name_not_fresh : let pfx := List.replicate 127 97
    let w :=
      (World.initial.setObject 0 (plainObject (.strlcpy []) 0 none [1])).setObject 1
        (plainObject (.strlcpy pfx) 0 (some 0) [])
    w.childNames (some 0) = [pfx] ∧ ¬ EndsFresh (w.childNames (some 0))
        (w.objectGenNamePfx (some 0) pfx objectNameMax) := by
  intro pfx w
  have only : w.childNames (some 0) = [pfx] := by decide +kernel
  refine ⟨only, fun ends => ?_⟩
  obtain ⟨i, _, free⟩ := (endsFresh_iff (strlcatUint_strlcpyTo (by decide) pfx) 1).mp ends
  have length : pfx.length = objectNameMax - 1 := List.length_replicate
  rw [numberedName_of_full (Nat.le_of_eq length.symm), only,
    List.take_of_length_le (Nat.le_of_eq length)] at free
  exact free (List.mem_singleton.mpr rfl)

end Agar.Core
