import Mathlib

namespace Agar.Lib

/-!
# Searching in lists

`splitAtInfix` finds the first place where one list occurs in another, as
`memmem` and `strstr` do, and `splitAtByte` the first place of a byte in a
string, as `strchr` does.
-/

section Infix

variable {α : Type} {needle text front back : List α}

theorem prefix_of_prefix_append_cons {separator : α} {rest : List α} (absent : separator ∉ needle)
    (occurs : needle <+: front ++ separator :: rest) : needle <+: front := by
  rcases List.prefix_or_prefix_of_prefix occurs (List.prefix_append front _)
    with inside | ⟨more, rfl⟩
  · exact inside
  · rw [List.prefix_append_right_inj] at occurs
    cases more with
    | nil => rw [List.append_nil]
    | cons first more =>
      obtain ⟨rfl, _⟩ := List.cons_prefix_cons.mp occurs
      exact absurd (List.mem_append_right _ List.mem_cons_self) absent

variable [DecidableEq α]

/-- What is in front of the first occurrence of a list, and what begins there -/
def splitAtInfix (needle : List α) : List α → Option (List α × List α)
  | [] => if needle = [] then some ([], []) else none
  | first :: rest =>
    if needle.isPrefixOf (first :: rest) then some ([], first :: rest)
    else (splitAtInfix needle rest).map fun (front, back) => (first :: front, back)

theorem splitAtInfix_prefixOf (occurs : needle <+: text) :
    splitAtInfix needle text = some ([], text) := by
  cases text with
  | nil => rw [splitAtInfix, if_pos (List.prefix_nil.mp occurs)]
  | cons first rest => rw [splitAtInfix, if_pos (List.isPrefixOf_iff_prefix.mpr occurs)]

theorem splitAtInfix_cons {first : α} {rest : List α} (other : ¬ needle <+: first :: rest) :
    splitAtInfix needle (first :: rest) = (splitAtInfix needle rest).map fun (front, back) =>
        (first :: front, back) := by
  rw [splitAtInfix, if_neg fun occurs => other (List.isPrefixOf_iff_prefix.mp occurs)]

theorem splitAtInfix_eq_some (found : splitAtInfix needle text = some (front, back)) :
    text = front ++ back ∧ needle <+: back := by
  induction text generalizing front back with
  | nil =>
    rw [splitAtInfix] at found
    split at found
    case isTrue empty =>
      cases found
      exact ⟨rfl, empty ▸ List.nil_prefix⟩
    case isFalse => cases found
  | cons first rest ih =>
    by_cases occurs : needle <+: first :: rest
    · rw [splitAtInfix_prefixOf occurs] at found
      cases found
      exact ⟨rfl, occurs⟩
    · rw [splitAtInfix_cons occurs] at found
      obtain ⟨⟨before, behind⟩, later, same⟩ := Option.map_eq_some_iff.mp found
      cases same
      obtain ⟨rfl, starts⟩ := ih later
      exact ⟨rfl, starts⟩

theorem splitAtInfix_append (before : List α) (occurs : needle <+: text) : ∃ front back,
      splitAtInfix needle (before ++ text) = some (front, back) ∧ front.length ≤ before.length := by
  induction before with
  | nil => exact ⟨[], text, splitAtInfix_prefixOf occurs, Nat.le_refl _⟩
  | cons first rest ih =>
    by_cases here : needle <+: first :: (rest ++ text)
    · exact ⟨[], _, splitAtInfix_prefixOf here, Nat.zero_le _⟩
    · obtain ⟨front, back, found, early⟩ := ih
      refine ⟨first :: front, back, ?_, Nat.succ_le_succ early⟩
      rw [List.cons_append, splitAtInfix_cons here, found]
      rfl

theorem splitAtInfix_separators {separators : List α}
    (absent : ∀ separator ∈ separators, separator ∉ needle) (nonempty : needle ≠ [])
    (occurs : needle <+: text) :
    splitAtInfix needle (separators ++ text) = some (separators, text) := by
  induction separators with
  | nil => exact splitAtInfix_prefixOf occurs
  | cons separator separators ih =>
    have apart := absent separator List.mem_cons_self
    have notHere : ¬ needle <+: separator :: (separators ++ text) := fun here =>
      nonempty (List.prefix_nil.mp (@prefix_of_prefix_append_cons _ needle [] _ _ apart here))
    have later := ih fun other member => absent other (List.mem_cons_of_mem _ member)
    rw [List.cons_append, splitAtInfix_cons notHere, later]
    rfl

theorem splitAtInfix_separated {separator : α} {separators : List α}
    (absent : ∀ other ∈ separator :: separators, other ∉ needle) (nonempty : needle ≠ [])
    (notBefore : ¬ needle <:+: front) (occurs : needle <+: text) :
    splitAtInfix needle (front ++ (separator :: separators ++ text)) =
      some (front ++ separator :: separators, text) := by
  induction front with
  | nil => exact splitAtInfix_separators absent nonempty occurs
  | cons first rest ih =>
    have notHere : ¬ needle <+: first :: (rest ++ (separator :: separators ++ text)) :=
      fun here =>
        notBefore (@prefix_of_prefix_append_cons _ needle (first :: rest)
          separator _ (absent _ List.mem_cons_self) here).isInfix
    have later := ih fun inside => notBefore (List.infix_cons inside)
    rw [List.cons_append, splitAtInfix_cons notHere, later]
    rfl

end Infix

theorem notMem_splitOnP {α : Type} {separates : α → Bool} {text token : List α}
    (member : token ∈ text.splitOnP separates) : ∀ element ∈ token, separates element = false := by
  induction text generalizing token with
  | nil =>
    rw [List.splitOnP_nil, List.mem_singleton] at member
    rw [member]
    exact fun _ absent => absurd absent List.not_mem_nil
  | cons first rest ih =>
    rw [List.splitOnP_cons_eq_if_modifyHead] at member
    split at member
    · rcases List.mem_cons.mp member with rfl | later
      · exact fun _ absent => absurd absent List.not_mem_nil
      · exact ih later
    case isFalse other =>
      cases tokens : rest.splitOnP separates with
      | nil => exact absurd tokens (List.splitOnP_ne_nil _ _)
      | cons head tail =>
        rw [tokens, List.modifyHead_cons] at member
        rcases List.mem_cons.mp member with rfl | later
        · rw [List.forall_mem_cons]
          exact ⟨by simpa using other, ih (tokens ▸ List.mem_cons_self)⟩
        · exact ih (tokens ▸ List.mem_cons_of_mem _ later)

/-! ## Bytes in strings -/

/-- What is in front of the first such byte of a string, and what is behind it -/
def splitAtByte (byte : UInt8) : List UInt8 → Option (List UInt8 × List UInt8)
  | [] => none
  | first :: rest =>
    if first = byte then some ([], rest)
    else if first = 0 then none
    else (splitAtByte byte rest).map fun (front, back) => (first :: front, back)

section Byte

variable {byte : UInt8} {text front back : List UInt8}

theorem splitAtByte_append (absent : byte ∉ front) (noNul : 0 ∉ front) (back : List UInt8) :
    splitAtByte byte (front ++ byte :: back) = some (front, back) := by
  induction front with
  | nil => exact if_pos rfl
  | cons first rest ih =>
    rw [List.mem_cons, not_or] at absent noNul
    rw [List.cons_append, splitAtByte, if_neg (Ne.symm absent.1),
      if_neg (Ne.symm noNul.1), ih absent.2 noNul.2]
    rfl

theorem splitAtByte_eq_some (found : splitAtByte byte text = some (front, back)) :
    text = front ++ byte :: back ∧ byte ∉ front := by
  induction text generalizing front back with
  | nil => cases found
  | cons first rest ih =>
    rw [splitAtByte] at found
    split at found
    case isTrue same =>
      cases found
      exact ⟨congrArg (· :: rest) same, List.not_mem_nil⟩
    case isFalse other =>
      split at found
      case isTrue => cases found
      case isFalse =>
        obtain ⟨⟨before, behind⟩, later, same⟩ := Option.map_eq_some_iff.mp found
        cases same
        obtain ⟨rfl, absent⟩ := ih later
        refine ⟨rfl, ?_⟩
        rw [List.mem_cons, not_or]
        exact ⟨Ne.symm other, absent⟩

end Byte

end Agar.Lib
