import Mathlib

namespace Agar.Lib

/-!
# Computations that may fail

How a computation in `Except` that succeeds was put together.
-/

variable {ε α β : Type}

theorem bind_eq_ok {first : Except ε α} {next : α → Except ε β} {result : β} :
    (first >>= next) = .ok result ↔ ∃ value, first = .ok value ∧ next value = .ok result := by
  cases first <;> simp [bind, Except.bind]

theorem ok_bind (value : α) (next : α → Except ε β) : (Except.ok value >>= next) = next value := rfl

variable {value : α}

theorem pure_eq_ok {result : α} : (pure value : Except ε α) = .ok result ↔ value = result := by
  simp [pure, Except.pure]

theorem toOption_eq_some {outcome : Except ε α} :
    outcome.toOption = some value ↔ outcome = .ok value := by
  cases outcome <;> simp [Except.toOption]

theorem eq_of_toOption {outcome : Except ε α} {result : α}
    (defined : outcome.toOption = some value) (succeeds : outcome = .ok result) : value = result :=
  Except.ok.inj ((toOption_eq_some.mp defined).symm.trans succeeds)

/-! ## Lists of computations -/

/-- Compute for every element of a list, and join the results. -/
def collect (f : α → Except ε (List β)) : List α → Except ε (List β)
  | [] => return []
  | first :: rest => do
      let found ← f first
      let later ← collect f rest
      return found ++ later

@[simp] theorem collect_nil (f : α → Except ε (List β)) : collect f [] = .ok [] := rfl

variable {f : α → Except ε (List β)}

theorem collect_cons_eq_ok {first : α} {rest : List α} {result : List β} :
    collect f (first :: rest) = .ok result ↔ ∃ found later, f first = .ok found ∧
        collect f rest = .ok later ∧ found ++ later = result := by
  simp only [collect, bind_eq_ok, pure_eq_ok]
  constructor
  · rintro ⟨found, fromFirst, later, fromRest, joined⟩
    exact ⟨found, later, fromFirst, fromRest, joined⟩
  · rintro ⟨found, later, fromFirst, fromRest, joined⟩
    exact ⟨found, fromFirst, later, fromRest, joined⟩

theorem collect_eq_flatMap {g : α → List β} {list : List α}
    (computed : ∀ element ∈ list, f element = .ok (g element)) :
    collect f list = .ok (list.flatMap g) := by
  induction list with
  | nil => rfl
  | cons first rest ih =>
    obtain ⟨fromFirst, fromRest⟩ := List.forall_mem_cons.mp computed
    exact collect_cons_eq_ok.mpr
      ⟨g first, rest.flatMap g, fromFirst, ih fromRest, List.flatMap_cons.symm⟩

theorem flatMap_range_getElem? (list : List α) :
    (List.range list.length).flatMap (fun i => list[i]?.toList) = list := by
  induction list with
  | nil => rfl
  | cons first rest ih =>
    rw [List.length_cons, List.range_succ_eq_map, List.flatMap_cons, List.flatMap_map]
    exact congrArg (first :: ·) ih

section Collected

variable {f : α → Except ε (List β)} {list : List α} {result : List β}

end Collected

end Agar.Lib
