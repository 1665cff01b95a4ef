import Agar.Gui.TableMemory
import Agar.Lib.Runs

namespace Agar.Gui

open Agar.Lib
open Agar.Core

/-!
# Insertions into tables

Whatever the allocator does with their requests, the rows and columns that are
inserted into a table in memory are those of a table without pointers, as long
as no insertion gives up the array of rows.
-/

variable {D : Type}

/-- The requests of an insertion into a table of some rows are granted. -/
def TableInsertion.Granted (rows : Nat) : TableInsertion D → Prop
  | .addRow _ requests _ _ => requests.cells.Granted ∧ requests.row.Granted
  | .addCol requests _ _ _ => requests.cols.Granted ∧ ∀ m < rows, (requests.rows m).Granted

/--
What an insertion should return and do: what it does in a table without pointers
where its requests are granted, and nothing where one is not
-/
inductive Table.Inserts (v : Table D) : TableInsertion D → Option Nat → Table D → Prop where
  | addRow {memory : CellMemory D} {requests : RowRequests} {fmtp : List UInt8}
      {ap left : List (VaArg D)} {row : Nat} {outcome : Option Nat} {next : Table D}
      (granted : (TableInsertion.addRow memory requests fmtp ap).Granted v.cells.length)
      (added : v.addRow memory row fmtp ap = .ok (outcome, next, left)) :
      v.Inserts (.addRow memory requests fmtp ap) outcome next
  | addCol {requests : ColRequests} {name : Option (List UInt8)} {sizeSpec : Option SizeSpec}
      {sortFn : Option (TableCell D → TableCell D → Int)}
      (granted : (TableInsertion.addCol requests name sizeSpec sortFn).Granted v.cells.length) :
      v.Inserts (.addCol requests name sizeSpec sortFn)
        (some v.cols.length) (v.addCol name sizeSpec sortFn)
  | refused {insertion : TableInsertion D} (refused : ¬ insertion.Granted v.cells.length) :
      v.Inserts insertion none v

/-- A table in memory, and the insertions into it with what they returned, the last one first -/
structure TableSession (D : Type) where
  table : StoredTable D
  log : List (TableInsertion D × Option Nat)

namespace TableSession

def initial : TableSession D where
  table := .init
  log := []

/-- Take one insertion, where it is defined. -/
def insert (session : TableSession D) (insertion : TableInsertion D) : Option (TableSession D) :=
  (session.table.insert insertion).toOption.map fun result =>
    ⟨result.2, (insertion, result.1) :: session.log⟩

end TableSession

/-- A log of insertions leads to a table. -/
inductive Explains : List (TableInsertion D × Option Nat) → Table D → Prop where
  | nil : Explains [] .init
  | cons {log : List (TableInsertion D × Option Nat)} {insertion : TableInsertion D}
      {outcome : Option Nat} {v next : Table D} (before : Explains log v)
      (inserts : v.Inserts insertion outcome next) : Explains ((insertion, outcome) :: log) next

/-- The table in memory is one that the insertions lead to. -/
def TableSession.Refines (session : TableSession D) : Prop :=
  ∃ v, Explains session.log v ∧ session.table.Represents v

namespace StoredTable

variable {t next : StoredTable D} {v : Table D} {insertion : TableInsertion D}
  {outcome : Option Nat}

/-- An insertion that keeps the array of rows does what one without pointers does. -/
theorem insert_refines (represents : t.Represents v) (keeps : ¬ t.LosesRows insertion)
    (inserted : t.insert insertion = .ok (outcome, next)) :
    ∃ result, v.Inserts insertion outcome result ∧ next.Represents result := by
  cases insertion with
  | addCol requests name sizeSpec sortFn =>
    rcases addCol_spec represents inserted with ⟨granted, rfl, added⟩ | ⟨refused, rfl, kept⟩
    · exact ⟨_, .addCol granted, added⟩
    · exact ⟨v, .refused refused, kept⟩
  | addRow memory requests fmtp ap =>
    have holds := represents.holds
    change t.addRow memory requests fmtp ap = _ at inserted
    by_cases granted : requests.cells.Granted
    · by_cases grantedRow : requests.row.Granted
      · obtain ⟨row, result, left, added, nextRepresents⟩ :=
          addRow_represents represents granted grantedRow inserted
        exact ⟨result, .addRow ⟨granted, grantedRow⟩ added, nextRepresents⟩
      · obtain ⟨rowArrays, gaveUp, _⟩ := addRow_givenUp holds granted grantedRow
        rw [gaveUp] at inserted
        cases inserted
        have null : t.cells = 0 := not_not.mp fun notNull => keeps ⟨notNull, granted, grantedRow⟩
        refine ⟨v, .refused fun all => grantedRow all.2, represents.flags, represents.sep,
          represents.attached, holds.columnCount, holds.lineCount, holds.width,
          holds.columnArray, ?_⟩
        obtain ⟨rows, empty | ⟨block, live, _⟩, once, hold⟩ := holds.lineArrays
        · exact ⟨rows, .inl empty, once, hold⟩
        · exact absurd null (Heap.ne_null live)
    · rw [addRow_refused holds granted] at inserted
      cases inserted
      exact ⟨v, .refused fun all => granted all.1, represents⟩

/-- An insertion that gives up the array of rows leaves a pointer to none. -/
theorem insert_loses (represents : t.Represents v) (loses : t.LosesRows insertion)
    (inserted : t.insert insertion = .ok (outcome, next)) (w : Table D) : ¬ next.Represents w := by
  cases insertion with
  | addCol => cases loses
  | addRow memory requests fmtp ap =>
    obtain ⟨notNull, granted, refused⟩ := loses
    obtain ⟨rowArrays, gaveUp, freed⟩ := addRow_givenUp represents.holds granted refused
    cases gaveUp.symm.trans inserted
    intro nextRepresents
    obtain ⟨rows, rowsHold, _⟩ := nextRepresents.holds.lineArrays
    obtain ⟨block, live⟩ := rowsHold.pointer.resolve_left notNull
    rw [freed notNull] at live
    cases live

end StoredTable

theorem represents_init : (StoredTable.init : StoredTable D).Represents .init :=
  ⟨rfl, rfl, rfl, rfl, rfl, List.forall_mem_nil _, .inl ⟨rfl, rfl⟩, [], .inl ⟨rfl, rfl⟩,
    List.nodup_nil, .nil⟩

/--
In every state of a session of insertions, the table in memory is one that they
lead to without pointers, each with its requests granted or else refused, exactly
if no insertion gives up the array of rows.
-/
theorem insertions_refine_iff {insertions : List (TableInsertion D)} {final : TableSession D}
    (completes : run TableSession.insert .initial insertions = some final) :
    AlwaysAlong TableSession.insert TableSession.Refines .initial insertions ↔
      EachStep TableSession.insert (fun session insertion => ¬ session.table.LosesRows insertion)
        .initial insertions := by
  refine alwaysAlong_iff_eachStep (fun _ => True) (fun _ _ _ _ _ _ => trivial) ?_ trivial
    ⟨.init, .nil, represents_init⟩ (eachStep_true _ insertions) completes
  rintro session insertion next _ ⟨v, explains, represents⟩ _ taken
  obtain ⟨⟨outcome, table⟩, inserted, rfl⟩ := Option.map_eq_some_iff.mp taken
  have done := toOption_eq_some.mp inserted
  constructor
  · rintro ⟨w, _, representsNext⟩ loses
    exact StoredTable.insert_loses represents loses done w representsNext
  · intro keeps
    obtain ⟨result, inserts, representsNext⟩ := StoredTable.insert_refines represents keeps done
    exact ⟨result, .cons explains inserts, representsNext⟩

def firstRow : List (TableInsertion Int) :=
  [.addCol ⟨.moved, fun _ => .moved⟩ none none none,
    .addRow plainMemory ⟨.moved, .moved⟩ (ascii "%d") [.int 2]]

theorem insertions_refine_first :
    AlwaysAlong TableSession.insert TableSession.Refines .initial firstRow := by
  have completes : (run TableSession.insert .initial firstRow).isSome := rfl
  obtain ⟨final, reached⟩ := Option.isSome_iff_exists.mp completes
  exact (insertions_refine_iff reached).mpr
    ⟨id, fun _ _ => ⟨fun loses => loses.2.2 (.inr rfl), fun _ _ => trivial⟩⟩

end Agar.Gui
