import FilterQuery.Input
import FilterQuery.Table.Cells
import FilterQuery.Table.Header
import FilterQuery.Table.Records

/-!
# Tables as comma-separated text

The first record of a text names its columns, and every other record is a row.  A row may be short
of cells, which are empty then.  The first row may also have more cells than there are columns:
the cells in front that are too many are labels, in all rows, and do not count.  After it no row
may be longer.

Rows of a filter keep their cells as text, and the columns of a sample are given kinds.

Main results:

- `length_of_sheet`: under a header, every row has a cell for every column.
- `length_of_sample`: a sample has the columns that are named, and all are of the same length.
-/

namespace FilterQuery.Csv

/-- Why a text is not read as a table. -/
inductive TableFault where
  /-- There is not even a header. -/
  | empty
  /-- Quotes are not closed, or a row is too long. -/
  | malformed
deriving DecidableEq, Repr

/-- A header and the rows under it, with a cell for every column. -/
structure Sheet where
  names : List String
  rows : List (List String)

/-- The first cells of a row, as many as asked for, filled up with empty ones. -/
def fitted (count : Nat) (cells : List String) : List String :=
  (cells ++ List.replicate count "").take count

/-- A row has as many cells as there are columns. -/
@[simp]
theorem length_fitted (count : Nat) (cells : List String) :
    (fitted count cells).length = count := by
  simp [fitted]

/-- The header and the rows of a text. -/
def sheet (s : String) : Except TableFault Sheet :=
  match records? s with
  | none => .error .malformed
  | some [] => .error .empty
  | some (header :: body) =>
      let count := header.length
      let width := max count ((body.head?.map List.length).getD 0)
      if body.any fun record => width < record.length then .error .malformed
      else
        let rows := body.map fun record => fitted count (record.drop (width - count))
        .ok ⟨columnNames header, rows⟩

/-- Under a header, every row has a cell for every column. -/
theorem length_of_sheet {s : String} {found : Sheet} (h : sheet s = .ok found) :
    ∀ row ∈ found.rows, row.length = found.names.length := by
  unfold sheet at h
  cases hrecords : records? s with
  | none => simp [hrecords] at h
  | some records =>
      cases records with
      | nil => simp [hrecords] at h
      | cons header body =>
          simp only [hrecords] at h
          split at h
          · contradiction
          · cases h
            intro row hrow
            rcases List.mem_map.mp hrow with ⟨record, _, rfl⟩
            rw [length_fitted, length_columnNames]

/-! ## Rows of a filter -/

/-- The columns that rows of a filter have. -/
def rowColumns : List String :=
  ["field", "operator", "value", "relation", "minOperator", "minValue", "maxOperator", "maxValue"]

/-- The rows of a filter in a text; other columns do not count. -/
def rows (s : String) : Except TableFault (List Input) :=
  (sheet s).map fun sheet => sheet.rows.map fun row =>
    .object (rowColumns.filterMap fun name =>
      ((sheet.names.zip row).lookup name).map fun cell => (name, .text cell))

/-! ## Samples -/

/-- The sample in a text. -/
def sample (s : String) : Except TableFault Table :=
  (sheet s).map fun sheet => sheet.names.zipIdx.map fun (name, place) =>
    let typed := Typed.ofTexts (sheet.rows.map fun row => row.getD place "")
    ⟨name, typed.kind, typed.values⟩

/-- A sample has the columns that the header names, with a cell for every row. -/
theorem length_of_sample {s : String} {table : Table} (h : sample s = .ok table) :
    ∃ found, sheet s = .ok found ∧ table.map (·.name) = found.names ∧
      ∀ column ∈ table, column.cells.length = found.rows.length := by
  unfold sample at h
  cases hsheet : sheet s with
  | error fault => simp [hsheet, Except.map] at h
  | ok found =>
      rw [hsheet] at h
      cases h
      refine ⟨found, rfl, ?_, ?_⟩
      · rw [List.map_map]
        exact List.zipIdx_map_fst 0 found.names
      · intro column hcolumn
        rcases List.mem_map.mp hcolumn with ⟨⟨name, place⟩, _, rfl⟩
        rw [Typed.length_values_ofTexts, List.length_map]

end FilterQuery.Csv
