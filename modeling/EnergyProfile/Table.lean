import EnergyProfile.Csv.Writing
import EnergyProfile.Text.Padding

/-!
# Tables

A table has a name for its row labels, columns, and rows of text cells. Every row that is added
gets exactly one cell for each column. A table can be masked row by row, written as comma
separated records, and laid out as aligned text.
-/

namespace EnergyProfile

set_option autoImplicit false

structure Row where
  label : String
  cells : List String
  deriving DecidableEq

/-- A row whose cells are replaced except where the column is kept. Cells behind the last column
stay. -/
def Row.mask (row : Row) (keep : List Bool) (marker : String) : Row :=
  { row with
    cells := row.cells.mapIdx fun i cell => if keep[i]? = some false then marker else cell }

structure Table where
  indexName : String
  columns : List String
  rows : List Row
  deriving DecidableEq

/-- The label of a scenario, counted from one. -/
def scenarioLabel (scenario : Nat) : String :=
  s!"scen_{scenario}"

namespace Table

def empty (indexName : String) (columns : List String) : Table :=
  ⟨indexName, columns, []⟩

/-- Cells for so many columns: missing ones are empty, further ones are left out. -/
def fitCells (width : Nat) (cells : List String) : List String :=
  cells.take width ++ List.replicate (width - cells.length) ""

def addRow (t : Table) (label : String) (cells : List String) : Table :=
  { t with rows := t.rows ++ [⟨label, fitCells t.columns.length cells⟩] }

def columnIndex? (t : Table) (column : String) : Option Nat :=
  t.columns.findIdx? (· = column)

/-- The cell of the first row of a label, in the first column of a name. -/
def cell? (t : Table) (label column : String) : Option String := do
  let index ← t.columnIndex? column
  let row ← t.rows.find? (·.label = label)
  row.cells[index]?

/-- Masks the first row of a label, if there is one. -/
def maskRow (keep : List Bool) (marker label : String) : List Row → List Row
  | [] => []
  | row :: rest =>
    if row.label = label then row.mask keep marker :: rest
    else row :: maskRow keep marker label rest

/-- Replaces the cells of scenario rows by a marker, except in the excluded columns. Scenarios and
columns that the table does not have are passed over. -/
def maskRows (t : Table) (scenarios : List Nat) (excluded : List String) (marker : String) :
    Table :=
  let keep := t.columns.map fun c => excluded.contains c
  { t with
    rows := scenarios.foldl (fun rows k => maskRow keep marker (scenarioLabel k) rows) t.rows }

def records (t : Table) : List (List String) :=
  (t.indexName :: t.columns) :: t.rows.map fun row => row.label :: row.cells

def toCsv (t : Table) : String :=
  String.ofList (Csv.write (t.records.map fun record => record.map String.toList))

def widest (texts : List String) : Nat :=
  (texts.map String.length).foldl max 0

def labelWidth (t : Table) : Nat :=
  widest (t.indexName :: t.rows.map Row.label)

def columnWidths (t : Table) : List Nat :=
  t.columns.zipIdx.map fun (name, i) => widest (name :: t.rows.map fun row => row.cells.getD i "")

/-- Labels stand at the left of their column, cells at the right of theirs, two spaces apart. -/
def textLine (labelWidth : Nat) (widths : List Nat) (record : List String) : String :=
  match record with
  | [] => ""
  | label :: cells =>
    Text.padRight labelWidth label ++
      String.join (List.zipWith (fun width cell => "  " ++ Text.padLeft width cell) widths cells)

/-- The table as aligned lines, without a line break at the end. -/
def toText (t : Table) : String :=
  String.intercalate "\n" (t.records.map (textLine t.labelWidth t.columnWidths))

/-- Every row has one cell for each column. -/
def Rectangular (t : Table) : Prop :=
  ∀ row ∈ t.rows, row.cells.length = t.columns.length

@[simp] theorem length_fitCells (width : Nat) (cells : List String) :
    (fitCells width cells).length = width := by
  simp only [fitCells, List.length_append, List.length_take, List.length_replicate]
  omega

theorem rectangular_empty (indexName : String) (columns : List String) :
    (empty indexName columns).Rectangular := by
  simp [Rectangular, empty]

theorem Rectangular.addRow {t : Table} (h : t.Rectangular) (label : String)
    (cells : List String) : (t.addRow label cells).Rectangular := by
  intro row hrow
  rcases List.mem_append.mp hrow with hold | hnew
  · exact h row hold
  · rw [List.mem_singleton.mp hnew]
    simp [Table.addRow]

end Table

end EnergyProfile
