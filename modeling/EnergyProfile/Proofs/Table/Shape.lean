import EnergyProfile.Batch
import EnergyProfile.Proofs.Access
import EnergyProfile.Proofs.Csv.Writing

/-!
# The shape of tables

Rows are added with as many cells as come to hand and masked afterwards. Neither leaves a row with more
or fewer cells than there are columns, so what looks cells up by the position of a column, lays them out,
or writes them as records of one length always finds them. The reports are tables that come about in
this way and no other.
-/

namespace EnergyProfile

set_option autoImplicit false

/-- What masking leaves of a row. -/
def Row.shape (row : Row) : String × Nat := (row.label, row.cells.length)

theorem Row.shape_mask (row : Row) (keep : List Bool) (marker : String) :
    (row.mask keep marker).shape = row.shape := by
  simp [shape, mask]

namespace Table

/-- The tables that come about by adding rows and masking. -/
inductive Built : Table → Prop where
  | empty (indexName : String) (columns : List String) : Built (empty indexName columns)
  | addRow {t : Table} (h : Built t) (label : String) (cells : List String) :
      Built (t.addRow label cells)
  | maskRows {t : Table} (h : Built t) (scenarios : List Nat) (excluded : List String)
      (marker : String) : Built (t.maskRows scenarios excluded marker)

/-- Equal names of rows and columns, and as many cells in each row. -/
structure SameShape (t t' : Table) : Prop where
  indexName : t'.indexName = t.indexName
  columns : t'.columns = t.columns
  rows : t'.rows.map Row.shape = t.rows.map Row.shape

theorem length_cells_of_shapes {rows rows' : List Row} {width : Nat}
    (hshapes : rows'.map Row.shape = rows.map Row.shape)
    (h : ∀ row ∈ rows, row.cells.length = width) : ∀ row ∈ rows', row.cells.length = width := by
  intro row hrow
  have hshape : row.shape ∈ rows.map Row.shape := hshapes ▸ List.mem_map_of_mem hrow
  obtain ⟨other, hother, heq⟩ := List.mem_map.mp hshape
  rw [← h other hother]
  exact congrArg Prod.snd heq.symm

theorem SameShape.rectangular {t t' : Table} (h : SameShape t t') (ht : t.Rectangular) :
    t'.Rectangular := by
  unfold Rectangular
  rw [h.columns]
  exact length_cells_of_shapes h.rows ht

theorem shapes_maskRow (rows : List Row) (keep : List Bool) (marker label : String) :
    (maskRow keep marker label rows).map Row.shape = rows.map Row.shape := by
  induction rows with
  | nil => rfl
  | cons row rest ih =>
    unfold maskRow
    split
    · rw [List.map_cons, List.map_cons, Row.shape_mask]
    · rw [List.map_cons, List.map_cons, ih]

theorem shapes_foldl_maskRow (rows : List Row) (keep : List Bool) (marker : String)
    (scenarios : List Nat) :
    (scenarios.foldl (fun rows k => maskRow keep marker (scenarioLabel k) rows) rows).map
      Row.shape = rows.map Row.shape := by
  induction scenarios generalizing rows with
  | nil => rfl
  | cons k rest ih => rw [List.foldl_cons, ih, shapes_maskRow]

theorem sameShape_maskRows (t : Table) (scenarios : List Nat) (excluded : List String)
    (marker : String) : SameShape t (t.maskRows scenarios excluded marker) where
  indexName := rfl
  columns := rfl
  rows := shapes_foldl_maskRow t.rows _ marker scenarios

theorem Built.rectangular {t : Table} (h : Built t) : t.Rectangular := by
  induction h with
  | empty indexName columns => exact rectangular_empty indexName columns
  | addRow _ label cells ih => exact ih.addRow label cells
  | maskRows _ scenarios excluded marker ih =>
    exact (sameShape_maskRows _ scenarios excluded marker).rectangular ih

/-- A cell looked up in a row that has to reach as far as its column: no result where it does not. -/
def readCell? (t : Table) (label column : String) : Option (Option String) :=
  match t.columnIndex? column with
  | none => some none
  | some index =>
    match t.rows.find? (·.label = label) with
    | none => some none
    | some row => (row.cells[index]?).map some

def columnWidths? (t : Table) : Option (List Nat) :=
  t.columns.zipIdx.mapM fun (name, i) => do
    let cells ← t.rows.mapM fun row => row.cells[i]?
    return widest (name :: cells)

def toText? (t : Table) : Option String := do
  let widths ← t.columnWidths?
  return String.intercalate "\n" (t.records.map (textLine t.labelWidth widths))

/-- The table written by a writer that refuses a record of another length than the first. -/
def toCsvEqual (t : Table) : Except Csv.UnequalLengths String :=
  (Csv.writeEqual (t.records.map fun record => record.map String.toList)).map String.ofList

theorem Rectangular.readCell?_eq {t : Table} (h : t.Rectangular) (label column : String) :
    t.readCell? label column = some (t.cell? label column) := by
  unfold readCell?
  cases hindex : t.columnIndex? column with
  | none => simp [cell?, hindex]
  | some index =>
    cases hrow : t.rows.find? (·.label = label) with
    | none => simp [cell?, hindex, hrow]
    | some row =>
      obtain ⟨hlt, _⟩ := List.findIdx?_eq_some_iff_getElem.mp hindex
      rw [← h row (List.mem_of_find?_eq_some hrow)] at hlt
      simp [cell?, hindex, hrow, hlt]

theorem Rectangular.columnWidths?_eq {t : Table} (h : t.Rectangular) :
    t.columnWidths? = some t.columnWidths := by
  apply mapM_eq_some
  intro (name, i) hentry
  have hi : i < t.columns.length := by
    simpa using (List.mem_zipIdx hentry).2.1
  have hcells : t.rows.mapM (fun row => row.cells[i]?) =
      some (t.rows.map fun row => row.cells.getD i "") := by
    apply mapM_eq_some
    intro row hrow
    have hrange : i < row.cells.length := (h row hrow).symm ▸ hi
    rw [List.getD_eq_getElem?_getD, List.getElem?_eq_getElem hrange]
    rfl
  simp only [hcells]
  rfl

theorem Rectangular.toText?_eq {t : Table} (h : t.Rectangular) : t.toText? = some t.toText := by
  rw [toText?, h.columnWidths?_eq]
  rfl

theorem Rectangular.length_record {t : Table} (h : t.Rectangular) :
    ∀ record ∈ t.records, record.length = t.columns.length + 1 := by
  intro record hrecord
  cases hrecord with
  | head => rfl
  | tail _ hrest =>
    obtain ⟨row, hrow, rfl⟩ := List.mem_map.mp hrest
    rw [List.length_cons, h row hrow]

theorem Rectangular.toCsvEqual_eq {t : Table} (h : t.Rectangular) :
    t.toCsvEqual = .ok t.toCsv := by
  have hwidth : ∀ fields ∈ t.records.map fun record => record.map String.toList,
      fields.length = t.columns.length + 1 := by
    intro fields hfields
    obtain ⟨record, hrecord, rfl⟩ := List.mem_map.mp hfields
    rw [List.length_map]
    exact h.length_record record hrecord
  rw [toCsvEqual, Csv.writeEqual_eq_ok hwidth]
  rfl

/-- A rectangular table in which every position that is asked for is there, and that stays so when
it is masked. -/
structure WellFormed (t : Table) : Prop where
  rectangular : t.Rectangular
  cell : ∀ label column, t.readCell? label column = some (t.cell? label column)
  text : t.toText? = some t.toText
  csv : t.toCsvEqual = .ok t.toCsv
  mask : ∀ scenarios excluded marker, SameShape t (t.maskRows scenarios excluded marker)

theorem Rectangular.wellFormed {t : Table} (h : t.Rectangular) : t.WellFormed where
  rectangular := h
  cell := h.readCell?_eq
  text := h.toText?_eq
  csv := h.toCsvEqual_eq
  mask := t.sameShape_maskRows

theorem Built.foldl {β : Type} {t : Table} (h : Built t) (xs : List β) (label : β → String)
    (cells : β → List String) :
    Built (xs.foldl (fun t x => t.addRow (label x) (cells x)) t) := by
  induction xs generalizing t with
  | nil => exact h
  | cons x rest ih => exact ih (h.addRow (label x) (cells x))

end Table

open Table

theorem built_buildTable (records : CellRecords) (methods : List String) (scenarios : Nat)
    (format : CellFormat) : (buildTable records methods scenarios format).Built := by
  apply Built.foldl
  exact .empty scenarioIndex methods

theorem built_powerReport (analyses : ScenarioAnalyses) (earlyWindow : Float) :
    (powerReport analyses earlyWindow).Built := by
  apply Built.foldl _ analyses.zipIdx (fun entry => scenarioLabel (entry.2 + 1))
    fun entry => reportCells entry.1
  exact .empty scenarioIndex _

theorem built_table (r : MethodReport) (style : ReportStyle) (earlyWindow : Float) :
    (r.table style earlyWindow).Built := by
  apply Built.maskRows
  exact built_powerReport r.analyses earlyWindow

theorem built_comparisonTable (reports : List MethodReport) (style : ReportStyle)
    (earlyWindow : Float) (metric : Metric) :
    (Batch.comparisonTable reports style earlyWindow metric).Built := by
  unfold Batch.comparisonTable
  split
  · exact built_buildTable _ _ _ _
  · exact (built_buildTable _ _ _ _).maskRows _ _ _

theorem built_comparisonTables {reports : List MethodReport} {style : ReportStyle}
    {earlyWindow : Float} {entry : Metric × Table}
    (h : entry ∈ Batch.comparisonTables reports style earlyWindow) : entry.2.Built := by
  obtain ⟨metric, _, rfl⟩ := List.mem_map.mp h
  exact built_comparisonTable reports style earlyWindow metric

/-- Whatever rows are added and masked, and whatever the reports are made of, no table loses its
shape. -/
theorem tables_wellFormed :
    (∀ t : Table, t.Built → t.WellFormed) ∧
    (∀ (records : CellRecords) (methods : List String) (scenarios : Nat) (format : CellFormat),
      (buildTable records methods scenarios format).WellFormed) ∧
    (∀ (analyses : ScenarioAnalyses) (earlyWindow : Float),
      (powerReport analyses earlyWindow).WellFormed) ∧
    (∀ (r : MethodReport) (style : ReportStyle) (earlyWindow : Float),
      (r.table style earlyWindow).WellFormed) ∧
    ∀ (reports : List MethodReport) (style : ReportStyle) (earlyWindow : Float),
      ∀ entry ∈ Batch.comparisonTables reports style earlyWindow, entry.2.WellFormed := by
  have hbuilt (t : Table) (h : t.Built) : t.WellFormed := h.rectangular.wellFormed
  refine ⟨hbuilt, ?_, ?_, ?_, ?_⟩
  · intro records methods scenarios format
    exact hbuilt _ (built_buildTable records methods scenarios format)
  · intro analyses earlyWindow
    exact hbuilt _ (built_powerReport analyses earlyWindow)
  · intro r style earlyWindow
    exact hbuilt _ (built_table r style earlyWindow)
  · intro reports style earlyWindow entry hentry
    exact hbuilt _ (built_comparisonTables hentry)

/-- One row is given too few cells and one too many, both have one label, and a scenario is masked that
has no row; of two methods the scenario of one failed and the other has none. -/
theorem tables_wellFormed_of_uneven_rows :
    let t := (((Table.empty "Scenario" ["a", "b"]).addRow "scen_1" ["x"]).addRow "scen_1"
      ["x", "y", "z"]).maskRows [1, 7] ["b"] "-"
    let reports : List MethodReport :=
      [⟨"aes", [⟨1, .error (.data (.malformed .noSamples))⟩]⟩, ⟨"des", []⟩]
    let style : ReportStyle := ⟨1, [], "-", ⟨"out"⟩⟩
    let entry := (Metric.runEnergy, Batch.comparisonTable reports style 50 .runEnergy)
    t.Built ∧ t.rows = [⟨"scen_1", ["-", ""]⟩, ⟨"scen_1", ["x", "y"]⟩] ∧ t.WellFormed ∧
      entry ∈ Batch.comparisonTables reports style 50 ∧ entry.2.WellFormed := by
  intro t reports style entry
  have ht : t.Built := (((Built.empty "Scenario" ["a", "b"]).addRow "scen_1" ["x"]).addRow "scen_1"
    ["x", "y", "z"]).maskRows [1, 7] ["b"] "-"
  have hentry : entry ∈ Batch.comparisonTables reports style 50 := by
    apply List.mem_map_of_mem
    decide
  refine ⟨ht, by decide, tables_wellFormed.1 t ht, hentry, ?_⟩
  exact tables_wellFormed.2.2.2.2 reports style 50 entry hentry

end EnergyProfile
