import EnergyProfile.Proofs.Table.Masking
import EnergyProfile.Report

/-!
# The cells of reports

Both kinds of report have their rows in the order of the scenarios and one cell for each column in
each of them. A cell can therefore be named by its scenario and by its column alone, whatever stands
in the other ones.
-/

namespace EnergyProfile

set_option autoImplicit false

namespace Table

theorem foldl_addRow {β : Type} (t : Table) (xs : List β) (label : β → String)
    (cells : β → List String) :
    xs.foldl (fun t x => t.addRow (label x) (cells x)) t =
      { t with
        rows := t.rows ++ xs.map fun x => ⟨label x, fitCells t.columns.length (cells x)⟩ } := by
  induction xs generalizing t with
  | nil => simp
  | cons x rest ih =>
    rw [List.foldl_cons, ih]
    simp [addRow]

theorem fitCells_of_length_eq {width : Nat} {cells : List String} (h : cells.length = width) :
    fitCells width cells = cells := by
  simp [fitCells, ← h]

end Table

theorem buildTable_eq (records : CellRecords) (methods : List String) (scenarios : Nat)
    (format : CellFormat) : buildTable records methods scenarios format =
      ⟨scenarioIndex, methods, (List.range scenarios).map fun i =>
        ⟨scenarioLabel (i + 1), methods.map (records.cellText format (i + 1))⟩⟩ := by
  unfold buildTable
  rw [Table.foldl_addRow]
  simp [Table.empty, Table.fitCells_of_length_eq]

theorem numbered_buildTable (records : CellRecords) (methods : List String) (scenarios : Nat)
    (format : CellFormat) : (buildTable records methods scenarios format).Numbered := by
  intro i row hrow
  rw [buildTable_eq, List.getElem?_map] at hrow
  obtain ⟨j, hj, rfl⟩ := Option.map_eq_some_iff.mp hrow
  rw [List.getElem?_range (by simpa using (List.getElem?_eq_some_iff.mp hj).1)] at hj
  rw [Option.some.inj hj]

theorem cell?_buildTable (records : CellRecords) {methods : List String} {method : String}
    (hmethod : method ∈ methods) (scenarios : Nat) (format : CellFormat) (i : Nat) :
    (buildTable records methods scenarios format).cell? (scenarioLabel (i + 1)) method =
      if i < scenarios then some (records.cellText format (i + 1) method) else none := by
  have hcolumn : method ∈ (buildTable records methods scenarios format).columns := by
    rw [buildTable_eq]
    exact hmethod
  obtain ⟨k, hk⟩ := Table.exists_columnIndex? hcolumn
  have hname := Table.columnIndex?_eq_some hk
  rw [(numbered_buildTable records methods scenarios format).cell? hk i]
  rw [buildTable_eq] at hname ⊢
  by_cases hi : i < scenarios
  · rw [if_pos hi, List.getElem?_map, List.getElem?_range hi]
    simp only [Option.map_some, Option.bind_some, List.getElem?_map, hname]
  · rw [if_neg hi, List.getElem?_eq_none (by simpa using hi)]
    rfl

namespace Metric

theorem column_injective (earlyWindow : Float) : Function.Injective (column earlyWindow) := by
  have hinitial (metric : Metric) :
      (column earlyWindow metric).toList.head? = some 'F' ↔ metric = earlyEnergy := by
    cases metric <;> simp [column, toString]
  intro a b h
  by_cases ha : a = earlyEnergy
  · rw [ha]
    exact ((hinitial b).mp (h ▸ (hinitial a).mpr ha)).symm
  · have hb : b ≠ earlyEnergy := by
      intro hb
      exact ha ((hinitial a).mp (h ▸ (hinitial b).mpr hb))
    cases a <;> cases b <;> simp_all [column]

theorem mem_columnOrder (metric : Metric) : metric ∈ columnOrder := by
  cases metric <;> decide

/-- What the table of a method shows of a scenario: nothing if it failed. -/
def cellText (metric : Metric) : Option (Analysis Float) → String
  | none => ""
  | some a => (CellSource.stat (metric.stat a)).text metric.format

end Metric

theorem fitCells_reportCells (analysis : Option (Analysis Float)) :
    Table.fitCells Metric.columnOrder.length (reportCells analysis) =
      Metric.columnOrder.map fun metric => metric.cellText analysis := by
  cases analysis with
  | none => rfl
  | some a => exact Table.fitCells_of_length_eq (List.length_map _)

theorem powerReport_eq (analyses : ScenarioAnalyses) (earlyWindow : Float) :
    powerReport analyses earlyWindow =
      ⟨scenarioIndex, Metric.columnOrder.map (Metric.column earlyWindow),
        analyses.zipIdx.map fun (analysis, i) =>
          ⟨scenarioLabel (i + 1),
            Metric.columnOrder.map fun metric => metric.cellText analysis⟩⟩ := by
  unfold powerReport
  have hrows := Table.foldl_addRow
    (Table.empty scenarioIndex (Metric.columnOrder.map (Metric.column earlyWindow)))
    analyses.zipIdx (fun entry => scenarioLabel (entry.2 + 1)) (fun entry => reportCells entry.1)
  rw [hrows]
  simp only [Table.empty, List.length_map, fitCells_reportCells, List.nil_append]

theorem numbered_powerReport (analyses : ScenarioAnalyses) (earlyWindow : Float) :
    (powerReport analyses earlyWindow).Numbered := by
  intro i row hrow
  rw [powerReport_eq, List.getElem?_map] at hrow
  obtain ⟨entry, hentry, rfl⟩ := Option.map_eq_some_iff.mp hrow
  rw [List.getElem?_zipIdx] at hentry
  obtain ⟨analysis, _, rfl⟩ := Option.map_eq_some_iff.mp hentry
  rw [Nat.zero_add]

theorem cell?_powerReport (analyses : ScenarioAnalyses) (earlyWindow : Float) (metric : Metric)
    (i : Nat) :
    (powerReport analyses earlyWindow).cell? (scenarioLabel (i + 1))
      (metric.column earlyWindow) = analyses[i]?.map metric.cellText := by
  have hcolumn : metric.column earlyWindow ∈ (powerReport analyses earlyWindow).columns := by
    rw [powerReport_eq]
    exact List.mem_map_of_mem metric.mem_columnOrder
  obtain ⟨k, hk⟩ := Table.exists_columnIndex? hcolumn
  have htitle := Table.columnIndex?_eq_some hk
  rw [(numbered_powerReport analyses earlyWindow).cell? hk i]
  rw [powerReport_eq] at htitle ⊢
  rw [List.getElem?_map] at htitle
  obtain ⟨metric', hmetric', htitle⟩ := Option.map_eq_some_iff.mp htitle
  obtain rfl := Metric.column_injective earlyWindow htitle
  rw [List.getElem?_map, List.getElem?_zipIdx]
  cases analyses[i]? with
  | none => rfl
  | some analysis => simp [hmetric']

end EnergyProfile
