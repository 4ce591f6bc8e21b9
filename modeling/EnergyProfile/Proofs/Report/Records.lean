import EnergyProfile.Proofs.Report.Cells
import EnergyProfile.Proofs.Table.Markers

/-!
# Records in their places

A table of scenarios and methods looks up every cell by the number of the scenario and the name of the
method. Whatever is missing leaves its own cell empty and moves no other, so a change to what is
recorded for one method and one scenario stays in the row of the one and the columns of the other.
-/

namespace EnergyProfile

set_option autoImplicit false

namespace CellSource

/-- The statistics that a source stands for. -/
inductive Reports : CellSource → Stat Float → Prop where
  | series (runs : List (RunSummary Float)) (field : RunField) :
      Reports (.series runs field) (Stat.of (runs.map field.of))
  | run (r : RunSummary Float) : Reports (.run r) ⟨r.mean, r.spread, r.size⟩
  | high (stats : LevelStats Float) : Reports (.level stats .high) stats.high
  | low (stats : LevelStats Float) : Reports (.level stats .low) stats.low
  | all (stats : LevelStats Float) : Reports (.level stats .all) stats.all
  | stat (s : Stat Float) : Reports (.stat s) s

/-- A source without data: a series without runs, or statistics that count nothing. -/
inductive Blank : CellSource → Prop where
  | series (field : RunField) : Blank (.series [] field)
  | run {r : RunSummary Float} (h : r.size = 0) : Blank (.run r)
  | level {stats : LevelStats Float} {l : Level} (h : (stats.at l).count = 0) :
      Blank (.level stats l)
  | stat {s : Stat Float} (h : s.count = 0) : Blank (.stat s)

theorem reports_summary (source : CellSource) : source.Reports source.summary := by
  cases source with
  | series runs field => exact .series runs field
  | run r => exact .run r
  | level stats l =>
    cases l with
    | high => exact .high stats
    | low => exact .low stats
    | all => exact .all stats
  | stat s => exact .stat s

theorem blank_iff {source : CellSource} : source.Blank ↔ source.summary.count = 0 := by
  constructor
  · intro h
    cases h with
    | series field => rfl
    | run h => exact h
    | level h => exact h
    | stat h => exact h
  · intro h
    cases source with
    | series runs field =>
      have hruns : runs = [] := by simpa [summary, RunField.stat] using h
      rw [hruns]
      exact .series field
    | run r => exact .run h
    | level stats l => exact .level h
    | stat s => exact .stat h

theorem text_stat_ne_empty (s : Stat Float) (format : CellFormat) : s.text format ≠ "" := by
  intro h
  have hlength := congrArg String.length h
  simp [Stat.text] at hlength

theorem text_of_not_blank {source : CellSource} (h : ¬ source.Blank) (format : CellFormat) :
    source.text format = source.summary.text format := by
  rw [blank_iff] at h
  simp [text, stat?, Stat.isEmpty, h]

theorem text_eq_empty_iff {source : CellSource} {format : CellFormat} :
    source.text format = "" ↔ source.Blank := by
  constructor
  · intro h
    by_contra hblank
    rw [text_of_not_blank hblank] at h
    exact text_stat_ne_empty _ _ h
  · intro h
    rw [blank_iff] at h
    simp [text, stat?, Stat.isEmpty, h]

end CellSource

namespace CellRecords

/-- What is recorded for a method and a scenario, if anything is: the last entry counts. -/
def get? (records : CellRecords) (key : String × Nat) : Option (Option CellSource) :=
  (records.reverse.find? fun entry => entry.1 = key).map Prod.snd

theorem get?_concat (records : CellRecords) (key other : String × Nat)
    (value : Option CellSource) :
    get? (records ++ [(key, value)]) other =
      if key = other then some value else records.get? other := by
  simp only [get?, List.reverse_append, List.reverse_singleton, List.singleton_append,
    List.find?_cons]
  by_cases h : key = other <;> simp [h]

theorem lookup?_eq (records : CellRecords) (method : String) (scenario : Nat) :
    records.lookup? method scenario = (records.get? (method, scenario)).join := by
  unfold lookup? get?
  cases records.reverse.find? fun entry => entry.1 = (method, scenario) <;> rfl

/-- There is no entry, or one that says that there is nothing, or one without data. -/
def Missing (records : CellRecords) (key : String × Nat) : Prop :=
  records.get? key = none ∨ records.get? key = some none ∨
    ∃ source, records.get? key = some (some source) ∧ source.Blank

/-- A text that shows what is recorded: nothing where it is missing, and else its mean and spread. -/
structure Shown (records : CellRecords) (format : CellFormat) (key : String × Nat)
    (text : String) : Prop where
  empty_iff : text = "" ↔ records.Missing key
  stat : ∀ source, records.get? key = some (some source) → ¬ source.Blank →
    ∃ s, source.Reports s ∧ text = placesText format.places (s.mean * format.scale) ++ " ± " ++
      placesText format.places (s.spread * format.scale)

theorem shown_cellText (records : CellRecords) (format : CellFormat) (method : String)
    (scenario : Nat) :
    records.Shown format (method, scenario) (records.cellText format scenario method) := by
  constructor
  · unfold cellText Missing
    rw [lookup?_eq]
    cases records.get? (method, scenario) with
    | none => simp
    | some entry =>
      cases entry with
      | none => simp
      | some source => simp [CellSource.text_eq_empty_iff]
  · intro source hsource hdata
    have hlookup : records.lookup? method scenario = some source := by
      rw [lookup?_eq, hsource]
      rfl
    refine ⟨source.summary, source.reports_summary, ?_⟩
    rw [cellText, hlookup]
    exact CellSource.text_of_not_blank hdata format

theorem cellText_congr {records records' : CellRecords} {method : String} {scenario : Nat}
    (h : records.get? (method, scenario) = records'.get? (method, scenario)) (format : CellFormat) :
    records.cellText format scenario method = records'.cellText format scenario method := by
  rw [cellText, cellText, lookup?_eq, lookup?_eq, h]

end CellRecords

/-- Scenarios from one on in rows, methods in columns, and in each cell what is recorded for the two. -/
structure Table.Compares (t : Table) (records : CellRecords) (methods : List String) (scenarios : Nat)
    (format : CellFormat) : Prop where
  indexName : t.indexName = "Scenario"
  columns : t.columns = methods
  labels : t.rows.map Row.label = (List.range' 1 scenarios).map scenarioLabel
  cells_length : ∀ row ∈ t.rows, row.cells.length = methods.length
  cells : ∀ i < scenarios, ∀ (j : Nat) (method : String), methods[j]? = some method →
    ∃ text, t.cellAt? i j = some text ∧ records.Shown format (method, i + 1) text

theorem cellAt?_buildTable (records : CellRecords) (methods : List String) (scenarios : Nat)
    (format : CellFormat) (i j : Nat) :
    (buildTable records methods scenarios format).cellAt? i j =
      if i < scenarios then methods[j]?.map (records.cellText format (i + 1)) else none := by
  rw [buildTable_eq, Table.cellAt?, List.getElem?_map]
  by_cases hi : i < scenarios
  · rw [if_pos hi, List.getElem?_range hi]
    exact List.getElem?_map
  · rw [if_neg hi, List.getElem?_eq_none (by simpa using hi)]
    rfl

theorem compares_buildTable (records : CellRecords) (methods : List String) (scenarios : Nat)
    (format : CellFormat) : (buildTable records methods scenarios format).Compares records methods
      scenarios format := by
  constructor
  · rw [buildTable_eq]
    rfl
  · rw [buildTable_eq]
  · rw [buildTable_eq, List.map_map, List.range'_eq_map_range, List.map_map]
    apply List.map_congr_left
    intro i _
    exact congrArg scenarioLabel (Nat.add_comm i 1)
  · rw [buildTable_eq]
    intro row hrow
    obtain ⟨i, _, rfl⟩ := List.mem_map.mp hrow
    exact List.length_map _
  · intro i hi j method hmethod
    refine ⟨records.cellText format (i + 1) method, ?_, records.shown_cellText format method (i + 1)⟩
    rw [cellAt?_buildTable, if_pos hi, hmethod]
    rfl

/-- Two tables that differ at most in some cells. -/
structure Table.SameBeside (t t' : Table) (differ : Nat → Nat → Prop) : Prop where
  indexName : t'.indexName = t.indexName
  columns : t'.columns = t.columns
  labels : t'.rows.map Row.label = t.rows.map Row.label
  cells : ∀ i j, ¬ differ i j → t'.cellAt? i j = t.cellAt? i j

theorem sameBeside_buildTable {records records' : CellRecords} {key : String × Nat}
    (h : ∀ other, other ≠ key → records.get? other = records'.get? other) (methods : List String)
    (scenarios : Nat) (format : CellFormat) :
    (buildTable records methods scenarios format).SameBeside
      (buildTable records' methods scenarios format)
      fun i j => i + 1 = key.2 ∧ methods[j]? = some key.1 := by
  have hcompares := compares_buildTable records methods scenarios format
  have hcompares' := compares_buildTable records' methods scenarios format
  constructor
  · rw [hcompares.indexName, hcompares'.indexName]
  · rw [hcompares.columns, hcompares'.columns]
  · rw [hcompares.labels, hcompares'.labels]
  · intro i j hdiffer
    rw [cellAt?_buildTable, cellAt?_buildTable]
    split
    · cases hmethod : methods[j]? with
      | none => rfl
      | some method =>
        have hother : (method, i + 1) ≠ key := by
          rintro rfl
          exact hdiffer ⟨rfl, hmethod⟩
        exact congrArg some (CellRecords.cellText_congr (h _ hother) format).symm
    · rfl

/-- The table of any records has its rows, columns and cells where the scenarios and methods say, and
shows in each cell what is recorded for it and nothing else: records that differ for one method and
scenario give tables that differ at most there. -/
theorem buildTable_placed (records : CellRecords) (methods : List String) (scenarios : Nat)
    (format : CellFormat) :
    (buildTable records methods scenarios format).Compares records methods scenarios format ∧
    ∀ (records' : CellRecords) (method : String) (scenario : Nat),
      (∀ key, key ≠ (method, scenario) → records.get? key = records'.get? key) →
      (buildTable records methods scenarios format).SameBeside
        (buildTable records' methods scenarios format)
        fun i j => i + 1 = scenario ∧ methods[j]? = some method := by
  refine ⟨compares_buildTable records methods scenarios format, ?_⟩
  intro records' method scenario h
  exact sameBeside_buildTable h methods scenarios format

/-- A method that is asked for twice gets an entry for its second scenario. -/
theorem buildTable_placed_of_later_entry :
    let records : CellRecords := [(("aes", 1), some (.stat ⟨1, 0.5, 2⟩)), (("aes", 2), none)]
    let later : CellRecords := records ++ [(("aes", 2), some (.series [] .sum))]
    let methods := ["aes", "des", "aes"]
    (∀ key, key ≠ ("aes", 2) → records.get? key = later.get? key) ∧
      (buildTable records methods 3 .energy).Compares records methods 3 .energy ∧
      (buildTable records methods 3 .energy).SameBeside (buildTable later methods 3 .energy)
        fun i j => i + 1 = 2 ∧ methods[j]? = some "aes" := by
  intro records later methods
  have hkeys (key : String × Nat) (hkey : key ≠ ("aes", 2)) : records.get? key = later.get? key := by
    rw [CellRecords.get?_concat, if_neg hkey.symm]
  obtain ⟨hcompares, hbeside⟩ := buildTable_placed records methods 3 .energy
  exact ⟨hkeys, hcompares, hbeside later "aes" 2 hkeys⟩

end EnergyProfile
