import EnergyProfile.Batch
import EnergyProfile.Proofs.Report.Cells

/-!
# Two ways to a cell

The table of a method takes statistics from its analyses. A comparison aggregates their runs anew,
looks them up by method and scenario, and masks a table as a whole. Both show the same of a method
as long as no other one bears its name, and nothing where the method has no scenario.
-/

namespace EnergyProfile

set_option autoImplicit false

namespace CellRecords

theorem lookup?_of_unique {records : CellRecords} {method : String} {scenario : Nat}
    {source : Option CellSource} (hmem : ((method, scenario), source) ∈ records)
    (hunique : ∀ other, ((method, scenario), other) ∈ records → other = source) :
    records.lookup? method scenario = source := by
  unfold lookup?
  cases hfound : records.reverse.find? fun entry => entry.1 = (method, scenario) with
  | none =>
    have habsent := List.find?_eq_none.mp hfound _ (List.mem_reverse.mpr hmem)
    simp at habsent
  | some entry =>
    have hkey := List.find?_some hfound
    rw [decide_eq_true_eq] at hkey
    apply hunique
    rw [← hkey]
    exact List.mem_reverse.mp (List.mem_of_find?_eq_some hfound)

theorem lookup?_of_absent {records : CellRecords} {method : String} {scenario : Nat}
    (h : ∀ source, ((method, scenario), source) ∉ records) :
    records.lookup? method scenario = none := by
  unfold lookup?
  cases hfound : records.reverse.find? fun entry => entry.1 = (method, scenario) with
  | none => rfl
  | some entry =>
    have hkey := List.find?_some hfound
    rw [decide_eq_true_eq] at hkey
    refine absurd ?_ (h entry.2)
    rw [← hkey]
    exact List.mem_reverse.mp (List.mem_of_find?_eq_some hfound)

end CellRecords

theorem mem_comparisonRecords_iff {methods : List (String × ScenarioAnalyses)} {metric : Metric}
    {name : String} {i : Nat} {source : Option CellSource} :
    ((name, i + 1), source) ∈ comparisonRecords methods metric ↔
      ∃ analyses analysis, (name, analyses) ∈ methods ∧ analyses[i]? = some analysis ∧
        source = analysis.map metric.source := by
  simp only [comparisonRecords, List.mem_flatMap, List.mem_map]
  constructor
  · rintro ⟨⟨name', analyses⟩, hmethod, ⟨analysis, j⟩, hanalysis, heq⟩
    simp only [Prod.mk.injEq, Nat.add_right_cancel_iff] at heq
    obtain ⟨⟨rfl, rfl⟩, rfl⟩ := heq
    exact ⟨analyses, analysis, hmethod, List.mk_mem_zipIdx_iff_getElem?.mp hanalysis, rfl⟩
  · rintro ⟨analyses, analysis, hmethod, hanalysis, rfl⟩
    exact ⟨(name, analyses), hmethod, (analysis, i),
      List.mk_mem_zipIdx_iff_getElem?.mpr hanalysis, rfl⟩

theorem lookup?_comparisonRecords {methods : List (String × ScenarioAnalyses)}
    (hdistinct : (methods.map Prod.fst).Nodup) {name : String} {analyses : ScenarioAnalyses}
    (hmethod : (name, analyses) ∈ methods) (metric : Metric) (i : Nat) :
    (comparisonRecords methods metric).lookup? name (i + 1) =
      analyses[i]?.join.map metric.source := by
  have hsame (analyses' : ScenarioAnalyses) (h : (name, analyses') ∈ methods) :
      analyses' = analyses :=
    congrArg Prod.snd (List.inj_on_of_nodup_map hdistinct h hmethod rfl)
  cases hi : analyses[i]? with
  | none =>
    apply CellRecords.lookup?_of_absent
    intro source hsource
    obtain ⟨analyses', analysis, hmethod', hanalysis, _⟩ := mem_comparisonRecords_iff.mp hsource
    rw [hsame analyses' hmethod', hi] at hanalysis
    cases hanalysis
  | some analysis =>
    apply CellRecords.lookup?_of_unique
    · exact mem_comparisonRecords_iff.mpr ⟨analyses, analysis, hmethod, hi, rfl⟩
    · intro other hother
      obtain ⟨analyses', analysis', hmethod', hanalysis, rfl⟩ := mem_comparisonRecords_iff.mp hother
      rw [hsame analyses' hmethod', hi] at hanalysis
      rw [← Option.some.inj hanalysis]
      rfl

/-- Runs that are aggregated anew give the statistics of the analysis. -/
theorem Metric.summary_source {a : Analysis Float} (hseries : a.series = .of a.runs)
    (metric : Metric) : (metric.source a).summary = metric.stat a := by
  cases metric with
  | highPower => rfl
  | lowPower => rfl
  | allPower => rfl
  | runEnergy => exact (congrArg SeriesStats.energy hseries).symm
  | runDuration => exact (congrArg SeriesStats.duration hseries).symm
  | earlyEnergy => exact (congrArg SeriesStats.earlyEnergy hseries).symm

theorem Metric.text_source {a : Analysis Float} (hseries : a.series = .of a.runs)
    (metric : Metric) : (metric.source a).text metric.format = metric.cellText (some a) := by
  have hstat : (metric.source a).stat? = (CellSource.stat (metric.stat a)).stat? := by
    unfold CellSource.stat?
    rw [metric.summary_source hseries]
    rfl
  unfold Metric.cellText CellSource.text
  rw [hstat]

namespace MethodReport

/-- The statistics across runs are those of the runs, in every analysis of a method. -/
def Aggregated (r : MethodReport) : Prop :=
  ∀ o ∈ r.outcomes, ∀ a, o.result = .ok a → a.series = .of a.runs

@[simp] theorem length_analyses (r : MethodReport) : r.analyses.length = r.outcomes.length :=
  List.length_map _

theorem Aggregated.series_eq {r : MethodReport} (h : r.Aggregated) {i : Nat} {a : Analysis Float}
    (ha : r.analyses[i]? = some (some a)) : a.series = .of a.runs := by
  unfold analyses at ha
  rw [List.getElem?_map] at ha
  obtain ⟨o, ho, hresult⟩ := Option.map_eq_some_iff.mp ha
  refine h o (List.mem_of_getElem? ho) a ?_
  cases hcase : o.result with
  | error e =>
    rw [hcase] at hresult
    cases hresult
  | ok b =>
    rw [hcase] at hresult
    rw [Option.some.inj hresult]

theorem scenarioLabel_mem_calibration_iff (style : ReportStyle) (i : Nat) :
    scenarioLabel (i + 1) ∈ (calibration style).map scenarioLabel ↔
      i < style.calibrationScenarios := by
  simp only [List.mem_map, scenarioLabel_inj, calibration, List.mem_range'_1]
  constructor
  · rintro ⟨k, hk, rfl⟩
    omega
  · intro hi
    exact ⟨i + 1, by omega, rfl⟩

/-- What is shown of a text in the row of a scenario: the marker if the row is masked. -/
def shown (style : ReportStyle) (earlyWindow : Float) (metric : Metric) (i : Nat) (text : String) :
    String :=
  if i < style.calibrationScenarios ∧ metric.column earlyWindow ∉ style.excludedColumns then
    style.marker
  else text

theorem cell?_table (r : MethodReport) (style : ReportStyle) (earlyWindow : Float)
    (metric : Metric) (i : Nat) :
    (r.table style earlyWindow).cell? (scenarioLabel (i + 1)) (metric.column earlyWindow) =
      (r.analyses[i]?.map metric.cellText).map (shown style earlyWindow metric i) := by
  unfold table shown
  rw [Table.cell?_maskRows (numbered_powerReport r.analyses earlyWindow).distinct,
    cell?_powerReport]
  simp only [scenarioLabel_mem_calibration_iff]

end MethodReport

namespace Batch

open MethodReport

/-- The rows of a comparison: as many as the longest method has scenarios. -/
def comparedScenarios (reports : List MethodReport) : Nat :=
  (reports.map fun r => r.outcomes.length).foldl max 0

theorem length_le_comparedScenarios {reports : List MethodReport} {r : MethodReport}
    (hr : r ∈ reports) : r.outcomes.length ≤ comparedScenarios reports := by
  unfold comparedScenarios
  rw [List.foldl_eq_foldr]
  exact List.le_max_of_le' 0 (List.mem_map_of_mem hr) (Nat.le_refl _)

/-- A comparison before it is masked. -/
def unmasked (reports : List MethodReport) (metric : Metric) : Table :=
  buildTable (comparisonRecords (reports.map fun r => (r.method, r.analyses)) metric)
    (reports.map MethodReport.method) (comparedScenarios reports) metric.format

theorem numbered_unmasked (reports : List MethodReport) (metric : Metric) :
    (unmasked reports metric).Numbered :=
  numbered_buildTable _ _ _ _

theorem comparisonTable_eq (reports : List MethodReport) (style : ReportStyle)
    (earlyWindow : Float) (metric : Metric) :
    comparisonTable reports style earlyWindow metric =
      if metric.column earlyWindow ∈ style.excludedColumns then unmasked reports metric
      else (unmasked reports metric).maskRows (calibration style) [] style.marker := by
  simp only [comparisonTable, unmasked, comparedScenarios, List.map_map, List.contains_eq_mem,
    decide_eq_true_eq, Function.comp_def, length_analyses]

theorem length_rows_comparisonTable (reports : List MethodReport) (style : ReportStyle)
    (earlyWindow : Float) (metric : Metric) :
    (comparisonTable reports style earlyWindow metric).rows.length = comparedScenarios reports := by
  have hlength : (unmasked reports metric).rows.length = comparedScenarios reports := by
    unfold unmasked
    rw [buildTable_eq, List.length_map, List.length_range]
  rw [comparisonTable_eq]
  split
  · exact hlength
  · rw [Table.rows_maskRows (numbered_unmasked reports metric).distinct, List.length_map]
    exact hlength

section

variable {reports : List MethodReport} (hdistinct : (reports.map MethodReport.method).Nodup)
  {r : MethodReport} (hr : r ∈ reports) (haggregated : r.Aggregated)

include hdistinct hr haggregated

theorem cell?_unmasked (metric : Metric) (i : Nat) :
    (unmasked reports metric).cell? (scenarioLabel (i + 1)) r.method =
      if i < comparedScenarios reports then some ((r.analyses[i]?.map metric.cellText).getD "")
      else none := by
  have hnames : ((reports.map fun r => (r.method, r.analyses)).map Prod.fst).Nodup := by
    rw [List.map_map]
    exact hdistinct
  have hmethod : (r.method, r.analyses) ∈ reports.map fun r => (r.method, r.analyses) :=
    List.mem_map_of_mem hr
  unfold unmasked
  rw [cell?_buildTable _ (List.mem_map_of_mem hr)]
  unfold CellRecords.cellText
  rw [lookup?_comparisonRecords hnames hmethod]
  congr 2
  cases hi : r.analyses[i]? with
  | none => rfl
  | some analysis =>
    cases analysis with
    | none => rfl
    | some a => exact metric.text_source (haggregated.series_eq hi)

/-- The whole table is masked or none of it, which is what the mask does to one column. -/
theorem cell?_comparisonTable (style : ReportStyle) (earlyWindow : Float) (metric : Metric)
    (i : Nat) :
    (comparisonTable reports style earlyWindow metric).cell? (scenarioLabel (i + 1)) r.method =
      if i < comparedScenarios reports then
        some (shown style earlyWindow metric i ((r.analyses[i]?.map metric.cellText).getD ""))
      else none := by
  have hcell := cell?_unmasked hdistinct hr haggregated metric i
  rw [comparisonTable_eq]
  by_cases hexcluded : metric.column earlyWindow ∈ style.excludedColumns
  · rw [if_pos hexcluded, hcell]
    simp [shown, hexcluded]
  · rw [if_neg hexcluded, Table.cell?_maskRows (numbered_unmasked reports metric).distinct, hcell]
    simp only [scenarioLabel_mem_calibration_iff, List.not_mem_nil, not_false_iff, and_true]
    by_cases hi : i < comparedScenarios reports
    · rw [if_pos hi, if_pos hi]
      simp [shown, hexcluded]
    · rw [if_neg hi, if_neg hi]
      rfl

end

/-- A comparison shows of a method what the table of the method shows: the same text for each of its
scenarios, and nothing for further ones that are not masked. -/
structure ShowsSame (r : MethodReport) (style : ReportStyle) (earlyWindow : Float)
    (metric : Metric) (comparison : Table) : Prop where
  same : ∀ i, 1 ≤ i → i ≤ r.outcomes.length → ∃ text,
    comparison.cell? (scenarioLabel i) r.method = some text ∧
      (r.table style earlyWindow).cell? (scenarioLabel i) (metric.column earlyWindow) = some text
  beyond : ∀ i, r.outcomes.length < i → style.calibrationScenarios < i →
    comparison.cell? (scenarioLabel i) r.method =
      if i ≤ comparison.rows.length then some "" else none

theorem showsSame_comparisonTable {reports : List MethodReport}
    (hdistinct : (reports.map MethodReport.method).Nodup) {r : MethodReport} (hr : r ∈ reports)
    (haggregated : r.Aggregated) (style : ReportStyle) (earlyWindow : Float) (metric : Metric) :
    ShowsSame r style earlyWindow metric (comparisonTable reports style earlyWindow metric) := by
  have hcompared := cell?_comparisonTable hdistinct hr haggregated style earlyWindow metric
  have hlength := length_le_comparedScenarios hr
  constructor
  · intro i hi hle
    obtain ⟨k, rfl⟩ : ∃ k, i = k + 1 := ⟨i - 1, by omega⟩
    obtain ⟨analysis, hanalysis⟩ : ∃ analysis, r.analyses[k]? = some analysis :=
      ⟨_, List.getElem?_eq_getElem (by rw [length_analyses]; omega)⟩
    refine ⟨shown style earlyWindow metric k (metric.cellText analysis), ?_, ?_⟩
    · rw [hcompared k, if_pos (by omega), hanalysis]
      rfl
    · rw [cell?_table, hanalysis]
      rfl
  · intro i hi hcalibration
    obtain ⟨k, rfl⟩ : ∃ k, i = k + 1 := ⟨i - 1, by omega⟩
    have habsent : r.analyses[k]? = none :=
      List.getElem?_eq_none (by rw [length_analyses]; omega)
    rw [hcompared k, length_rows_comparisonTable, habsent]
    simp only [shown, Nat.succ_le_iff, Option.map_none, Option.getD_none]
    rw [if_neg (by omega : ¬ (k < style.calibrationScenarios ∧ _))]

/-- There is one comparison for each quantity, and each shows of every method what the table of the
method shows. -/
theorem comparisonTables_agree {reports : List MethodReport}
    (hdistinct : (reports.map MethodReport.method).Nodup)
    (haggregated : ∀ r ∈ reports, r.Aggregated) (style : ReportStyle) (earlyWindow : Float) :
    (comparisonTables reports style earlyWindow).map Prod.fst = Metric.all ∧
      ∀ entry ∈ comparisonTables reports style earlyWindow, ∀ r ∈ reports,
        ShowsSame r style earlyWindow entry.1 entry.2 := by
  constructor
  · unfold comparisonTables
    rw [List.map_map]
    exact List.map_id _
  · intro entry hentry r hr
    obtain ⟨metric, _, rfl⟩ := List.mem_map.mp hentry
    exact showsSame_comparisonTable hdistinct hr (haggregated r hr) style earlyWindow metric

/-- One run of two samples, and the statistics of a trace of three. -/
def burst : Analysis Float :=
  let runs : List (RunSummary Float) := [⟨0, 0.5, 0.5, 2, 2000, 1000, 0, 1, 1000, 0⟩]
  { sampleCount := 3, highCount := 2, decimationFactor := 1, adjustments := [], runs := runs
    power := ⟨⟨2, 0, 2⟩, ⟨0, 0, 1⟩, ⟨1.3, 1.1, 3⟩⟩
    series := .of runs }

/-- A method with a failed scenario, and one with no scenario after the first. -/
def unevenReports : List MethodReport :=
  [⟨"NONE", [⟨1, .ok burst⟩, ⟨2, .error (.file .notFound)⟩, ⟨3, .ok burst⟩]⟩,
    ⟨"ASCON", [⟨1, .ok burst⟩]⟩]

theorem comparisonTables_agree_of_uneven_methods :
    (unevenReports.map MethodReport.method).Nodup ∧ (∀ r ∈ unevenReports, r.Aggregated) ∧
      (comparisonTables unevenReports ⟨1, ["High durations [s]"], "n/a", ⟨"out"⟩⟩ 20).map
        Prod.fst = Metric.all ∧
      ∀ entry ∈ comparisonTables unevenReports ⟨1, ["High durations [s]"], "n/a", ⟨"out"⟩⟩ 20,
        ∀ r ∈ unevenReports,
          ShowsSame r ⟨1, ["High durations [s]"], "n/a", ⟨"out"⟩⟩ 20 entry.1 entry.2 := by
  have hdistinct : (unevenReports.map MethodReport.method).Nodup := by decide
  have haggregated : ∀ r ∈ unevenReports, r.Aggregated := by
    intro r hr o ho a ha
    have hburst : a = burst := by
      simp only [unevenReports, List.mem_cons, List.not_mem_nil, or_false] at hr
      rcases hr with rfl | rfl <;>
        simp only [List.mem_cons, List.not_mem_nil, or_false] at ho
      · rcases ho with rfl | rfl | rfl
        · exact (Except.ok.inj ha).symm
        · cases ha
        · exact (Except.ok.inj ha).symm
      · rw [ho] at ha
        exact (Except.ok.inj ha).symm
    rw [hburst]
    rfl
  exact ⟨hdistinct, haggregated, comparisonTables_agree hdistinct haggregated _ _⟩

end Batch

end EnergyProfile
