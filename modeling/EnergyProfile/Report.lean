import EnergyProfile.Analysis
import EnergyProfile.Decimal.Notation
import EnergyProfile.Decimal.Places
import EnergyProfile.Table

/-!
# Report cells and tables

A cell shows a mean and a spread, or nothing where there is nothing to report. One kind of table
has a row for each scenario and a column for each quantity of one method; the other compares one
quantity across methods.
-/

namespace EnergyProfile

set_option autoImplicit false

/-- Decimal places and the factor that values are multiplied by before they are shown. -/
structure CellFormat where
  places : Nat
  scale : Float

namespace CellFormat

def plain (places : Nat) : CellFormat := ⟨places, 1⟩

def energy : CellFormat := plain 3

def duration : CellFormat := plain 2

def power : CellFormat := ⟨3, 1000⟩

end CellFormat

def Stat.text (s : Stat Float) (format : CellFormat) : String :=
  placesText format.places (s.mean * format.scale) ++ " ± " ++
    placesText format.places (s.spread * format.scale)

inductive CellSource where
  | series (runs : List (RunSummary Float)) (field : RunField)
  | run (run : RunSummary Float)
  | level (stats : LevelStats Float) (level : Level)
  | stat (stat : Stat Float)

namespace CellSource

/-- The statistics before it is asked whether there is anything to report. -/
def summary : CellSource → Stat Float
  | series runs field => field.stat runs
  | run r => ⟨r.mean, r.spread, r.size⟩
  | level stats l => stats.at l
  | stat s => s

/-- The statistics to show, if anything was counted. -/
def stat? (source : CellSource) : Option (Stat Float) :=
  if source.summary.isEmpty then none else some source.summary

def text (source : CellSource) (format : CellFormat) : String :=
  match source.stat? with
  | some s => s.text format
  | none => ""

end CellSource

/-- What is known of methods and scenarios: a later entry for the same cell takes the place of an
earlier one, and an entry may say that there is nothing. -/
abbrev CellRecords := List ((String × Nat) × Option CellSource)

namespace CellRecords

def lookup? (records : CellRecords) (method : String) (scenario : Nat) : Option CellSource :=
  match records.reverse.find? fun entry => entry.1 = (method, scenario) with
  | some entry => entry.2
  | none => none

/-- The text of the cell of a method and a scenario. -/
def cellText (records : CellRecords) (format : CellFormat) (scenario : Nat) (method : String) :
    String :=
  match records.lookup? method scenario with
  | some source => source.text format
  | none => ""

end CellRecords

def scenarioIndex : String := "Scenario"

/-- Scenarios in rows, methods in columns. -/
def buildTable (records : CellRecords) (methods : List String) (scenarios : Nat)
    (format : CellFormat) : Table :=
  (List.range scenarios).foldl
    (fun table i =>
      table.addRow (scenarioLabel (i + 1)) (methods.map (records.cellText format (i + 1))))
    (Table.empty scenarioIndex methods)

/-- A quantity that is reported for each scenario and compared across methods. -/
inductive Metric where
  | highPower
  | lowPower
  | allPower
  | runEnergy
  | runDuration
  | earlyEnergy
  deriving DecidableEq

namespace Metric

def all : List Metric := [highPower, lowPower, allPower, runEnergy, runDuration, earlyEnergy]

def columnOrder : List Metric :=
  [runEnergy, runDuration, earlyEnergy, highPower, lowPower, allPower]

/-- A name that can be part of a file name. -/
def key : Metric → String
  | highPower => "high_power"
  | lowPower => "low_power"
  | allPower => "all_power"
  | runEnergy => "run_energy"
  | runDuration => "run_duration"
  | earlyEnergy => "early_energy"

/-- The title of its column, in which the early window shows its length in milliseconds. -/
def column (earlyWindow : Float) : Metric → String
  | highPower => "High periods power [mW]"
  | lowPower => "Low periods power [mW]"
  | allPower => "All periods power [mW]"
  | runEnergy => "High period energy consumption [mJ]"
  | runDuration => "High durations [s]"
  | earlyEnergy => s!"First {numberText earlyWindow}ms [mJ]"

def format : Metric → CellFormat
  | highPower | lowPower | allPower => .power
  | runEnergy | earlyEnergy => .energy
  | runDuration => .duration

/-- Where a comparison takes the quantity from: the runs are aggregated anew. -/
def source (a : Analysis Float) : Metric → CellSource
  | highPower => .level a.power .high
  | lowPower => .level a.power .low
  | allPower => .level a.power .all
  | runEnergy => .series a.runs .sum
  | runDuration => .series a.runs .duration
  | earlyEnergy => .series a.runs .earlySum

/-- Where the table of a method takes the quantity from: the statistics of the analysis. -/
def stat (a : Analysis Float) : Metric → Stat Float
  | highPower => a.power.high
  | lowPower => a.power.low
  | allPower => a.power.all
  | runEnergy => a.series.energy
  | runDuration => a.series.duration
  | earlyEnergy => a.series.earlyEnergy

end Metric

/-- The analyses of a method by scenario; one that failed is absent. -/
abbrev ScenarioAnalyses := List (Option (Analysis Float))

/-- The cells of a scenario in the table of a method. One that failed has none. -/
def reportCells : Option (Analysis Float) → List String
  | none => []
  | some a => Metric.columnOrder.map fun m => (CellSource.stat (m.stat a)).text m.format

def powerReport (analyses : ScenarioAnalyses) (earlyWindow : Float) : Table :=
  analyses.zipIdx.foldl
    (fun table (analysis, i) => table.addRow (scenarioLabel (i + 1)) (reportCells analysis))
    (Table.empty scenarioIndex (Metric.columnOrder.map (Metric.column earlyWindow)))

/-- One quantity of every method and scenario. -/
def comparisonRecords (methods : List (String × ScenarioAnalyses)) (metric : Metric) :
    CellRecords :=
  methods.flatMap fun (name, analyses) =>
    analyses.zipIdx.map fun (analysis, i) => ((name, i + 1), analysis.map metric.source)

end EnergyProfile
