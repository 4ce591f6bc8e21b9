import EnergyProfile.Journal
import EnergyProfile.Settings
import EnergyProfile.Words

/-!
# Batches

A batch analyzes every scenario of the selected methods and makes tables of the outcomes. At most
one recording is held: scenarios are windows of it, and it is let go before another one is loaded.
A scenario that fails is journaled, and the batch carries on.
-/

namespace EnergyProfile

set_option autoImplicit false

structure Outcome where
  scenario : Nat
  result : Except Error (Analysis Float)

structure MethodReport where
  method : String
  outcomes : List Outcome

namespace MethodReport

def analyses (r : MethodReport) : ScenarioAnalyses :=
  r.outcomes.map fun o => o.result.toOption

def failures (r : MethodReport) : Nat :=
  r.outcomes.countP fun o => !o.result.isOk

/-- The scenarios that only calibrate. -/
def calibration (style : ReportStyle) : List Nat :=
  List.range' 1 style.calibrationScenarios

def table (r : MethodReport) (style : ReportStyle) (earlyWindow : Float) : Table :=
  (powerReport r.analyses earlyWindow).maskRows (calibration style) style.excludedColumns
    style.marker

end MethodReport

namespace Batch

/-- A recording and the path it was loaded from. -/
abbrev Held := Option (Path × Recording Float)

def Held.isFor (held : Held) (path : Path) : Bool :=
  held.any fun (origin, _) => origin.same path

def journalOutcome (journal : Journal) (method : String) (o : Outcome) : Journal :=
  match o.result with
  | .ok a => journal.recordScenario method o.scenario a
  | .error e => journal.recordFailure method o.scenario e

variable {m : Type → Type} [Monad m]

abbrev Source (m : Type → Type) := Path → m (Except Error (Recording Float))

/-- What a batch calls: a source of recordings, and an analysis of their windows. -/
structure Services (m : Type → Type) where
  source : Source m
  analysis : Trace Float → Params Float → m (Except (Fault Float) (Analysis Float))

/-- Analysis with sizes in words. The batch breaks off where one of them does not fit. -/
def inWords (source : Source m) : Services (OptionT m) where
  source path := OptionT.lift (source path)
  analysis window p := OptionT.mk (pure (analyzeInWords? window p).run)

/-- The run of a method. It has a recording or none, and enters outcomes in a journal. -/
abbrev Running (m : Type → Type) := StateT Held (StateT Journal m)

def Services.running (services : Services m) : Services (Running m) where
  source path := StateT.lift (StateT.lift (services.source path))
  analysis window p := StateT.lift (StateT.lift (services.analysis window p))

/-- Has the recording of a path held. Another one is let go before the source is asked. -/
def secure (services : Services (Running m)) (path : Path) : Running m (Except Error Unit) := do
  if (← get).isFor path then return .ok ()
  set (none : Held)
  match ← services.source path with
  | .error e => return .error e
  | .ok recording =>
    set (some (path, recording) : Held)
    return .ok ()

def analyzeScenario (services : Services m) (p : Params Float) (recording : Recording Float)
    (s : Scenario) : m (Except Error (Analysis Float)) := do
  let window := recording.window s.start s.stop p.rate
  if window = [] then
    return .error (.data (.malformed (.emptyWindow s.start s.stop recording.size)))
  return (← services.analysis window p).mapError .data

/-- Analyzes a scenario on the recording that is held, if there is one. -/
def analyzeHeld (services : Services (Running m)) (p : Params Float) (s : Scenario) :
    Running m (Option (Except Error (Analysis Float))) := do
  match ← get with
  | none => return none
  | some (_, recording) => return some (← analyzeScenario services p recording s)

/-- The outcome of a scenario. One that has neither a recording nor an error is skipped. -/
def runScenario (services : Services (Running m)) (p : Params Float) (method : Method)
    (number : Nat) (s : Scenario) : Running m (Option Outcome) := do
  let result ← match ← secure services (method.recordingOf s) with
    | .error e => pure (some (.error e))
    | .ok () => analyzeHeld services p s
  match result with
  | none => return none
  | some result =>
    StateT.lift (modify fun journal => journalOutcome journal method.name ⟨number, result⟩)
    return some ⟨number, result⟩

def runScenarios (services : Services (Running m)) (p : Params Float) (method : Method) :
    (number : Nat) → List Scenario → Running m (List Outcome)
  | _, [] => return []
  | number, s :: rest => do
    let outcome ← runScenario services p method number s
    let others ← runScenarios services p method (number + 1) rest
    return outcome.toList ++ others

def runMethod (services : Services (Running m)) (p : Params Float) (method : Method) :
    StateT Journal m MethodReport := do
  let (outcomes, _) ← (runScenarios services p method 1 method.scenarios).run none
  return ⟨method.name, outcomes⟩

/-- Analyzes the methods of some names, or all methods without any names. Nothing is loaded if one
of the names is unknown. -/
def run (services : Services m) (settings : Settings) (names : List String) :
    StateT Journal m (Except Error (List MethodReport)) := do
  match settings.select names with
  | .error e => return .error e
  | .ok methods => return .ok (← methods.mapM (runMethod services.running settings.params))

/-- The table of a quantity across methods. Calibration scenarios are masked unless the column of
the quantity is excluded from masking. -/
def comparisonTable (reports : List MethodReport) (style : ReportStyle) (earlyWindow : Float)
    (metric : Metric) : Table :=
  let analyses := reports.map fun r => (r.method, r.analyses)
  let scenarios := (analyses.map fun a => a.2.length).foldl max 0
  let table := buildTable (comparisonRecords analyses metric) (analyses.map Prod.fst) scenarios
    metric.format
  if style.excludedColumns.contains (metric.column earlyWindow) then table
  else table.maskRows (MethodReport.calibration style) [] style.marker

def comparisonTables (reports : List MethodReport) (style : ReportStyle) (earlyWindow : Float) :
    List (Metric × Table) :=
  Metric.all.map fun metric => (metric, comparisonTable reports style earlyWindow metric)

def reportFileName (method : String) (earlyWindow : Float) : String :=
  s!"power_consumption_{method}_{numberText earlyWindow}.csv"

def comparisonFileName (metric : Metric) : String :=
  s!"comparison_{metric.key}.csv"

/-- The files of a batch: a table for each method, then the comparisons if there are several
methods. -/
def reportFiles (reports : List MethodReport) (style : ReportStyle) (earlyWindow : Float)
    (directory : Path) : List (Path × Table) :=
  (reports.map fun r =>
    (directory.join ⟨reportFileName r.method earlyWindow⟩, r.table style earlyWindow)) ++
  if 1 < reports.length then
    (comparisonTables reports style earlyWindow).map fun (metric, table) =>
      (directory.join ⟨comparisonFileName metric⟩, table)
  else []

variable [FileAccess m]

/-- Writes tables one after another, up to the first failure. -/
def writeTables : List (Path × Table) → m (Except Error (List Path))
  | [] => return .ok []
  | (path, table) :: rest => do
    match ← FileAccess.writeTextWithin path table.toCsv with
    | .error fault => return .error (.file fault)
    | .ok () => return (← writeTables rest).map (path :: ·)

/-- Writes the files of a batch into a directory and says which they are. -/
def writeReports (reports : List MethodReport) (style : ReportStyle) (earlyWindow : Float)
    (directory : Path) : m (Except Error (List Path)) := do
  match ← FileAccess.makeDirectories directory with
  | .error fault => return .error (.file fault)
  | .ok () => writeTables (reportFiles reports style earlyWindow directory)

end Batch

end EnergyProfile
