import EnergyProfile.Analysis
import EnergyProfile.Json.Printing

/-!
# The journal of a batch

A journal counts what a batch has processed and keeps an entry for each event worth noting, so
that nothing a batch skips goes unreported. It reads no clock: the moment that new entries carry
is part of it.
-/

namespace EnergyProfile

set_option autoImplicit false

/-- A point in time as text, and as seconds on the clock that it was read from. -/
structure Moment where
  text : String
  seconds : Int

inductive Severity where
  | info
  | warning
  | error
  deriving DecidableEq

def Severity.name : Severity → String
  | info => "info"
  | warning => "warning"
  | error => "error"

/-- An event. One that concerns a whole method has no scenario. -/
structure Note where
  method : String
  scenario : Option Nat
  severity : Severity
  message : String
  time : Moment

structure Journal where
  batch : String
  started : Moment
  now : Moment
  scenariosProcessed : Nat
  scenariosFailed : Nat
  samplesProcessed : Nat
  runsExtracted : Nat
  windowAdjustments : Nat
  notes : List Note
  /-- Where the journal is kept, if anywhere. -/
  keptAt : Option Path

namespace Journal

def start (batch : String) (now : Moment) (keptAt : Option Path) : Journal where
  batch := batch
  started := now
  now := now
  scenariosProcessed := 0
  scenariosFailed := 0
  samplesProcessed := 0
  runsExtracted := 0
  windowAdjustments := 0
  notes := []
  keptAt := keptAt

def note (j : Journal) (method : String) (scenario : Option Nat) (severity : Severity)
    (message : String) : Journal :=
  { j with notes := j.notes ++ [⟨method, scenario, severity, message, j.now⟩] }

/-- What is worth a warning in an analysis: windows that did not fit, and that there are no runs. -/
def warnings (a : Analysis Float) : List String :=
  a.adjustments.map Adjustment.message ++ if a.runs.isEmpty then ["no high periods found"] else []

def recordScenario (j : Journal) (method : String) (scenario : Nat) (a : Analysis Float) :
    Journal :=
  let counted := { j with
    scenariosProcessed := j.scenariosProcessed + 1
    samplesProcessed := j.samplesProcessed + a.sampleCount
    runsExtracted := j.runsExtracted + a.runs.length
    windowAdjustments := j.windowAdjustments + a.adjustments.length }
  (warnings a).foldl (fun j message => j.note method (some scenario) .warning message) counted

def recordFailure (j : Journal) (method : String) (scenario : Nat) (e : Error) : Journal :=
  { j with scenariosFailed := j.scenariosFailed + 1 }.note method (some scenario) .error e.message

def hasFailures (j : Journal) : Bool :=
  0 < j.scenariosFailed

/-- Whole seconds since the start, none if the clock went back. -/
def elapsed (j : Journal) : Nat :=
  (j.now.seconds - j.started.seconds).toNat

def countNotes (j : Journal) (severity : Severity) : Nat :=
  j.notes.countP fun n => n.severity = severity

def summary (j : Journal) : String :=
  String.intercalate "\n" [
    s!"Batch {j.batch}:",
    s!"- Scenarios processed: {j.scenariosProcessed}",
    s!"- Scenarios failed: {j.scenariosFailed}",
    s!"- Samples segmented: {j.samplesProcessed}",
    s!"- Runs extracted: {j.runsExtracted}",
    s!"- Windows clamped: {j.windowAdjustments}",
    s!"- Warnings: {j.countNotes .warning}",
    s!"- Duration: {j.elapsed} seconds"]

def statsJson (j : Journal) : Json :=
  .record [
    ("batch_id", .string j.batch),
    ("batch_start", .string j.started.text),
    ("scenarios_processed", .ofNat j.scenariosProcessed),
    ("scenarios_failed", .ofNat j.scenariosFailed),
    ("samples_processed", .ofNat j.samplesProcessed),
    ("runs_extracted", .ofNat j.runsExtracted),
    ("window_adjustments", .ofNat j.windowAdjustments),
    ("batch_duration_secs", .ofNat j.elapsed)]

def Note.toJson (n : Note) : Json :=
  .record [
    ("method", .string n.method),
    ("scenario", match n.scenario with | some k => .ofNat k | none => .null),
    ("severity", .string n.severity.name),
    ("message", .string n.message),
    ("at", .string n.time.text)]

def toJson (j : Journal) : Json :=
  .record [
    ("stats", j.statsJson),
    ("entries", .list (j.notes.map Note.toJson)),
    ("last_updated", .string j.now.text)]

variable {m : Type → Type} [Monad m] [FileAccess m]

def saveTo (j : Journal) (path : Path) : m (Except Error Unit) := do
  return (← FileAccess.writeTextWithin path j.toJson.text).mapError .file

/-- Saves a journal that is kept somewhere. -/
def save (j : Journal) : m (Except Error Unit) :=
  match j.keptAt with
  | some path => j.saveTo path
  | none => pure (.ok ())

end Journal

end EnergyProfile
