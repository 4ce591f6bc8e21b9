import EnergyProfile.Batch
import EnergyProfile.CommandLine.Command
import EnergyProfile.RoundTripLog
import EnergyProfile.SettingsFile
import EnergyProfile.Text.Quoted

/-!
# What commands do

What each command of the command line does and says. A command writes to two channels as it goes. It
may end with a failure, or break off where a size does not fit in a word; what it has said and
written before that stands.
-/

namespace EnergyProfile.CommandLine

set_option autoImplicit false

def programName : String := "power-trace"

def version : String := "0.1.0"

/-- Why a command failed, and what lies below that. -/
structure Failure where
  message : String
  causes : List String

def Failure.ofError (e : Error) : Failure :=
  ⟨e.message, e.cause?.toList⟩

/-- An error as the cause of a failure of its own. -/
def Failure.about (message : String) (e : Error) : Failure :=
  ⟨message, e.message :: e.cause?.toList⟩

/-- A cause, indented. Several causes are numbered. -/
def causeText (number : Option Nat) (cause : String) : String :=
  let (first, further) :=
    match number with
    | some n => (Text.padLeft 5 (toString n) ++ ": ", Text.spaces 7)
    | none => (Text.spaces 4, Text.spaces 4)
  first ++ String.intercalate ("\n" ++ further) (cause.splitOn "\n")

def Failure.text (f : Failure) : String :=
  let causes :=
    match f.causes with
    | [] => []
    | [cause] => [causeText none cause]
    | several => several.zipIdx.map fun (cause, i) => causeText (some i) cause
  "Error: " ++ f.message ++ "\n" ++
    if causes.isEmpty then "" else "\nCaused by:\n" ++ String.intercalate "\n" causes ++ "\n"

/-- How a command ends before it is done. -/
inductive Ending where
  | failed (f : Failure)
  | brokenOff

structure Transcript where
  output : String
  warnings : String

abbrev Action (m : Type → Type) := ExceptT Ending (StateT Transcript m)

structure Reply where
  code : Nat
  output : String
  errors : String

structure Surroundings where
  user : UserDirectories
  now : Moment
  batch : String

variable {m : Type → Type} [Monad m] [FileAccess m]

def say (line : String) : Action m Unit :=
  modify fun t => { t with output := t.output ++ line ++ "\n" }

def warn (line : String) : Action m Unit :=
  modify fun t => { t with warnings := t.warnings ++ line ++ "\n" }

def fail {α : Type} (message : String) : Action m α :=
  throw (.failed ⟨message, []⟩)

/-- The result of a file operation or a computation, or the end of the command. -/
def orFail {α : Type} (describe : Error → Failure) (action : m (Except Error α)) : Action m α := do
  match ← (action : m (Except Error α)) with
  | .ok x => return x
  | .error e => throw (.failed (describe e))

def orStop {α : Type} (action : m (Except Error α)) : Action m α :=
  orFail Failure.ofError action

def orBreakOff {α : Type} (action : OptionT m α) : Action m α := do
  match ← (action.run : m (Option α)) with
  | some x => return x
  | none => throw .brokenOff

def loadSettings (s : Surroundings) : Option Path → Action m Settings
  | some path =>
    orFail (Failure.about s!"could not load {path.text}") (Settings.loadFrom s.user path)
  | none => orFail (Failure.about "could not load the user configuration") (Settings.load s.user)

/-- A title underlined with as many signs as it has bytes, a table, and an empty line. -/
def sayReport (settings : Settings) (r : MethodReport) : Action m Unit := do
  say r.method
  say (String.ofList (List.replicate r.method.utf8ByteSize '='))
  say (r.table settings.report settings.params.earlyWindow).toText
  say ""

def analyzeMethods (s : Surroundings) (settingsPath output : Option Path)
    (methods : List String) : Action m Unit := do
  let loaded ← loadSettings s settingsPath
  let directory := output.getD loaded.report.outputDirectory
  let settings := { loaded with report := { loaded.report with outputDirectory := directory } }
  orStop do return (← FileAccess.makeDirectories directory).mapError .file
  if settings.methods.isEmpty then
    fail "no methods configured; run `power-trace init-config` and edit the file"
  say s!"Power Trace Analyzer v{version}"
  say ""
  let journal := Journal.start s.batch s.now (some (directory.join ⟨"diagnostics.json"⟩))
  let services := Batch.inWords (Recording.load settings.columns)
  let (result, journal) ← orBreakOff ((Batch.run services settings methods).run journal)
  let reports ← orStop (pure result)
  reports.forM (sayReport settings)
  let written ← orStop
    (Batch.writeReports reports settings.report settings.params.earlyWindow directory)
  written.forM fun path => say s!"Wrote {path.text}"
  match ← (journal.save : m (Except Error Unit)) with
  | .ok () => pure ()
  | .error e => warn s!"Warning: Could not save diagnostics log: {e.message}"
  say ""
  say journal.summary

/-- Parameters with some of them replaced. -/
def Overrides.apply (o : Overrides) (p : Params Float) : Params Float where
  rate := o.rate.getD p.rate
  targetRate := o.targetRate.getD p.targetRate
  smoothing := o.smoothing.getD p.smoothing
  threshold := o.threshold.getD p.threshold
  shortestGap := o.shortestGap.getD p.shortestGap
  earlyWindow := o.earlyWindow.getD p.earlyWindow

def runWidths : List Nat := [5, 10, 10, 9, 12, 12]

def runLine (cells : List String) : String :=
  String.intercalate "  " (List.zipWith Text.padLeft runWidths cells)

def runCells (number : Nat) (r : RunSummary Float) : List String :=
  toString number ::
    [r.startTime, r.endTime, r.duration, r.sum, r.earlySum].map (placesText 4)

/-- The window to segment: the whole recording unless bounds are given. -/
def segmentBounds (recording : Recording Float) (p : Params Float) (start stop : Option Float) :
    Float × Float :=
  (start.getD 0, stop.getD (Float.ofNat recording.size / p.rate))

def segmentRecording (s : Surroundings) (trace : Path) (settingsPath : Option Path)
    (start stop : Option Float) (overrides : Overrides) : Action m Unit := do
  let settings ← loadSettings s settingsPath
  let p := overrides.apply settings.params
  let recording ← orStop (Recording.load settings.columns trace)
  let (start, stop) := segmentBounds recording p start stop
  let window := recording.window start stop p.rate
  if window.isEmpty then
    fail s!"window {numberText start}..{numberText stop} s holds no samples"
  let result ← orBreakOff (OptionT.mk (pure (analyzeInWords? window p).run))
  let a ← orStop (pure (result.mapError .data))
  say s!"Trace: {trace.text}"
  say (s!"Samples: {a.sampleCount} ({placesText 2 window.duration} s), " ++
    s!"decimated by {a.decimationFactor}")
  a.adjustments.forM fun adjustment => warn s!"Warning: {adjustment.message}"
  say ""
  say (runLine ["Run", "Start [s]", "End [s]", "Dur [s]", "Energy [mJ]", "Early [mJ]"])
  (a.runs.zipIdx 1).forM fun (r, number) => say (runLine (runCells number r))
  say ""
  say s!"High periods power [mW]: {a.power.high.text .power}"
  say s!"Low periods power [mW]:  {a.power.low.text .power}"
  say s!"All periods power [mW]:  {a.power.all.text .power}"
  say s!"Run energy [mJ]:         {a.series.energy.text .energy}"
  say s!"Run duration [s]:        {a.series.duration.text .duration}"

def summarizeTimingLog (directory : Path) (withCrypto : Bool) : Action m Unit := do
  let (summary, counts) ← orStop (RoundTripLog.analyze directory withCrypto)
  say s!"Round trips: {directory.text}"
  say (s!"Kept {counts.kept} records, removed {counts.removed} (non-finite: " ++
    s!"{counts.nonFinite}, zero: {counts.zero}, start after end: {counts.startAfterEnd})")
  say ""
  summary.forM fun (metric, stat) =>
    say (Text.padRight 46 metric.label ++ " " ++ stat.text (.plain 3))

/-- Writes standard settings where there is no file yet. -/
def initSettings (s : Surroundings) (output : Option Path) : Action m Unit := do
  let path := output.getD s.user.settingsFile
  if ← (FileAccess.fileExists path : m Bool) then fail s!"{path.text} already exists"
  orStop ((Settings.standard s.user).saveTo path)
  say s!"Wrote default configuration to {path.text}"

def showSettings (s : Surroundings) (settingsPath : Option Path) : Action m Unit := do
  let settings ← loadSettings s settingsPath
  say "Configuration"
  say "============="
  say ""
  match settingsPath with
  | some path => say s!"Config file: {path.text}"
  | none => say s!"Config file: {Text.quoted s.user.settingsFile.text}"
  say ""
  say settings.toJson.text

def perform (s : Surroundings) : Command → Action m Unit
  | .analyze settings output methods => analyzeMethods s settings output methods
  | .segment trace settings start stop overrides =>
    segmentRecording s trace settings start stop overrides
  | .timing directory withCrypto => summarizeTimingLog directory withCrypto
  | .initSettings output => initSettings s output
  | .showSettings settings => showSettings s settings
  | .showVersion => say s!"{programName} {version}"

def usage : String :=
  "Usage: power-trace <analyze|segment|timing|init-config|config> [OPTIONS]\n"

def brokenOffCode : Nat := 101

/-- Takes a command line to its reply. -/
def respond (s : Surroundings) (arguments : List String) : m Reply := do
  match parse arguments with
  | .error .usage => return ⟨2, "", usage⟩
  | .error .help => return ⟨0, usage, ""⟩
  | .ok command =>
    let (result, t) ← (perform s command : Action m Unit).run.run ⟨"", ""⟩
    match result with
    | .ok () => return ⟨0, t.output, t.warnings⟩
    | .error (.failed failure) => return ⟨1, t.output, t.warnings ++ failure.text⟩
    | .error .brokenOff => return ⟨brokenOffCode, t.output, t.warnings⟩

end EnergyProfile.CommandLine
