import EnergyProfile.Files.Path
import EnergyProfile.Report
import EnergyProfile.TraceFile

/-!
# Settings

Settings name the encryption methods to profile, each with a recording and the scenario windows in
it, and say how recordings are divided and reports are made.
-/

namespace EnergyProfile

set_option autoImplicit false

/-- A window of a recording, in seconds from its start. -/
structure Scenario where
  start : Float
  stop : Float
  /-- The recording to cut from, if it is not the one of the method. -/
  recording : Option Path

/-- A method, its recording and its scenarios, which are counted from one. -/
structure Method where
  name : String
  recording : Path
  scenarios : List Scenario

namespace Method

def recordingOf (method : Method) (scenario : Scenario) : Path :=
  scenario.recording.getD method.recording

/-- The recording of a scenario by its position, counted from zero. -/
def recordingAt? (method : Method) (index : Nat) : Option Path :=
  method.scenarios[index]?.map method.recordingOf

end Method

structure ReportStyle where
  /-- Leading scenarios that only calibrate and are masked. -/
  calibrationScenarios : Nat
  /-- Columns that are reported for calibration scenarios too. -/
  excludedColumns : List String
  marker : String
  outputDirectory : Path

structure Settings where
  params : Params Float
  columns : Columns
  methods : List Method
  report : ReportStyle

structure UserDirectories where
  data : Path
  settings : Path

namespace UserDirectories

def ours (directory : Path) : Path :=
  directory.join ⟨"power-trace-analyzer"⟩

def reports (user : UserDirectories) : Path :=
  (ours user.data).join ⟨"reports"⟩

def settingsFile (user : UserDirectories) : Path :=
  (ours user.settings).join ⟨"config.json"⟩

end UserDirectories

def notApplicable : String := "Not applicable"

def ReportStyle.standard (user : UserDirectories) : ReportStyle where
  calibrationScenarios := 4
  excludedColumns := [Metric.allPower.column 0]
  marker := notApplicable
  outputDirectory := user.reports

namespace Settings

/-- Settings to start from, with one method without encryption. -/
def standard (user : UserDirectories) : Settings where
  params := .standard
  columns := .standard
  methods := [
    { name := "NONE"
      recording := ⟨"energy_consumption/none/Main power - Arc.csv"⟩
      scenarios := [⟨14, 114, none⟩] }]
  report := .standard user

/-- A window that runs forward from the start of the recording or later. -/
def isForward (s : Scenario) : Bool :=
  s.start.isFinite && s.stop.isFinite && 0 ≤ s.start && s.start < s.stop

/-- The first window of a method that does not run forward, with its number. -/
def backwardWindow? (method : Method) : Option SettingsFault :=
  (method.scenarios.zipIdx 1).findSome? fun (s, number) =>
    if isForward s then none else some (.backwardWindow method.name number s.start s.stop)

/-- The first fault of methods that follow methods of known names. -/
def methodsFault? : (known : List String) → List Method → Option SettingsFault
  | _, [] => none
  | known, method :: rest =>
    if known.contains method.name then some (.repeatedMethod method.name)
    else (backwardWindow? method).or (methodsFault? (method.name :: known) rest)

/-- Parameters are checked first, then the methods in order: the name of each, then its windows. -/
def validate (s : Settings) : Except Error Unit :=
  match s.params.validate with
  | .error reason => .error (.data (.invalidParameter reason))
  | .ok () =>
    match methodsFault? [] s.methods with
    | some fault => .error (.settings fault)
    | none => .ok ()

def findMethod (s : Settings) (name : String) : Except Error Method :=
  match s.methods.find? (·.name = name) with
  | some method => .ok method
  | none => .error (.settings (.unknownMethod name))

/-- The methods of some names, in the order of the names; all methods without any names. -/
def select (s : Settings) (names : List String) : Except Error (List Method) :=
  if names = [] then .ok s.methods else names.mapM s.findMethod

def scenarioCount (s : Settings) : Nat :=
  (s.methods.map fun method => method.scenarios.length).foldl max 0

/-- A scenario whose recording is seen from a directory. -/
def resolveScenario (base : Path) (s : Scenario) : Scenario :=
  { s with recording := s.recording.map base.join }

def resolveMethod (base : Path) (method : Method) : Method :=
  { method with
    recording := base.join method.recording
    scenarios := method.scenarios.map (resolveScenario base) }

/-- Settings whose paths are seen from a directory. -/
def resolve (base : Path) (s : Settings) : Settings :=
  { s with
    methods := s.methods.map (resolveMethod base)
    report := { s.report with outputDirectory := base.join s.report.outputDirectory } }

end Settings

end EnergyProfile
