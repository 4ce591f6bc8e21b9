import EnergyProfile.Json.Printing
import EnergyProfile.Json.Reading
import EnergyProfile.Settings

/-!
# Settings files

Settings are kept as JSON. What a file leaves out has the standard value, except that a method
needs its name, recording and scenarios, a scenario its bounds, and parameters and columns are
given all or none. Relative paths in a file are seen from the directory of the file.
-/

namespace EnergyProfile

set_option autoImplicit false

open Json (Field field)

def Params.toJson (p : Params Float) : Json :=
  .record [
    ("fs", .ofFloat p.rate),
    ("target_fs", .ofFloat p.targetRate),
    ("smooth_s", .ofFloat p.smoothing),
    ("thresh", .ofFloat p.threshold),
    ("min_gap_s", .ofFloat p.shortestGap),
    ("early_window_ms", .ofFloat p.earlyWindow)]

def Columns.toJson (c : Columns) : Json :=
  .record [("value", .string c.value), ("timestamp", .string c.timestamp)]

def Path.toJson (p : Path) : Json := .string p.text

/-- The recording of a scenario is left out when it is that of the method. -/
def Scenario.toJson (s : Scenario) : Json :=
  .record ([("start_s", .ofFloat s.start), ("end_s", .ofFloat s.stop)] ++
    (s.recording.map fun p => ("recording", p.toJson)).toList)

def Method.toJson (method : Method) : Json :=
  .record [
    ("name", .string method.name),
    ("recording", method.recording.toJson),
    ("scenarios", .list (method.scenarios.map Scenario.toJson))]

def ReportStyle.toJson (r : ReportStyle) : Json :=
  .record [
    ("calibration_scenarios", .ofNat r.calibrationScenarios),
    ("exclude_columns", .list (r.excludedColumns.map Json.string)),
    ("marker", .string r.marker),
    ("output_dir", r.outputDirectory.toJson)]

def Settings.toJson (s : Settings) : Json :=
  .record [
    ("segmentation", s.params.toJson),
    ("columns", s.columns.toJson),
    ("methods", .list (s.methods.map Method.toJson)),
    ("report", s.report.toJson)]

def Path.ofJson (json : Json) : Except JsonFault Path :=
  json.toText.map Path.mk

def Params.ofJson (json : Json) : Except JsonFault (Params Float) := do
  let f ← Json.fields [
    field "fs" Json.toFloat,
    field "target_fs" Json.toFloat,
    field "smooth_s" Json.toFloat,
    field "thresh" Json.toFloat,
    field "min_gap_s" Json.toFloat,
    field "early_window_ms" Json.toFloat] json
  return {
    rate := ← f.required "fs" Json.toFloat
    targetRate := ← f.required "target_fs" Json.toFloat
    smoothing := ← f.required "smooth_s" Json.toFloat
    threshold := ← f.required "thresh" Json.toFloat
    shortestGap := ← f.required "min_gap_s" Json.toFloat
    earlyWindow := ← f.required "early_window_ms" Json.toFloat }

def Columns.ofJson (json : Json) : Except JsonFault Columns := do
  let f ← Json.fields [field "value" Json.toText, field "timestamp" Json.toText] json
  return ⟨← f.required "value" Json.toText, ← f.required "timestamp" Json.toText⟩

def Scenario.ofJson (json : Json) : Except JsonFault Scenario := do
  let recording := Json.toOption Path.ofJson
  let f ← Json.fields [
    field "start_s" Json.toFloat,
    field "end_s" Json.toFloat,
    field "recording" recording] json
  return {
    start := ← f.required "start_s" Json.toFloat
    stop := ← f.required "end_s" Json.toFloat
    recording := ← f.optional "recording" recording none }

def Method.ofJson (json : Json) : Except JsonFault Method := do
  let scenarios := Json.toList Scenario.ofJson
  let f ← Json.fields [
    field "name" Json.toText,
    field "recording" Path.ofJson,
    field "scenarios" scenarios] json
  return {
    name := ← f.required "name" Json.toText
    recording := ← f.required "recording" Path.ofJson
    scenarios := ← f.required "scenarios" scenarios }

def ReportStyle.ofJson (standard : ReportStyle) (json : Json) : Except JsonFault ReportStyle := do
  let columns := Json.toList Json.toText
  let f ← Json.fields [
    field "calibration_scenarios" Json.toCount,
    field "exclude_columns" columns,
    field "marker" Json.toText,
    field "output_dir" Path.ofJson] json
  return {
    calibrationScenarios :=
      ← f.optional "calibration_scenarios" Json.toCount standard.calibrationScenarios
    excludedColumns := ← f.optional "exclude_columns" columns standard.excludedColumns
    marker := ← f.optional "marker" Json.toText standard.marker
    outputDirectory := ← f.optional "output_dir" Path.ofJson standard.outputDirectory }

/-- Settings without methods have none. -/
def Settings.ofJson (user : UserDirectories) (json : Json) : Except JsonFault Settings := do
  let methods := Json.toList Method.ofJson
  let report := ReportStyle.ofJson (.standard user)
  let f ← Json.fields [
    field "segmentation" Params.ofJson,
    field "columns" Columns.ofJson,
    field "methods" methods,
    field "report" report] json
  return {
    params := ← f.optional "segmentation" Params.ofJson .standard
    columns := ← f.optional "columns" Columns.ofJson .standard
    methods := ← f.optional "methods" methods []
    report := ← f.optional "report" report (.standard user) }

namespace Settings

variable {m : Type → Type} [Monad m] [FileAccess m]

def ofText (user : UserDirectories) (path : Path) (text : String) : Except Error Settings := do
  let written ← (Json.readText (ofJson user) text).mapError fun fault =>
    .settings (.unparsable path fault)
  let resolved :=
    match path.parent? with
    | some base => written.resolve base
    | none => written
  resolved.validate
  return resolved

def loadFrom (user : UserDirectories) (path : Path) : m (Except Error Settings) := do
  match ← FileAccess.readText path with
  | .error fault => return .error (.settings (.unreadable path fault))
  | .ok text => return ofText user path text

/-- The settings of a user, standard ones if there is no file. -/
def load (user : UserDirectories) : m (Except Error Settings) := do
  if ← FileAccess.fileExists user.settingsFile then loadFrom user user.settingsFile
  else return .ok (.standard user)

/-- Writes settings to a file, with the directories on the way to it. -/
def saveTo (s : Settings) (path : Path) : m (Except Error Unit) := do
  return (← FileAccess.writeTextWithin path s.toJson.text).mapError .file

end Settings

end EnergyProfile
