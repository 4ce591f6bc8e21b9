import EnergyProfile.Csv.Record
import EnergyProfile.Decimal.Literal
import EnergyProfile.Decimal.Notation
import EnergyProfile.Files.Access
import EnergyProfile.Json.Tree

/-!
# What can go wrong

A fault says why data or settings were refused, with the values that were at fault. `Fault` covers
the data of one scenario and is stated for any number type; `Error` adds what can be wrong around
the data. The wording stands in one function for each type.
-/

namespace EnergyProfile

set_option autoImplicit false

/-- Why samples do not make a trace that can be worked on. -/
inductive Malformation (α : Type) where
  | noSamples
  | emptySegment
  | missingColumn (name : String)
  | badValue (row : Nat) (column text : String) (reason : LiteralFault)
  | emptyWindow (start stop : α) (recorded : Nat)
  | badReading (row : Nat) (text : String)
  | missingStage (stem : String)
  /-- A malformation of what stands at a path. -/
  | within (path : Path) (reason : Malformation α)
  /-- A reason in the words of whoever reports it. -/
  | stated (reason : String)

inductive ParameterFault (α : Type) where
  | rate (name : String) (value : α)
  | duration (name : String) (value : α)
  | threshold (value : α)
  | sampleRate (value : α)
  | invertedRun (start stop : Nat)
  | stated (reason : String)

inductive Fault (α : Type) where
  | malformed (reason : Malformation α)
  | lengthMismatch (expected actual : Nat)
  | invalidParameter (reason : ParameterFault α)

inductive SettingsFault where
  | unreadable (path : Path) (reason : FileFault)
  | unparsable (path : Path) (reason : JsonFault)
  | repeatedMethod (name : String)
  | backwardWindow (method : String) (scenario : Nat) (start stop : Float)
  | unknownMethod (name : String)
  | stated (reason : String)

inductive CsvFault where
  | file (reason : FileFault)
  | unequalLengths (record line offset expected found : Nat)
  | notText (record line offset field index : Nat)
  deriving DecidableEq

inductive Error where
  | data (fault : Fault Float)
  | settings (fault : SettingsFault)
  | file (fault : FileFault)
  | csv (fault : CsvFault)

def Malformation.message : Malformation Float → String
  | noSamples => "trace has no samples"
  | emptySegment => "cannot segment an empty trace"
  | missingColumn name => s!"missing column '{name}'"
  | badValue row column text reason =>
    s!"row {row}: invalid '{column}' value '{text}': {reason.message}"
  | emptyWindow start stop recorded =>
    s!"window {numberText start}..{numberText stop} s holds no samples of the " ++
      s!"{recorded}-sample recording"
  | badReading row text => s!"row {row}: bad value '{text}'"
  | missingStage stem => s!"missing {stem}.csv"
  | within path reason => s!"{path.text}: {reason.message}"
  | stated reason => reason

def ParameterFault.message : ParameterFault Float → String
  | rate name value => s!"{name} must be a positive rate, got {numberText value}"
  | duration name value => s!"{name} must be a non-negative duration, got {numberText value}"
  | threshold value => s!"thresh must be finite, got {numberText value}"
  | sampleRate value => s!"sample rate must be positive, got {numberText value}"
  | invertedRun start stop => s!"run starts at sample {start} after its end {stop}"
  | stated reason => reason

def Fault.message : Fault Float → String
  | malformed reason => "malformed trace: " ++ reason.message
  | lengthMismatch expected actual =>
    s!"length mismatch: expected {expected} samples, got {actual}"
  | invalidParameter reason => "invalid parameter: " ++ reason.message

def SettingsFault.message : SettingsFault → String
  | unreadable path reason => s!"{path.text}: {reason.message}"
  | unparsable path reason => s!"{path.text}: {reason.message}"
  | repeatedMethod name => s!"method '{name}' is listed twice"
  | backwardWindow method scenario start stop =>
    s!"{method} scenario {scenario}: window {numberText start}..{numberText stop} s " ++
      "is not a forward range"
  | unknownMethod name => s!"unknown method '{name}'"
  | stated reason => reason

def CsvFault.message : CsvFault → String
  | file reason => reason.message
  | unequalLengths record line offset expected found =>
    s!"CSV error: record {record} (line: {line}, byte: {offset}): found record with {found} " ++
      s!"fields, but the previous record has {expected} fields"
  | notText record line offset field index =>
    s!"CSV parse error: record {record} (line {line}, field: {field}, byte: {offset}): " ++
      s!"invalid utf-8: invalid UTF-8 in field {field} near byte index {index}"

def Error.message : Error → String
  | data fault => fault.message
  | settings fault => "configuration error: " ++ fault.message
  | file fault => "IO error: " ++ fault.message
  | csv fault => "CSV error: " ++ fault.message

/-- The failure that lies below an error and has a text of its own. -/
def Error.cause? : Error → Option String
  | file fault => some fault.message
  | csv fault => some fault.message
  | _ => none

/-- Whether an error concerns the data of one scenario and not its surroundings. -/
def Error.isData : Error → Bool
  | data _ => true
  | _ => false

end EnergyProfile
