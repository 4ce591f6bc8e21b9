import EnergyProfile.Csv.Reading
import EnergyProfile.Trace

/-!
# Recordings in files

A recording is a table with a header. Of its columns only two are read, the value and the time.
-/

namespace EnergyProfile

set_option autoImplicit false

structure Columns where
  value : String
  timestamp : String
  deriving DecidableEq

def Columns.standard : Columns := ⟨"Value", "Timestamp"⟩

namespace Recording

def findColumn (names : List String) (name : String) : Except Error Nat :=
  match names.findIdx? (· = name) with
  | some i => .ok i
  | none => .error (.data (.malformed (.missingColumn name)))

/-- The number in a field of a row. -/
def readField (fields : List String) (index : Nat) (column : String) (row : Nat) :
    Except Error Float :=
  let text := fields.getD index ""
  match readNumber text with
  | .ok x => .ok x
  | .error reason => .error (.data (.malformed (.badValue row column text reason)))

/-- The time and the value in a row. The time is read first. -/
def readSample (columns : Columns) (valueIndex timeIndex row : Nat) (fields : List String) :
    Except Error (Sample Float) := do
  let time ← readField fields timeIndex columns.timestamp row
  let value ← readField fields valueIndex columns.value row
  return ⟨time, value⟩

/-- The recording in the bytes of a file. The value column is looked up first. -/
def ofBytes (columns : Columns) (bytes : ByteArray) : Except Error (Recording Float) := do
  let (names, records) ← (Csv.header bytes).mapError .csv
  let valueIndex ← findColumn names columns.value
  let timeIndex ← findColumn names columns.timestamp
  let samples ← Csv.readRows names.length (readSample columns valueIndex timeIndex) records
  (ofSamples samples).mapError .data

variable {m : Type → Type} [Monad m] [FileAccess m]

/-- Adds to a malformation of data the path of the file that it was found in. -/
def inFile (path : Path) : Error → Error
  | .data (.malformed reason) => .data (.malformed (.within path reason))
  | other => other

/-- What a file is for a reader of tables: a directory can be opened but not read. -/
def openTable (path : Path) : m (Except Error ByteArray) := do
  match ← FileAccess.read path with
  | .ok bytes => return .ok bytes
  | .error .isDirectory => return .error (.csv (.file .isDirectory))
  | .error fault => return .error (.file fault)

def load (columns : Columns) (path : Path) : m (Except Error (Recording Float)) := do
  match ← openTable path with
  | .error e => return .error e
  | .ok bytes => return (ofBytes columns bytes).mapError (inFile path)

end Recording

end EnergyProfile
