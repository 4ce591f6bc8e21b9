import EnergyProfile.Csv.Reading
import EnergyProfile.Timing

/-!
# Round-trip logs

A log is a directory with a table for each stage; row `i` of every table belongs to round trip
`i`. Six stages have to be there. The crypto stages of a side count only as a pair. A table may
be shorter than others: what it lacks is a span that was not logged.
-/

namespace EnergyProfile

set_option autoImplicit false

abbrev StageLog := List (ClockSpan Float)

structure RoundTripLog where
  whole : StageLog
  sensorSend : StageLog
  sensorReceive : StageLog
  gatewayOutbound : StageLog
  gatewayInbound : StageLog
  storage : StageLog
  sensorCrypto : Option (StageLog × StageLog)
  storageCrypto : Option (StageLog × StageLog)

namespace StageLog

def startColumn : String := "Start_Time"

def endColumn : String := "End_Time"

def malformed {β : Type} (path : Path) (reason : Malformation Float) : Except Error β :=
  .error (.data (.malformed (.within path reason)))

def findColumn (path : Path) (names : List String) (name : String) : Except Error Nat :=
  match names.findIdx? (· = name) with
  | some i => .ok i
  | none => malformed path (.missingColumn name)

/-- A clock reading. An empty field is one that was not taken. -/
def readField (path : Path) (row : Nat) (text : String) : Except Error Float :=
  if text = "" then .ok Scalar.undefined
  else
    match readNumber text with
    | .ok x => .ok x
    | .error _ => malformed path (.badReading row text)

def readSpan (path : Path) (startIndex endIndex row : Nat) (fields : List String) :
    Except Error (ClockSpan Float) := do
  let start ← readField path row (fields.getD startIndex "")
  let stop ← readField path row (fields.getD endIndex "")
  return ⟨start, stop⟩

/-- The spans in the bytes of a table. The path is named in faults. -/
def ofBytes (path : Path) (bytes : ByteArray) : Except Error StageLog := do
  let (names, records) ← (Csv.header bytes).mapError .csv
  let startIndex ← findColumn path names startColumn
  let endIndex ← findColumn path names endColumn
  Csv.readRows names.length (readSpan path startIndex endIndex) records

/-- The span in a row, or one that was not logged. -/
def row (log : StageLog) (i : Nat) : ClockSpan Float :=
  log.getD i ClockSpan.missing

end StageLog

namespace RoundTripLog

def pairLength : Option (StageLog × StageLog) → Nat
  | some (encrypt, decrypt) => max encrypt.length decrypt.length
  | none => 0

def length (log : RoundTripLog) : Nat :=
  [log.whole.length, log.sensorSend.length, log.sensorReceive.length,
    log.gatewayOutbound.length, log.gatewayInbound.length, log.storage.length,
    pairLength log.sensorCrypto, pairLength log.storageCrypto].foldl max 0

def cryptoRow (pair : Option (StageLog × StageLog)) (i : Nat) : Option (CryptoSpans Float) :=
  pair.map fun (encrypt, decrypt) => ⟨StageLog.row encrypt i, StageLog.row decrypt i⟩

def trip (log : RoundTripLog) (i : Nat) : RoundTrip Float where
  whole := StageLog.row log.whole i
  sensorSend := StageLog.row log.sensorSend i
  sensorReceive := StageLog.row log.sensorReceive i
  gatewayOutbound := StageLog.row log.gatewayOutbound i
  gatewayInbound := StageLog.row log.gatewayInbound i
  storage := StageLog.row log.storage i
  sensorCrypto := cryptoRow log.sensorCrypto i
  storageCrypto := cryptoRow log.storageCrypto i

def trips (log : RoundTripLog) : List (RoundTrip Float) :=
  (List.range log.length).map log.trip

section Loading

variable {m : Type → Type} [Monad m] [FileAccess m]

def stagePath (directory : Path) (stage : Stage) : Path :=
  directory.join ⟨stage.fileStem ++ ".csv"⟩

def stage? (directory : Path) (stage : Stage) : m (Except Error (Option StageLog)) := do
  let path := stagePath directory stage
  if ← FileAccess.fileExists path then
    match ← FileAccess.read path with
    | .error fault => return .error (.csv (.file fault))
    | .ok bytes => return (StageLog.ofBytes path bytes).map some
  else return .ok none

def required (directory : Path) (stage : Stage) : ExceptT Error m StageLog := do
  match ← ExceptT.mk (stage? directory stage) with
  | some log => return log
  | none => throw (.data (.malformed (.within directory (.missingStage stage.fileStem))))

/-- The tables of a pair of crypto stages, if both are there and wanted. Both are read before it
is asked whether they are a pair. -/
def pair? (directory : Path) (withCrypto : Bool) (first second : Stage) :
    ExceptT Error m (Option (StageLog × StageLog)) := do
  if withCrypto then
    let encrypted ← ExceptT.mk (stage? directory first)
    let decrypted ← ExceptT.mk (stage? directory second)
    return encrypted.bind fun e => decrypted.map fun d => (e, d)
  else return none

/-- The tables of a log directory, in the order in which they are read. -/
def load (directory : Path) (withCrypto : Bool) : ExceptT Error m RoundTripLog := do
  let whole ← required directory .whole
  let sensorSend ← required directory .sensorSend
  let sensorReceive ← required directory .sensorReceive
  let gatewayOutbound ← required directory .gatewayOutbound
  let gatewayInbound ← required directory .gatewayInbound
  let storage ← required directory .storage
  let sensorCrypto ← pair? directory withCrypto .encrypt .decrypt
  let storageCrypto ← pair? directory withCrypto .storageEncrypt .storageDecrypt
  return ⟨whole, sensorSend, sensorReceive, gatewayOutbound, gatewayInbound, storage,
    sensorCrypto, storageCrypto⟩

/-- The round trips of a log directory. -/
def loadTrips (directory : Path) (withCrypto : Bool) :
    m (Except Error (List (RoundTrip Float))) := do
  return (← (load directory withCrypto).run).map trips

/-- The summary of the valid round trips of a log directory, and the count of the others. -/
def analyze (directory : Path) (withCrypto : Bool) :
    m (Except Error (List (TimingMetric × Stat Float) × Rejections)) := do
  return (← loadTrips directory withCrypto).map fun trips =>
    let (kept, counts) := filterValid trips
    (summarizeTiming kept, counts)

end Loading

end RoundTripLog

end EnergyProfile
