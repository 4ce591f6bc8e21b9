import EnergyProfile.CommandLine.Action
import Std.Time.Format

/-!
# The program

The outer layer: files on a disk, the environment, the clock, and the two channels of a process.
-/

namespace EnergyProfile

set_option autoImplicit false

/-- The number of a failure. Some of them arrive with the opposite sign, in thirty-two bits. -/
def failureNumber (code : UInt32) : Nat :=
  if code.toNat < 2147483648 then code.toNat else 4294967296 - code.toNat

/-- A failure by its number, or in the words of the system if the library has no name for it. -/
def faultOfCode (code : UInt32) (details : String) : FileFault :=
  match failureNumber code with
  | 2 => .notFound
  | 17 => .alreadyExists
  | 20 => .notDirectory
  | 21 => .isDirectory
  | 36 => .nameTooLong
  | number => .stated s!"{details.capitalize} (os error {number})"

def faultOf : IO.Error → FileFault
  | .noFileOrDirectory _ code details => faultOfCode code details
  | .alreadyExists _ code details => faultOfCode code details
  | .inappropriateType _ code details => faultOfCode code details
  | .invalidArgument _ code details => faultOfCode code details
  | .permissionDenied _ code details => faultOfCode code details
  | .resourceExhausted _ code details => faultOfCode code details
  | .otherError code details => faultOfCode code details
  | other => .stated other.toString

/-- The result of an action on the disk. A path has a name to act on. -/
def onDisk {β : Type} (path : Path) (action : IO β) : IO (Except FileFault β) := do
  if path.text = "" then return .error .notFound
  if path.text.contains '\x00' then return .error .invalidName
  try return .ok (← action)
  catch e => return .error (faultOf e)

instance : FileAccess IO where
  read path := onDisk path do IO.FS.readBinFile ((← IO.currentDir) / path.text)
  write path content := onDisk path do IO.FS.writeBinFile ((← IO.currentDir) / path.text) content
  makeDirectory path := onDisk path do IO.FS.createDir ((← IO.currentDir) / path.text)
  kindOf? path := do
    match ← onDisk path do ((← IO.currentDir) / path.text).metadata with
    | .error _ => return none
    | .ok found => return some (if found.type == .dir then .directory else .file)

def readClock : IO Moment := do
  let now ← Std.Time.Timestamp.now
  let utc := Std.Time.DateTime.ofTimestamp now Std.Time.TimeZone.ZoneRules.UTC
  return ⟨utc.format "uuuu-MM-dd'T'HH:mm:ss.SSSSSSSSS'Z'", now.toSecondsSinceUnixEpoch.val⟩

/-- Sixteen bytes as a random identifier: version four, in groups of hexadecimal digits. -/
def identifier (bytes : List UInt8) : String :=
  let nibbles := bytes.zipIdx.flatMap fun (b, i) =>
    let n := if i = 6 then 0x40 + b.toNat % 16 else if i = 8 then 0x80 + b.toNat % 64 else b.toNat
    [Json.hexadecimal (n / 16), Json.hexadecimal (n % 16)]
  String.ofList (nibbles.zipIdx.flatMap fun (c, i) =>
    if i = 8 ∨ i = 12 ∨ i = 16 ∨ i = 20 then ['-', c] else [c])

/-- A directory from the environment if it is absolute, else one in the home directory. -/
def directoryOf (key : String) (home : Path) (below : String) : IO Path := do
  match ← IO.getEnv key with
  | some text =>
    let path : Path := ⟨text⟩
    return if path.isAbsolute then path else home.join ⟨below⟩
  | none => return home.join ⟨below⟩

def readUser : IO UserDirectories := do
  let home : Path := ⟨(← IO.getEnv "HOME").getD "."⟩
  return ⟨← directoryOf "XDG_DATA_HOME" home ".local/share",
    ← directoryOf "XDG_CONFIG_HOME" home ".config"⟩

end EnergyProfile

open EnergyProfile in
def main (arguments : List String) : IO UInt32 := do
  let batch := identifier (← IO.getRandomBytes 16).toList
  let surroundings : CommandLine.Surroundings := ⟨← readUser, ← readClock, batch⟩
  let reply ← CommandLine.respond surroundings arguments
  (← IO.getStdout).putStr reply.output
  (← IO.getStderr).putStr reply.errors
  return reply.code.toUInt32
