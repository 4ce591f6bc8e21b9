import EnergyProfile.Files.Path

/-!
# Access to files

What the library asks of a file system: to read and write a whole file, to say what is at a path,
and to make one directory. Everything else, such as making all directories on the way to a file,
is built from these, and runs alike on a disk and on a tree in memory.
-/

namespace EnergyProfile

set_option autoImplicit false

inductive FileFault where
  | notFound
  | alreadyExists
  | notDirectory
  | isDirectory
  | nameTooLong
  | invalidName
  | notText
  | noRoot
  /-- A reason in the words of whoever reports it. -/
  | stated (reason : String)
  deriving DecidableEq

def FileFault.message : FileFault → String
  | notFound => "No such file or directory (os error 2)"
  | alreadyExists => "File exists (os error 17)"
  | notDirectory => "Not a directory (os error 20)"
  | isDirectory => "Is a directory (os error 21)"
  | nameTooLong => "File name too long (os error 36)"
  | invalidName => "file name contained an unexpected NUL byte"
  | notText => "stream did not contain valid UTF-8"
  | noRoot => "failed to create whole tree"
  | stated reason => reason

inductive Entry where
  | file
  | directory
  deriving DecidableEq

class FileAccess (m : Type → Type) where
  read : Path → m (Except FileFault ByteArray)
  write : Path → ByteArray → m (Except FileFault Unit)
  kindOf? : Path → m (Option Entry)
  makeDirectory : Path → m (Except FileFault Unit)

namespace FileAccess

variable {m : Type → Type} [Monad m] [FileAccess m]

def fileExists (path : Path) : m Bool := do
  return (← kindOf? path).isSome

/-- A file that holds text. -/
def readText (path : Path) : m (Except FileFault String) := do
  match ← read path with
  | .error fault => return .error fault
  | .ok bytes =>
    match String.fromUTF8? bytes with
    | some text => return .ok text
    | none => return .error .notText

def writeText (path : Path) (text : String) : m (Except FileFault Unit) :=
  write path text.toUTF8

/-- Ends well when a directory is there afterwards, whoever made it. -/
def settle (path : Path) (attempt : Except FileFault Unit) : m (Except FileFault Unit) := do
  match attempt with
  | .ok () => return .ok ()
  | .error fault =>
    if (← kindOf? path) = some .directory then return .ok () else return .error fault

/-- Makes a directory and what is missing above it, at most so many levels. -/
def makeDirectoriesWithin : Nat → Path → m (Except FileFault Unit)
  | 0, _ => return .error .noRoot
  | levels + 1, path => do
    if path.text = "" then return .ok ()
    match ← makeDirectory path with
    | .ok () => return .ok ()
    | .error .notFound =>
      match path.parent? with
      | none => return .error .noRoot
      | some above =>
        match ← makeDirectoriesWithin levels above with
        | .error fault => return .error fault
        | .ok () => settle path (← makeDirectory path)
    | .error fault => settle path (.error fault)

/-- Makes a directory and all that are missing above it. A path has no more levels than
characters. -/
def makeDirectories (path : Path) : m (Except FileFault Unit) :=
  makeDirectoriesWithin (path.text.length + 1) path

/-- Writes a file after making the directories it stands in. -/
def writeTextWithin (path : Path) (text : String) : m (Except FileFault Unit) := do
  match path.parent? with
  | none => writeText path text
  | some above =>
    match ← makeDirectories above with
    | .error fault => return .error fault
    | .ok () => writeText path text

end FileAccess

end EnergyProfile
