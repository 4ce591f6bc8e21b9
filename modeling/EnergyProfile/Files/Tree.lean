import EnergyProfile.Files.Access

/-!
# A file tree in memory

A tree maps the places of directories and files, each the list of names from the root, to what
stands there. Paths are resolved step by step: every place on the way has to be a directory, and
`..` leads to the place above.
-/

namespace EnergyProfile

set_option autoImplicit false

inductive Node where
  | directory
  | file (content : ByteArray)

/-- Directories and files, the latest first, and the place where relative paths begin. The root
is always there. -/
structure FileTree where
  nodes : List (List String × Node)
  working : List String

namespace FileTree

def lookup (t : FileTree) (place : List String) : Option Node :=
  if place = [] then some .directory else t.nodes.lookup place

def isDirectory (t : FileTree) (place : List String) : Bool :=
  match t.lookup place with
  | some .directory => true
  | _ => false

def insert (t : FileTree) (place : List String) (node : Node) : FileTree :=
  { t with nodes := (place, node) :: t.nodes.filter (·.1 ≠ place) }

def maxNameBytes : Nat := 255

def maxPathBytes : Nat := 4095

/-- Follows names from a place. -/
def follow (t : FileTree) : List String → List String → Except FileFault (List String)
  | place, [] => .ok place
  | place, name :: rest =>
    match t.lookup place with
    | none => .error .notFound
    | some (.file _) => .error .notDirectory
    | some .directory =>
      if maxNameBytes < name.utf8ByteSize then .error .nameTooLong
      else if name = "" ∨ name = "." then t.follow place rest
      else if name = ".." then t.follow place.dropLast rest
      else t.follow (place ++ [name]) rest

/-- Why a text is no path at all, whatever the tree. -/
def textFault? (path : Path) : Option FileFault :=
  if '\x00' ∈ path.text.toList then some .invalidName
  else if path.text = "" then some .notFound
  else if maxPathBytes < path.text.utf8ByteSize then some .nameTooLong
  else none

/-- Follows names from where a path begins. -/
def followFor (t : FileTree) (path : Path) (names : List String) :
    Except FileFault (List String) :=
  match textFault? path with
  | some fault => .error fault
  | none => t.follow (if path.isAbsolute then [] else t.working) names

/-- The place that a path names. A path that ends in a separator names what is inside. -/
def resolve (t : FileTree) (path : Path) : Except FileFault (List String) :=
  t.followFor path path.pieces

def bare (path : Path) : Path :=
  ⟨String.ofList (path.text.toList.reverse.dropWhile (· = '/')).reverse⟩

/-- The directory that the last name of a path is looked up in. -/
def resolveAbove (t : FileTree) (path : Path) : Except FileFault (List String) :=
  t.followFor path ((bare path).pieces.dropLast ++ [""])

def node? (t : FileTree) (path : Path) : Except FileFault Node :=
  match t.resolve path with
  | .error fault => .error fault
  | .ok place =>
    match t.lookup place with
    | some node => .ok node
    | none => .error .notFound

def read (t : FileTree) (path : Path) : Except FileFault ByteArray :=
  match t.node? path with
  | .error fault => .error fault
  | .ok .directory => .error .isDirectory
  | .ok (.file content) => .ok content

def kindOf? (t : FileTree) (path : Path) : Option Entry :=
  match t.node? path with
  | .error _ => none
  | .ok .directory => some .directory
  | .ok (.file _) => some .file

/-- A file is made or replaced in a directory that is there. A path that ends in a separator can
only name a directory, so nothing is written and its last name is not even looked up. -/
def write (t : FileTree) (path : Path) (content : ByteArray) : Except FileFault FileTree :=
  if path = bare path then
    match t.resolve path with
    | .error fault => .error fault
    | .ok place =>
      match t.lookup place with
      | some .directory => .error .isDirectory
      | _ => .ok (t.insert place (.file content))
  else
    match t.resolveAbove path with
    | .error fault => .error fault
    | .ok _ => .error .isDirectory

/-- A new directory in one that is there. A separator at the end of its path means nothing. -/
def makeDirectory (t : FileTree) (path : Path) : Except FileFault FileTree :=
  match t.followFor path (bare path).pieces with
  | .error fault => .error fault
  | .ok place =>
    match t.lookup place with
    | some _ => .error .alreadyExists
    | none => .ok (t.insert place .directory)

end FileTree

/-- An operation that may change a tree, as a step that leaves it alone when it fails. -/
def FileTree.attempt (result : Except FileFault FileTree) :
    StateM FileTree (Except FileFault Unit) := do
  match result with
  | .ok tree => set tree; return .ok ()
  | .error fault => return .error fault

instance : FileAccess (StateM FileTree) where
  read path := return (← get).read path
  write path content := do FileTree.attempt ((← get).write path content)
  kindOf? path := return (← get).kindOf? path
  makeDirectory path := do FileTree.attempt ((← get).makeDirectory path)

end EnergyProfile
