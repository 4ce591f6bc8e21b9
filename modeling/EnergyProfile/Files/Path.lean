/-!
# Paths

A path is kept as it is written, for messages show it that way. Its components are what it names:
separators in a row count once, and a dot names nothing new except at the very start. Paths that are
no Unicode text are left out. A command line or an environment can name one, but settings that hold
it cannot be saved.
-/

namespace EnergyProfile

set_option autoImplicit false

/-- A path as written, in Unicode. -/
structure Path where
  text : String
  deriving DecidableEq, Inhabited

namespace Path

instance : ToString Path := ⟨Path.text⟩

def isAbsolute (p : Path) : Bool :=
  p.text.toList.head? == some '/'

def pieces (p : Path) : List String :=
  (p.text.toList.splitOn '/').map String.ofList

/-- The names on the way, where `.` counts only at the start of a relative path. -/
def components (p : Path) : List String :=
  let named := p.pieces.filter fun c => c ≠ "" ∧ c ≠ "."
  if p.pieces.head? = some "." then "." :: named else named

/-- Two ways to write one path. -/
def same (p q : Path) : Bool :=
  p.isAbsolute == q.isAbsolute && p.components == q.components

/-- A path seen from a directory: an absolute one stands for itself, any other is appended. -/
def join (base p : Path) : Path :=
  if p.isAbsolute then p
  else if base.text = "" ∨ base.text.toList.getLast? = some '/' then ⟨base.text ++ p.text⟩
  else ⟨base.text ++ "/" ++ p.text⟩

/-- From the right: separators, and dots between them, that name nothing. -/
def dropIdle : List Char → List Char
  | '/' :: rest => dropIdle rest
  | '.' :: '/' :: rest => dropIdle ('/' :: rest)
  | rest => rest
termination_by s => s.length

/-- The path without its last component, if it has one. -/
def parent? (p : Path) : Option Path :=
  match dropIdle p.text.toList.reverse with
  | [] => none
  | last =>
    let above := last.dropWhile (· ≠ '/')
    match dropIdle above with
    | [] => some ⟨if above = [] then "" else "/"⟩
    | rest => some ⟨String.ofList rest.reverse⟩

@[simp] theorem join_of_isAbsolute (base p : Path) (h : p.isAbsolute = true) :
    base.join p = p := by
  simp [join, h]

end Path

end EnergyProfile
