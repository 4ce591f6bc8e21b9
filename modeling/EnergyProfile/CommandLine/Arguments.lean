import EnergyProfile.Decimal.Literal
import EnergyProfile.Files.Path

/-!
# Arguments

A command line names a command, then its options and operands in any order. An option may be
written with its value in one argument or in two, a long one with an equals sign between them. An
argument that looks like an option is never taken for a value, and two dashes end the options.
Options that are not repeatable may come once.
-/

namespace EnergyProfile.CommandLine

set_option autoImplicit false

inductive Content where
  | text
  | path
  | number
  deriving DecidableEq

/-- A path is not empty, and a number is a decimal literal. -/
def Content.accepts : Content → String → Bool
  | text, _ => true
  | path, value => value ≠ ""
  | number, value => (readNumber value).isOk

inductive OptionKind where
  | flag
  | value (content : Content)
  | values (content : Content)
  deriving DecidableEq

def OptionKind.isRepeatable : OptionKind → Bool
  | values _ => true
  | _ => false

def OptionKind.accepts : OptionKind → String → Bool
  | flag, _ => true
  | value content, text | values content, text => content.accepts text

structure OptionSpec where
  long : String
  short : Option Char
  kind : OptionKind

/-- What may follow the name of a command. -/
structure Grammar where
  options : List OptionSpec
  /-- How many operands there may be. Each of them is a path. -/
  operands : Nat

/-- Options with their values in order, and operands. A flag has an empty value. -/
structure Parsed where
  options : List (String × String)
  operands : List String

/-- Why arguments were not taken. Asking for help is one of the reasons. -/
inductive Refusal where
  | usage
  | help
  deriving DecidableEq

namespace Parsed

def empty : Parsed := ⟨[], []⟩

/-- Adds an option if it may come now and its value will do. -/
def add (p : Parsed) (spec : OptionSpec) (value : String) : Except Refusal Parsed :=
  if !spec.kind.isRepeatable && (p.options.lookup spec.long).isSome then .error .usage
  else if spec.kind.accepts value then
    .ok { p with options := p.options ++ [(spec.long, value)] }
  else .error .usage

/-- Adds an operand if there may be one more. -/
def addOperand (limit : Nat) (p : Parsed) (operand : String) : Except Refusal Parsed :=
  if p.operands.length < limit && Content.path.accepts operand then
    .ok { p with operands := p.operands ++ [operand] }
  else .error .usage

def value? (p : Parsed) (name : String) : Option String :=
  p.options.lookup name

def path? (p : Parsed) (name : String) : Option Path :=
  (p.value? name).map Path.mk

def number? (p : Parsed) (name : String) : Option Float :=
  (p.value? name).bind fun text => (readNumber text).toOption

def values (p : Parsed) (name : String) : List String :=
  p.options.filterMap fun (key, value) => if key = name then some value else none

def isSet (p : Parsed) (name : String) : Bool :=
  (p.value? name).isSome

end Parsed

inductive Form where
  | endOfOptions
  | long (name : String) (attached : Option String)
  | short (letter : Char) (rest : List Char)
  | plain

def formOf (argument : String) : Form :=
  match argument.toList with
  | ['-', '-'] => .endOfOptions
  | '-' :: '-' :: body =>
    match body.span (· ≠ '=') with
    | (name, _ :: value) => .long (String.ofList name) (some (String.ofList value))
    | (name, []) => .long (String.ofList name) none
  | '-' :: letter :: rest => .short letter rest
  | _ => .plain

def isPlain (argument : String) : Bool :=
  match formOf argument with
  | .plain => true
  | _ => false

/-- A value attached to a short option, perhaps by an equals sign. -/
def attachedValue : List Char → Option String
  | [] => none
  | '=' :: value => some (String.ofList value)
  | value => some (String.ofList value)

/-- An option with the value attached to it, or with the next argument as its value. -/
def takeOption (spec : OptionSpec) (attached : Option String) (rest : List String) :
    Except Refusal (String × List String) :=
  match spec.kind, attached, rest with
  | .flag, none, _ => .ok ("", rest)
  | .flag, some _, _ => .error .usage
  | _, some value, _ => .ok (value, rest)
  | _, none, value :: rest => if isPlain value then .ok (value, rest) else .error .usage
  | _, none, [] => .error .usage

theorem length_of_takeOption {spec : OptionSpec} {attached : Option String}
    {rest left : List String} {value : String}
    (h : takeOption spec attached rest = .ok (value, left)) : left.length ≤ rest.length := by
  unfold takeOption at h
  split at h
  · cases h; exact Nat.le_refl _
  · cases h
  · cases h; exact Nat.le_refl _
  · split at h
    · cases h; exact Nat.le_succ _
    · cases h
  · cases h

def parseArguments (grammar : Grammar) (parsed : Parsed) :
    List String → Except Refusal Parsed
  | [] => .ok parsed
  | argument :: rest =>
    let option (spec? : Option OptionSpec) (attached : Option String) (isHelp : Bool) :
        Except Refusal Parsed :=
      match spec? with
      | none => .error (if isHelp then .help else .usage)
      | some spec =>
        match h : takeOption spec attached rest with
        | .error refusal => .error refusal
        | .ok (value, left) =>
          have := length_of_takeOption h
          match parsed.add spec value with
          | .error refusal => .error refusal
          | .ok parsed => parseArguments grammar parsed left
    match formOf argument with
    | .endOfOptions => rest.foldlM (Parsed.addOperand grammar.operands) parsed
    | .long name attached =>
      option (grammar.options.find? (·.long = name)) attached (name = "help" ∧ attached = none)
    | .short letter tail =>
      option (grammar.options.find? (·.short = some letter)) (attachedValue tail) (letter = 'h')
    | .plain =>
      match parsed.addOperand grammar.operands argument with
      | .error refusal => .error refusal
      | .ok parsed => parseArguments grammar parsed rest
termination_by arguments => arguments.length

end EnergyProfile.CommandLine
