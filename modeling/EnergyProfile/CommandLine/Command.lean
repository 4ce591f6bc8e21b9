import EnergyProfile.CommandLine.Arguments

/-!
# The command that is asked for

Each command has options of its own. A command line is refused as a whole, before anything is
done, so a command that is asked for has all it needs.
-/

namespace EnergyProfile.CommandLine

set_option autoImplicit false

/-- Parameters that take the place of those in the settings. -/
structure Overrides where
  rate : Option Float
  targetRate : Option Float
  smoothing : Option Float
  threshold : Option Float
  shortestGap : Option Float
  earlyWindow : Option Float

inductive Command where
  | analyze (settings output : Option Path) (methods : List String)
  | segment (trace : Path) (settings : Option Path) (start stop : Option Float)
      (overrides : Overrides)
  | timing (directory : Path) (withCrypto : Bool)
  | initSettings (output : Option Path)
  | showSettings (settings : Option Path)
  | showVersion

/-- The operand of a command that has to have one. -/
def Parsed.operand (p : Parsed) : Except Refusal Path :=
  match p.operands with
  | [operand] => .ok ⟨operand⟩
  | _ => .error .usage

def settingsOption : OptionSpec := ⟨"config", some 'c', .value .path⟩

def outputOption : OptionSpec := ⟨"output", some 'o', .value .path⟩

def methodOption : OptionSpec := ⟨"method", some 'm', .values .text⟩

def numberOption (name : String) : OptionSpec := ⟨name, none, .value .number⟩

def parseAnalyze (arguments : List String) : Except Refusal Command := do
  let p ← parseArguments ⟨[settingsOption, outputOption, methodOption], 0⟩ .empty arguments
  return .analyze (p.path? "config") (p.path? "output") (p.values "method")

def segmentNumbers : List String :=
  ["start-s", "end-s", "fs", "target-fs", "smooth-s", "thresh", "min-gap-s", "early-window-ms"]

def parseSegment (arguments : List String) : Except Refusal Command := do
  let p ← parseArguments ⟨settingsOption :: segmentNumbers.map numberOption, 1⟩ .empty arguments
  let overrides : Overrides := {
    rate := p.number? "fs"
    targetRate := p.number? "target-fs"
    smoothing := p.number? "smooth-s"
    threshold := p.number? "thresh"
    shortestGap := p.number? "min-gap-s"
    earlyWindow := p.number? "early-window-ms" }
  return .segment (← p.operand) (p.path? "config") (p.number? "start-s") (p.number? "end-s")
    overrides

def parseTiming (arguments : List String) : Except Refusal Command := do
  let p ← parseArguments ⟨[⟨"no-crypto", none, .flag⟩], 1⟩ .empty arguments
  return .timing (← p.operand) (!p.isSet "no-crypto")

def parseInitSettings (arguments : List String) : Except Refusal Command := do
  let p ← parseArguments ⟨[outputOption], 0⟩ .empty arguments
  return .initSettings (p.path? "output")

def parseShowSettings (arguments : List String) : Except Refusal Command := do
  let p ← parseArguments ⟨[settingsOption], 0⟩ .empty arguments
  return .showSettings (p.path? "config")

/-- The names that help may be asked about. -/
def topics : List String :=
  ["analyze", "segment", "timing", "init-config", "config", "help"]

/-- Help is about the whole program or about one topic. -/
def parseHelp : List String → Refusal
  | [] => .help
  | [topic] => if topics.contains topic then .help else .usage
  | _ => .usage

def parse : List String → Except Refusal Command
  | [] => .error .usage
  | first :: rest =>
    match first with
    | "analyze" => parseAnalyze rest
    | "segment" => parseSegment rest
    | "timing" => parseTiming rest
    | "init-config" => parseInitSettings rest
    | "config" => parseShowSettings rest
    | "help" => .error (parseHelp rest)
    | _ =>
      match formOf first with
      | .long "version" none => .ok .showVersion
      | .long "help" none => .error .help
      | .short 'V' _ => .ok .showVersion
      | .short 'h' _ => .error .help
      | _ => .error .usage

end EnergyProfile.CommandLine
