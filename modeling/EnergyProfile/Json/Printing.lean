import EnergyProfile.Json.Numeral

/-!
# Writing JSON text

A tree is written one item or member a line, two spaces deeper at each level. An empty list or
object stays on its line.
-/

namespace EnergyProfile.Json

set_option autoImplicit false

def hexadecimal (n : Nat) : Char :=
  if n < 10 then Char.ofNat (n + '0'.toNat) else Char.ofNat (n - 10 + 'a'.toNat)

/-- A character of a string. Quotes, backslashes and control characters are escaped. -/
def printCharacter (c : Char) : List Char :=
  match c with
  | '"' => ['\\', '"']
  | '\\' => ['\\', '\\']
  | '\x08' => ['\\', 'b']
  | '\x0c' => ['\\', 'f']
  | '\n' => ['\\', 'n']
  | '\r' => ['\\', 'r']
  | '\t' => ['\\', 't']
  | _ =>
    if c.toNat < 0x20 then
      ['\\', 'u', '0', '0', hexadecimal (c.toNat / 16), hexadecimal (c.toNat % 16)]
    else [c]

def printString (s : String) : List Char :=
  '"' :: s.toList.flatMap printCharacter ++ ['"']

/-- A line break and the indentation of a level. -/
def newLine (level : Nat) : List Char :=
  '\n' :: List.replicate (2 * level) ' '

mutual

/-- A value that begins at some level. What cannot be read is written as absent. -/
def print (level : Nat) : Json → List Char
  | .null | .flawed _ => ['n', 'u', 'l', 'l']
  | .bool true => ['t', 'r', 'u', 'e']
  | .bool false => ['f', 'a', 'l', 's', 'e']
  | .number n => n.text
  | .string s => printString s
  | .array [] _ => ['[', ']']
  | .array (item :: rest) _ =>
    '[' :: newLine (level + 1) ++ print (level + 1) item ++ printItems (level + 1) rest ++
      newLine level ++ [']']
  | .object [] _ => ['\x7b', '\x7d']
  | .object (member :: rest) _ =>
    '\x7b' :: newLine (level + 1) ++ printMember (level + 1) member ++
      printMembers (level + 1) rest ++ newLine level ++ ['\x7d']

def printItems (level : Nat) : List Json → List Char
  | [] => []
  | item :: rest => ',' :: newLine level ++ print level item ++ printItems level rest

def printMember (level : Nat) : Except Flaw String × Json → List Char
  | (.ok name, value) => printString name ++ ':' :: ' ' :: print level value
  | (.error _, value) => printString "" ++ ':' :: ' ' :: print level value

def printMembers (level : Nat) : List (Except Flaw String × Json) → List Char
  | [] => []
  | member :: rest => ',' :: newLine level ++ printMember level member ++ printMembers level rest

end

def text (value : Json) : String :=
  String.ofList (print 0 value)

def ofNat (n : Nat) : Json :=
  .number (.ofNat n)

/-- A number that is not finite is written as absent. -/
def ofFloat (x : Float) : Json :=
  match Numeral.ofFloat? x with
  | some n => .number n
  | none => .null

end EnergyProfile.Json
