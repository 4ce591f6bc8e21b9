import EnergyProfile.Json.Numeral

/-!
# Reading JSON text

Each function takes one part off the front of a text and returns what is left. After a place that
cannot be skipped nothing is left. Values nest, so reading them counts down from a bound that the
length of the text sets: every other step takes a character.
-/

namespace EnergyProfile.Json

set_option autoImplicit false

def isSpace (c : Char) : Bool :=
  c == ' ' || c == '\n' || c == '\t' || c == '\r'

def skipSpace (s : List Char) : List Char :=
  s.dropWhile isSpace

def hexDigit? (c : Char) : Option Nat :=
  if c.isDigit then some (c.toNat - '0'.toNat)
  else if 'a' ≤ c ∧ c ≤ 'f' then some (c.toNat - 'a'.toNat + 10)
  else if 'A' ≤ c ∧ c ≤ 'F' then some (c.toNat - 'A'.toNat + 10)
  else none

def codeUnit? (s : List Char) : Option Nat :=
  (s.mapM hexDigit?).map fun ds => ds.foldl (fun n d => 16 * n + d) 0

/-- Why four hexadecimal digits are not there: fewer than four bytes are left, or other ones. -/
def digitsMissing (s : List Char) : JsonFault :=
  if (String.ofList s).utf8ByteSize < 4 then .incomplete else .malformed

/-- The characters that stand for themselves or for a control character after a backslash. -/
def plainEscape? : Char → Option Char
  | '"' => some '"'
  | '\\' => some '\\'
  | '/' => some '/'
  | 'b' => some '\x08'
  | 'f' => some '\x0c'
  | 'n' => some '\n'
  | 'r' => some '\r'
  | 't' => some '\t'
  | _ => none

def isHighSurrogate (n : Nat) : Bool := 0xD800 ≤ n && n < 0xDC00

def isLowSurrogate (n : Nat) : Bool := 0xDC00 ≤ n && n < 0xE000

/-- The code unit escaped in front, with what follows it, if there is one. -/
def escapedUnit? : List Char → Except JsonFault Nat
  | [] => .error .incomplete
  | ['\\'] => .error .incomplete
  | '\\' :: 'u' :: rest =>
    match rest with
    | a :: b :: c :: d :: _ =>
      match codeUnit? [a, b, c, d] with
      | some n => .ok n
      | none => .error .malformed
    | few => .error (digitsMissing few)
  | _ => .error .malformed

/-- The character that a code unit begins and whether a second unit belongs to it. -/
def unitCharacter (unit : Nat) (after : List Char) : Except JsonFault (Char × Bool) :=
  if isLowSurrogate unit then .error .malformed
  else if isHighSurrogate unit then
    match escapedUnit? after with
    | .error fault => .error fault
    | .ok second =>
      if isLowSurrogate second then
        .ok (Char.ofNat ((unit - 0xD800) * 0x400 + (second - 0xDC00) + 0x10000), true)
      else .error .malformed
  else .ok (Char.ofNat unit, false)

/-- The rest of a string after its opening quote. Characters are gathered in reverse. Once a code
unit stands alone the string can still be skipped, and the rest is read only to find its end. -/
def stringRest (text : List Char) (lone : Option JsonFault) :
    List Char → Except Flaw String × List Char
  | [] => (.error ⟨lone.getD .incomplete, some .incomplete⟩, [])
  | '"' :: rest =>
    match lone with
    | none => (.ok (String.ofList text.reverse), rest)
    | some fault => (.error ⟨fault, none⟩, rest)
  | '\\' :: [] => (.error ⟨lone.getD .incomplete, some .incomplete⟩, [])
  | '\\' :: 'u' :: a :: b :: c :: d :: rest =>
    match codeUnit? [a, b, c, d] with
    | none =>
      let fault := digitsMissing [a, b, c, d]
      (.error ⟨lone.getD fault, some fault⟩, [])
    | some unit =>
      match unitCharacter unit rest with
      | .error fault => stringRest text (some (lone.getD fault)) rest
      | .ok (c, false) => stringRest (c :: text) lone rest
      | .ok (c, true) =>
        match rest with
        | _ :: _ :: _ :: _ :: _ :: _ :: rest => stringRest (c :: text) lone rest
        | _ => (.error (.break .incomplete), [])
  | '\\' :: c :: rest =>
    match plainEscape? c with
    | some plain => stringRest (plain :: text) lone rest
    | none =>
      let fault := if c = 'u' then digitsMissing rest else .malformed
      (.error ⟨lone.getD fault, some fault⟩, [])
  | c :: rest =>
    if c.toNat < 0x20 then (.error ⟨lone.getD .malformed, some .malformed⟩, [])
    else stringRest (c :: text) lone rest

/-- A digit that has to be there is not. Only a reader notices that the text ended. -/
def noDigit (s : List Char) : Flaw :=
  ⟨if s = [] then .incomplete else .malformed, some .malformed⟩

def exponentRest (s : List Char) : Except Flaw ((Bool × List Char) × List Char) :=
  let (negative, afterSign) := Literal.takeSign s
  let (digits, rest) := afterSign.span Char.isDigit
  if digits = [] then .error (noDigit afterSign) else .ok ((negative, digits), rest)

/-- The fraction and the exponent of a number. -/
def numberRest (negative : Bool) (whole : List Char) (s : List Char) :
    Except Flaw (Numeral × List Char) := do
  let (fraction, rest) ←
    match s with
    | '.' :: after =>
      let (digits, rest) := after.span Char.isDigit
      if digits = [] then .error (noDigit after) else pure (digits, rest)
    | _ => pure ([], s)
  match rest with
  | c :: after =>
    if c = 'e' ∨ c = 'E' then
      let (exponent, rest) ← exponentRest after
      return (⟨negative, whole, fraction, some exponent⟩, rest)
    else return (⟨negative, whole, fraction, none⟩, rest)
  | [] => return (⟨negative, whole, fraction, none⟩, rest)

/-- A number after its sign. It begins with zero only if that is its whole part. -/
def numeral (negative : Bool) (s : List Char) : Except Flaw (Numeral × List Char) :=
  let (whole, rest) := s.span Char.isDigit
  match whole with
  | [] => .error (noDigit s)
  | '0' :: _ :: _ => .error (.break .malformed)
  | _ => numberRest negative whole rest

def numberValue (parsed : Except Flaw (Numeral × List Char)) : Json × List Char :=
  match parsed with
  | .ok (n, rest) => (.number n, rest)
  | .error flaw => (.flawed flaw, [])

/-- A word that has begun, to its last letter. -/
def word (value : Json) : (expected s : List Char) → Json × List Char
  | [], rest => (value, rest)
  | _ :: _, [] => (.flawed (.break .incomplete), [])
  | e :: expected, c :: rest =>
    if c = e then word value expected rest else (.flawed (.break .malformed), [])

mutual

def value : Nat → List Char → Json × List Char
  | 0, _ => (.flawed (.break .incomplete), [])
  | bound + 1, s =>
    match skipSpace s with
    | [] => (.flawed (.break .incomplete), [])
    | '[' :: rest =>
      let (listed, unclosed, rest) := items bound rest true
      (.array listed unclosed, rest)
    | '\x7b' :: rest =>
      let (listed, unclosed, rest) := members bound rest true
      (.object listed unclosed, rest)
    | '"' :: rest =>
      match stringRest [] none rest with
      | (.ok text, rest) => (.string text, rest)
      | (.error flaw, rest) => (.flawed flaw, rest)
    | 'n' :: rest => word .null ['u', 'l', 'l'] rest
    | 't' :: rest => word (.bool true) ['r', 'u', 'e'] rest
    | 'f' :: rest => word (.bool false) ['a', 'l', 's', 'e'] rest
    | '-' :: rest => numberValue (numeral true rest)
    | c :: rest =>
      if c.isDigit then numberValue (numeral false (c :: rest))
      else (.flawed (.break .malformed), [])

/-- The items of a list up to its end. A comma is followed by an item, whatever comes. -/
def items : Nat → List Char → Bool → List Json × Option JsonFault × List Char
  | 0, _, _ => ([], some .incomplete, [])
  | bound + 1, s, isFirst =>
    match skipSpace s with
    | [] => ([], some .incomplete, [])
    | ']' :: rest => ([], none, rest)
    | c :: rest =>
      if isFirst ∨ c = ',' then
        let (item, rest) := value bound (if isFirst then c :: rest else rest)
        let (others, unclosed, rest) := items bound rest false
        (item :: others, unclosed, rest)
      else ([], some .malformed, [])

/-- The members of an object up to its end. -/
def members : Nat → List Char → Bool →
    List (Except Flaw String × Json) × Option JsonFault × List Char
  | 0, _, _ => ([], some .incomplete, [])
  | bound + 1, s, isFirst =>
    match skipSpace s with
    | [] => ([], some .incomplete, [])
    | '\x7d' :: rest => ([], none, rest)
    | c :: rest =>
      if isFirst ∨ c = ',' then
        match skipSpace (if isFirst then c :: rest else rest) with
        | [] => ([], some .incomplete, [])
        | '"' :: rest =>
          let (name, rest) := stringRest [] none rest
          let (item, rest) :=
            match skipSpace rest with
            | [] => (.flawed (.break .incomplete), [])
            | ':' :: rest => value bound rest
            | _ => (.flawed (.break .malformed), [])
          let (others, unclosed, rest) := members bound rest false
          ((name, item) :: others, unclosed, rest)
        | _ => ([], some .malformed, [])
      else ([], some .malformed, [])

end

/-- A whole text: its value, and whether anything but space follows. -/
def parse (text : String) : Json × Bool :=
  let s := text.toList
  let (value, rest) := value (2 * s.length + 2) s
  (value, (skipSpace rest).isEmpty)

end EnergyProfile.Json
