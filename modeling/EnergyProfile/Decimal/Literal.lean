import EnergyProfile.Double

/-!
# Decimal literals

The numbers that a recording, a timing log or an argument may hold: an optional sign, then digits
with at most one point and an optional exponent, or a word for infinity or no number in any case.
At least one digit is needed, on either side of the point.
-/

namespace EnergyProfile

set_option autoImplicit false

inductive LiteralFault where
  | empty
  | invalid
  deriving DecidableEq

def LiteralFault.message : LiteralFault → String
  | empty => "cannot parse float from empty string"
  | invalid => "invalid float literal"

namespace Literal

/-- The value of a string of digits, most significant first. -/
def digitsValue (ds : List Char) : Nat :=
  ds.foldl (fun n c => 10 * n + (c.toNat - '0'.toNat)) 0

/-- A sign in front, if any, taken off. -/
def takeSign : List Char → Bool × List Char
  | '-' :: rest => (true, rest)
  | '+' :: rest => (false, rest)
  | rest => (false, rest)

/-- A fraction in front, if any, taken off. -/
def takeFraction : List Char → List Char × List Char
  | '.' :: rest => rest.span Char.isDigit
  | rest => ([], rest)

/-- The exponent that makes up the whole rest, zero for an empty rest. -/
def exponent? : List Char → Option Int
  | [] => some 0
  | c :: rest =>
    if c = 'e' ∨ c = 'E' then
      let (negative, digits) := takeSign rest
      if digits ≠ [] ∧ digits.all Char.isDigit then
        some (if negative then -(digitsValue digits : Int) else digitsValue digits)
      else none
    else none

/-- Digits, point and exponent, without a sign in front. -/
def decimal? (negative : Bool) (s : List Char) : Option Float :=
  let (whole, afterWhole) := s.span Char.isDigit
  let (fraction, rest) := takeFraction afterWhole
  if whole = [] ∧ fraction = [] then none
  else
    (exponent? rest).map fun e =>
      Double.ofDecimal negative (digitsValue (whole ++ fraction)) (e - fraction.length)

/-- The words for the values that have no digits. -/
def word? (negative : Bool) (s : List Char) : Option Float :=
  let lower := String.ofList (s.map Char.toLower)
  if lower = "nan" then some (0 / 0)
  else if lower = "inf" ∨ lower = "infinity" then some (if negative then -1 / 0 else 1 / 0)
  else none

end Literal

def readNumber (text : String) : Except LiteralFault Float :=
  match text.toList with
  | [] => .error .empty
  | s =>
    let (negative, rest) := Literal.takeSign s
    match Literal.decimal? negative rest with
    | some x => .ok x
    | none =>
      match Literal.word? negative rest with
      | some x => .ok x
      | none => .error .invalid

end EnergyProfile
