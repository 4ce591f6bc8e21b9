import EnergyProfile.Decimal.Literal
import EnergyProfile.Decimal.Shortest
import EnergyProfile.Json.Tree

/-!
# Numbers in JSON

A number is written with the fewest digits that identify it: in full while its first digit stands
between the fifth decimal place and the sixteenth before the point, then with at least one
decimal; otherwise with an exponent.

A number is read through its significand, the digits that fit a word of sixty-four bits. Digits
beyond those only move the point. The significand becomes a double, and that double is multiplied
or divided by a power of ten.
-/

namespace EnergyProfile.Json.Numeral

set_option autoImplicit false

def ofNat (n : Nat) : Numeral :=
  ⟨false, (toString n).toList, [], none⟩

def text (n : Numeral) : List Char :=
  (if n.negative then ['-'] else []) ++ n.whole ++
    (if n.fraction = [] then [] else '.' :: n.fraction) ++
    match n.exponent with
    | none => []
    | some (negative, digits) => 'e' :: (if negative then '-' else '+') :: digits

/-- The places of a positive decimal between which it is written in full. -/
def ofDecimal (negative : Bool) (d : Decimal) : Numeral :=
  let digits := (toString d.digits).toList
  let magnitude := d.exponent + (digits.length : Int) - 1
  if d.digits = 0 then ⟨negative, ['0'], ['0'], none⟩
  else if magnitude < -5 ∨ 15 < magnitude then
    ⟨negative, digits.take 1, digits.drop 1,
      some (magnitude < 0, (toString magnitude.natAbs).toList)⟩
  else if 0 ≤ d.exponent then
    ⟨negative, digits ++ List.replicate d.exponent.toNat '0', ['0'], none⟩
  else if magnitude < 0 then
    ⟨negative, ['0'], List.replicate (-1 - magnitude).toNat '0' ++ digits, none⟩
  else
    let places := (-d.exponent).toNat
    ⟨negative, digits.take (digits.length - places), digits.drop (digits.length - places), none⟩

/-- A double in writing, if it is finite. -/
def ofFloat? (x : Float) : Option Numeral :=
  match Double.ofFloat x with
  | .finite negative m q => some (ofDecimal negative (Decimal.shortest .toEven m q))
  | _ => none

/-- Takes digits up into a significand until one does not fit, and returns those left over. -/
def absorb : Nat → List Char → Nat × List Char
  | n, [] => (n, [])
  | n, c :: rest =>
    let next := 10 * n + (c.toNat - '0'.toNat)
    if next ≤ maxSize then absorb next rest else (n, c :: rest)

/-- The significand and the power of ten of its last digit, before the written exponent. -/
def significand (n : Numeral) : Nat × Int :=
  let (whole, beyond) := absorb 0 n.whole
  let (both, unused) := absorb whole n.fraction
  (both, (beyond.length : Int) - ((n.fraction.length - unused.length : Nat) : Int))

/-- A power of ten that a double can hold. -/
def powerOfTen (k : Nat) : Float :=
  Float.ofScientific 1 false k

/-- Divides by a power of ten, in steps while it is too large for a double. -/
def shrink (x : Float) (k : Nat) : Float :=
  if k ≤ 308 then x / powerOfTen k
  else if x == 0 then x
  else shrink (x / powerOfTen 308) (k - 308)
termination_by k

/-- The significand moved by a power of ten, unless that is out of range. -/
def scaled? (significand : Nat) (exponent : Int) : Option Float :=
  let x := Float.ofNat significand
  if exponent < 0 then some (shrink x (-exponent).toNat)
  else if exponent ≤ 308 then
    let y := x * powerOfTen exponent.toNat
    if y.isInf then none else some y
  else if x == 0 then some x else none

/-- The exponent as written. One that needs more than thirty-one bits has no value. -/
def writtenExponent (n : Numeral) : Option Int :=
  match n.exponent with
  | none => some 0
  | some (negative, digits) =>
    let e := Literal.digitsValue digits
    if e < twoTo 31 then some (if negative then -(e : Int) else e) else none

/-- The double that a number is read as, unless it is out of range. -/
def value? (n : Numeral) : Option Float :=
  let (digits, power) := n.significand
  let magnitude :=
    match n.writtenExponent with
    | some e => scaled? digits (power + e)
    | none =>
      match n.exponent with
      | some (false, _) => if digits = 0 then some 0 else none
      | _ => some 0
  magnitude.map fun x => if n.negative then -x else x

/-- The count that a number is read as, if it is written without sign, point and exponent and fits
a word of sixty-four bits. -/
def count? (n : Numeral) : Option Nat :=
  if n.negative ∨ n.fraction ≠ [] ∨ n.exponent ≠ none then none
  else
    match absorb 0 n.whole with
    | (value, []) => some value
    | _ => none

end EnergyProfile.Json.Numeral
