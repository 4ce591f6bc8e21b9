import EnergyProfile.Double

/-!
# The fewest digits that identify a double

The reals that round to a double form an interval around it. Of the decimals in that interval
one with the fewest digits is chosen, and of two equally short ones the nearer. An exact tie
between two is left to the format that asks.
-/

namespace EnergyProfile

set_option autoImplicit false

/-- The number `digits * 10 ^ exponent`. -/
structure Decimal where
  digits : Nat
  exponent : Int
  deriving DecidableEq

namespace Decimal

/-- What to take when two decimals are equally near. -/
inductive Tie where
  | up
  | toEven

def Tie.choosesUpper (tie : Tie) (lower : Nat) : Bool :=
  match tie with
  | .up => true
  | .toEven => lower % 2 == 1

def strip (d : Decimal) : Decimal :=
  if d.digits = 0 then ⟨0, 0⟩
  else if d.digits % 10 = 0 then strip ⟨d.digits / 10, d.exponent + 1⟩
  else d
termination_by d.digits
decreasing_by omega

/-- A positive double `significand * 2 ^ exponent` and the reals that round to it. -/
structure Target where
  significand : Nat
  exponent : Int

namespace Target

/-- The ends of the interval and the value, in quarters of the unit. Below a power of two the
neighbour is only half a unit away. -/
def lowest (t : Target) : Nat :=
  if t.significand = Double.powerSignificand ∧ Double.minExponent < t.exponent then
    4 * t.significand - 1
  else 4 * t.significand - 2

def value (t : Target) : Nat := 4 * t.significand

def highest (t : Target) : Nat := 4 * t.significand + 2

/-- The factors that bring `c * 10 ^ j` and `a` quarters to a common denominator. -/
def factors (t : Target) (j : Int) : Nat × Nat :=
  let e := t.exponent - 2
  (tenTo j.toNat * twoTo (-e).toNat, twoTo e.toNat * tenTo (-j).toNat)

/-- Whether `c * 10 ^ j` rounds to the target. The ends do so when the significand is even. -/
def reads (t : Target) (j : Int) (c : Nat) : Bool :=
  let (ours, quarters) := t.factors j
  if t.significand % 2 = 0 then
    t.lowest * quarters ≤ c * ours && c * ours ≤ t.highest * quarters
  else
    t.lowest * quarters < c * ours && c * ours < t.highest * quarters

/-- The least `k` with value below `10 ^ k`, from the digits of the value times `10 ^ 330`,
which every positive double raises above one. -/
def scale (t : Target) : Int :=
  let raised :=
    if 0 ≤ t.exponent then t.significand * twoTo t.exponent.toNat * tenTo 330
    else t.significand * tenTo 330 / twoTo (-t.exponent).toNat
  (Double.digitCount raised : Int) - 330

/-- The nearest decimal on the grid `10 ^ j` that reads back, if one does. -/
def onGrid (t : Target) (tie : Tie) (j : Int) : Option Decimal :=
  let (ours, quarters) := t.factors j
  let lower := t.value * quarters / ours
  let upper := lower + 1
  match t.reads j lower, t.reads j upper with
  | false, false => none
  | true, false => some ⟨lower, j⟩
  | false, true => some ⟨upper, j⟩
  | true, true =>
    let twice := 2 * t.value * quarters
    let middle := (lower + upper) * ours
    if twice < middle then some ⟨lower, j⟩
    else if middle < twice then some ⟨upper, j⟩
    else some ⟨if tie.choosesUpper lower then upper else lower, j⟩

def exact (t : Target) : Decimal :=
  if 0 ≤ t.exponent then ⟨t.significand * twoTo t.exponent.toNat, 0⟩
  else ⟨t.significand * Nat.pow 5 (-t.exponent).toNat, t.exponent⟩

/-- Grids of one, two, … seventeen digits are tried in turn. -/
def shortest (t : Target) (tie : Tie) : Decimal :=
  let k := t.scale
  match (List.range 17).findSome? fun (n : Nat) => t.onGrid tie (k - 1 - n) with
  | some d => d.strip
  | none => t.exact.strip

end Target

/-- The fewest digits of a finite double's magnitude. -/
def shortest (tie : Tie) (significand : Nat) (exponent : Int) : Decimal :=
  if significand = 0 then ⟨0, 0⟩ else Target.shortest ⟨significand, exponent⟩ tie

end Decimal

end EnergyProfile
