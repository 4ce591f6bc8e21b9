import EnergyProfile.Scalar

/-!
# Doubles, read exactly

A finite double is a signed whole number of units `2 ^ exponent`. Whole parts and decimal texts
are computed from that reading with integers, so they carry no rounding of their own.
-/

namespace EnergyProfile

set_option autoImplicit false

def twoTo (n : Nat) : Nat := Nat.pow 2 n

def tenTo (n : Nat) : Nat := Nat.pow 10 n

inductive Double where
  | nan
  | infinite (negative : Bool)
  /-- The number `± significand * 2 ^ exponent`. -/
  | finite (negative : Bool) (significand : Nat) (exponent : Int)
  deriving DecidableEq

namespace Double

/-- The least exponent, shared by the numbers next to zero. -/
def minExponent : Int := -1074

/-- The significand of a power of two in the ordinary range. -/
def powerSignificand : Nat := twoTo 52

/-- The reading of a word: a sign bit, eleven exponent bits, fifty-two fraction bits. -/
def ofBits (bits : Nat) : Double :=
  let negative := bits / twoTo 63 % 2 == 1
  let field : Nat := bits / twoTo 52 % twoTo 11
  let fraction := bits % twoTo 52
  if field = twoTo 11 - 1 then
    if fraction = 0 then .infinite negative else .nan
  else if field = 0 then
    .finite negative fraction minExponent
  else
    .finite negative (fraction + powerSignificand) ((field : Int) - 1075)

def ofFloat (x : Float) : Double :=
  ofBits x.toBits.toNat

def floor? : Double → Option Int
  | finite negative m q =>
    let signed : Int := if negative then -(m : Int) else m
    if 0 ≤ q then some (signed * twoTo q.toNat) else some (signed / twoTo (-q).toNat)
  | _ => none

/-- The nearest integer, a half going away from zero. -/
def round? : Double → Option Int
  | finite negative m q =>
    let magnitude : Nat :=
      if 0 ≤ q then m * twoTo q.toNat else (2 * m + twoTo (-q).toNat) / twoTo ((-q).toNat + 1)
    some (if negative then -(magnitude : Int) else magnitude)
  | _ => none

/-- The number of decimal digits, counted sixteen at a time while there are many. -/
def digitCount (n : Nat) : Nat :=
  if n < 10 then 1
  else if n < 10000000000000000 then digitCount (n / 10) + 1
  else digitCount (n / 10000000000000000) + 16
termination_by n
decreasing_by all_goals omega

/-- The double nearest to `± digits * 10 ^ exponent`. Numbers beyond the range are infinite or
zero, decided by their magnitude alone so that no huge power is ever computed. -/
def ofDecimal (negative : Bool) (digits : Nat) (exponent : Int) : Float :=
  let magnitude : Float :=
    if digits = 0 then 0
    else
      let top : Int := digitCount digits + exponent
      if 310 < top then 1 / 0
      else if top < -330 then 0
      else if 0 ≤ exponent then Float.ofScientific digits false exponent.toNat
      else Float.ofScientific digits true (-exponent).toNat
  if negative then -magnitude else magnitude

end Double

instance : Scalar Float where
  ofNat := Float.ofNat
  ofDecimal digits places := Float.ofScientific digits true places
  emptySum := -0.0
  undefined := 0.0 / 0.0
  pi := 3.141592653589793
  sqrt := Float.sqrt
  sin := Float.sin
  cos := Float.cos
  isFinite := Float.isFinite
  less x y := x < y
  equal x y := x == y
  floor? x := (Double.ofFloat x).floor?
  round? x := (Double.ofFloat x).round?

end EnergyProfile
