import EnergyProfile.Double

/-!
# A fixed number of decimal places

The exact value of the double is rounded, a tie going to the even neighbour, and the sign of zero
is kept.
-/

namespace EnergyProfile

set_option autoImplicit false

namespace Decimal

/-- The quotient rounded to the nearest integer, a tie going to the even one. -/
def divRoundEven (a b : Nat) : Nat :=
  let quotient := a / b
  let twice := 2 * (a % b)
  if twice < b then quotient
  else if b < twice then quotient + 1
  else quotient + quotient % 2

/-- The number `significand * 2 ^ exponent` in units of the last of so many places. -/
def inPlaces (places significand : Nat) (exponent : Int) : Nat :=
  if 0 ≤ exponent then significand * twoTo exponent.toNat * tenTo places
  else divRoundEven (significand * tenTo places) (twoTo (-exponent).toNat)

/-- A count of units of the last place, with its point. -/
def pointed (places units : Nat) : String :=
  let text := toString units
  let padded := List.replicate (places + 1 - text.length) '0' ++ text.toList
  let whole := padded.take (padded.length - places)
  if places = 0 then String.ofList whole
  else String.ofList (whole ++ '.' :: padded.drop (padded.length - places))

end Decimal

/-- The number with exactly so many decimal places. -/
def placesText (places : Nat) (x : Float) : String :=
  match Double.ofFloat x with
  | .nan => "NaN"
  | .infinite negative => if negative then "-inf" else "inf"
  | .finite negative m q =>
    (if negative then "-" else "") ++ Decimal.pointed places (Decimal.inPlaces places m q)

end EnergyProfile
