import EnergyProfile.Decimal.Shortest

/-!
# Numbers in messages

Messages, labels and file names show a number in full, with a point where one is needed and never
with an exponent.
-/

namespace EnergyProfile

set_option autoImplicit false

namespace Decimal

def zeros (n : Nat) : String :=
  String.ofList (List.replicate n '0')

/-- All places written out, without an exponent. -/
def positional (d : Decimal) : String :=
  let text := toString d.digits
  if 0 ≤ d.exponent then text ++ zeros d.exponent.toNat
  else
    let places := (-d.exponent).toNat
    if places < text.length then
      String.ofList (text.toList.take (text.length - places)) ++ "." ++
        String.ofList (text.toList.drop (text.length - places))
    else "0." ++ zeros (places - text.length) ++ text

end Decimal

/-- A number in a message, a label or a file name: in full, a whole number without a point. Of two
texts equally short and equally near the upper one is taken. -/
def numberText (x : Float) : String :=
  match Double.ofFloat x with
  | .nan => "NaN"
  | .infinite negative => if negative then "-inf" else "inf"
  | .finite negative m q =>
    (if negative then "-" else "") ++ (Decimal.shortest .up m q).positional

end EnergyProfile
