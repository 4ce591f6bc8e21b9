/-!
# JSON, as far as it can be read

A text is turned into a tree whether or not it is JSON to the end: where the text stops being
JSON the tree holds a flaw, and everything before it is there. A reader that knows what shape it
wants then meets flaws and unwanted shapes in the order in which they are written.

A flaw can depend on whether the place is read or skipped, since what is skipped need not have a
value.
-/

namespace EnergyProfile

set_option autoImplicit false

/-- What keeps settings from being read. -/
inductive JsonFault where
  /-- The text ends too early. -/
  | incomplete
  /-- The text is not JSON, or a number in it is out of range. -/
  | malformed
  /-- The text is JSON of another shape. -/
  | mismatch
  deriving DecidableEq

def JsonFault.message : JsonFault → String
  | incomplete => "the text ends too early"
  | malformed => "the text is not JSON"
  | mismatch => "the text has another shape"

namespace Json

/-- A number as it is written, in digits. Without a fraction there are no digits of one. -/
structure Numeral where
  negative : Bool
  whole : List Char
  fraction : List Char
  /-- The sign of the exponent and its digits. -/
  exponent : Option (Bool × List Char)
  deriving DecidableEq

/-- A place where the text cannot be read, and what happens to a reader that skips it. Nothing
follows a place that cannot even be skipped. -/
structure Flaw where
  whenRead : JsonFault
  whenSkipped : Option JsonFault
  deriving DecidableEq

/-- A place where the text ends or is no JSON. -/
def Flaw.break (fault : JsonFault) : Flaw :=
  ⟨fault, some fault⟩

end Json

/-- A JSON text. A list or an object that is not closed has a fault at its end. -/
inductive Json where
  | null
  | bool (value : Bool)
  | number (value : Json.Numeral)
  | string (value : String)
  | array (items : List Json) (unclosed : Option JsonFault)
  | object (members : List (Except Json.Flaw String × Json)) (unclosed : Option JsonFault)
  | flawed (flaw : Json.Flaw)

namespace Json

def list (items : List Json) : Json :=
  .array items none

def record (members : List (String × Json)) : Json :=
  .object (members.map fun (name, value) => (.ok name, value)) none

end Json

end EnergyProfile
