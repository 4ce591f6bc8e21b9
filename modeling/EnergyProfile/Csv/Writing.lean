import EnergyProfile.Csv.Record

/-!
# Writing comma separated records

A field is quoted when it holds a symbol that separates. A record that would be an empty line is
written as an empty quoted field.
-/

namespace EnergyProfile.Csv

set_option autoImplicit false

variable {σ : Type} [DecidableEq σ] [Alphabet σ]

/-- Whether a symbol would be misread outside quotes. -/
def separates (c : σ) : Bool :=
  c = Alphabet.comma ∨ c = Alphabet.quote ∨ c = Alphabet.carriageReturn ∨ c = Alphabet.lineFeed

/-- A field between quotes, each quote inside written twice. -/
def quote (field : List σ) : List σ :=
  Alphabet.quote ::
    field.flatMap (fun c => if c = Alphabet.quote then [c, c] else [c]) ++ [Alphabet.quote]

def writeField (field : List σ) : List σ :=
  if field.any separates then quote field else field

def writeFields : List (List σ) → List σ
  | [] => []
  | [field] => writeField field
  | field :: rest => writeField field ++ Alphabet.comma :: writeFields rest

def writeRecord (fields : List (List σ)) : List σ :=
  let line := writeFields fields
  (if line = [] then quote [] else line) ++ [Alphabet.lineFeed]

def write (table : List (List (List σ))) : List σ :=
  table.flatMap writeRecord

end EnergyProfile.Csv
