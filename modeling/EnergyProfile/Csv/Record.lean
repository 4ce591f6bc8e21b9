/-!
# Comma separated records

The text of a table falls into records of fields. A field may be quoted, and inside quotes a quote
is written twice and everything else stands for itself. A record ends at a line feed, a carriage
return, or both; empty lines hold no record. A quote inside an unquoted field is an ordinary
symbol, and after a closing quote the field goes on unquoted.

Every text splits into records. Whether they are all of one length, and whether they are text, is
for the reader of a table to judge.
-/

namespace EnergyProfile.Csv

set_option autoImplicit false

/-- The symbols that separate, in an alphabet of bytes or of characters. -/
class Alphabet (σ : Type) where
  comma : σ
  quote : σ
  carriageReturn : σ
  lineFeed : σ

instance : Alphabet Char := ⟨',', '"', '\r', '\n'⟩

instance : Alphabet UInt8 := ⟨44, 34, 13, 10⟩

/-- A record and where its predecessor ended: the line, counted from one, and the offset. -/
structure Record (σ : Type) where
  fields : List (List σ)
  line : Nat
  offset : Nat

/-- How far the symbols so far determine the next one. -/
inductive Phase where
  /-- Between records. -/
  | outside
  /-- A carriage return ended a record and a line feed may still belong to it. -/
  | returned
  | fieldStart
  | plain
  | quoted
  /-- A quote inside quotes: half of a pair, or the end. -/
  | quoteSeen
  deriving DecidableEq

/-- A text read so far. Fields and records are gathered in reverse. -/
structure Splitting (σ : Type) where
  phase : Phase
  field : List σ
  fields : List (List σ)
  records : List (Record σ)
  startLine : Nat
  startOffset : Nat
  line : Nat
  offset : Nat

namespace Splitting

variable {σ : Type} [DecidableEq σ] [Alphabet σ]

/-- Nothing read, of a text that begins at an offset. -/
def initial (offset : Nat) : Splitting σ :=
  ⟨.outside, [], [], [], 1, 0, 1, offset⟩

def endField (s : Splitting σ) (next : Phase) : Splitting σ :=
  { s with phase := next, field := [], fields := s.field.reverse :: s.fields }

def endRecord (s : Splitting σ) (next : Phase) : Splitting σ :=
  let s := s.endField next
  { s with
    fields := []
    records := ⟨s.fields.reverse, s.startLine, s.startOffset⟩ :: s.records
    startLine := s.line
    startOffset := s.offset }

def keep (s : Splitting σ) (c : σ) (next : Phase) : Splitting σ :=
  { s with phase := next, field := c :: s.field }

/-- A symbol outside quotes ends a field, ends a record, or belongs to the field. -/
def unquoted (s : Splitting σ) (c : σ) : Splitting σ :=
  if c = Alphabet.comma then s.endField .fieldStart
  else if c = Alphabet.carriageReturn then s.endRecord .returned
  else if c = Alphabet.lineFeed then s.endRecord .outside
  else s.keep c .plain

def opening (s : Splitting σ) (c : σ) : Splitting σ :=
  if c = Alphabet.quote then { s with phase := .quoted } else s.unquoted c

/-- The first symbol of a record, or of an empty line. -/
def first (s : Splitting σ) (c : σ) : Splitting σ :=
  if c = Alphabet.carriageReturn ∨ c = Alphabet.lineFeed then { s with phase := .outside }
  else s.opening c

def classify (s : Splitting σ) (c : σ) : Splitting σ :=
  match s.phase with
  | .outside => s.first c
  | .returned => if c = Alphabet.lineFeed then { s with phase := .outside } else s.first c
  | .fieldStart => s.opening c
  | .plain => s.unquoted c
  | .quoted => if c = Alphabet.quote then { s with phase := .quoteSeen } else s.keep c .quoted
  | .quoteSeen => if c = Alphabet.quote then s.keep c .quoted else s.unquoted c

/-- One symbol more. Lines are counted by line feeds, quoted ones too. -/
def push (s : Splitting σ) (c : σ) : Splitting σ :=
  let line := if c = Alphabet.lineFeed then s.line + 1 else s.line
  { s with line := line, offset := s.offset + 1 }.classify c

/-- The end of the text ends a record that has begun. -/
def finish (s : Splitting σ) : List (Record σ) :=
  match s.phase with
  | .outside | .returned => s.records.reverse
  | _ => (s.endRecord .outside).records.reverse

end Splitting

/-- The records of a text whose first symbol has the given offset. -/
def records {σ : Type} [DecidableEq σ] [Alphabet σ] (offset : Nat) (text : List σ) :
    List (Record σ) :=
  (text.foldl Splitting.push (Splitting.initial offset)).finish

end EnergyProfile.Csv
