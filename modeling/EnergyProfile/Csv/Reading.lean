import EnergyProfile.Csv.Record
import EnergyProfile.Fault
import EnergyProfile.Text.Blank
import EnergyProfile.Text.Utf8

/-!
# Reading a table of fields

The first record is the header, and every other record has to have as many fields. Fields are text
and are trimmed of white space. Faults are found record by record, so a reader that stops at a bad
value in one record never sees what is wrong with a later one.
-/

namespace EnergyProfile.Csv

set_option autoImplicit false

/-- A mark that may stand in front of a text. -/
def byteOrderMark : List UInt8 := [0xEF, 0xBB, 0xBF]

/-- The records of a file. Offsets count a byte order mark in front. -/
def recordsOfBytes (bytes : List UInt8) : List (Record UInt8) :=
  if byteOrderMark.isPrefixOf bytes then records 3 (bytes.drop 3) else records 0 bytes

/-- Fields as trimmed text. The record is named by its number in a fault. -/
def fieldsText (number : Nat) (record : Record UInt8) :
    (index : Nat) → List (List UInt8) → Except CsvFault (List String)
  | _, [] => .ok []
  | index, field :: rest =>
    match Text.ofBytes ⟨field.toArray⟩ with
    | .error position => .error (.notText number record.line record.offset index position)
    | .ok text => do return Text.trim text :: (← fieldsText number record (index + 1) rest)

/-- The names of the columns, and the records below them. A file without records has no columns. -/
def header (bytes : ByteArray) : Except CsvFault (List String × List (Record UInt8)) :=
  match recordsOfBytes bytes.toList with
  | [] => .ok ([], [])
  | first :: rest => do return (← fieldsText 0 first 0 first.fields, rest)

/-- The fields of a record below the header. White space that is a single byte is taken off before
a field has to be text. -/
def rowFields (width number : Nat) (record : Record UInt8) : Except CsvFault (List String) :=
  if record.fields.length = width then
    fieldsText number record 0 (record.fields.map (Text.trimBoth Text.isBlankByte))
  else
    .error (.unequalLengths number record.line record.offset width record.fields.length)

/-- What each record below the header is read as, in order, up to the first failure. Rows are
counted from one. -/
def readRows {β : Type} (width : Nat) (read : Nat → List String → Except Error β)
    (records : List (Record UInt8)) : Except Error (List β) :=
  (records.zipIdx 1).mapM fun (record, number) =>
    match rowFields width number record with
    | .error fault => .error (.csv fault)
    | .ok fields => read number fields

end EnergyProfile.Csv
