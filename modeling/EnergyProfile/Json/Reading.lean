import EnergyProfile.Json.Parsing

/-!
# Reading values from JSON

A reader says what shape it wants. Flaws and unwanted shapes are reported in the order in which
they are written, so of several faults the first one counts. A structure may be written as an
object, in which unknown members are skipped, or as a list of its fields in order.
-/

namespace EnergyProfile.Json

set_option autoImplicit false

/-- The first fault that skipping a value meets. -/
def skipFault : Json → Option JsonFault
  | .flawed flaw => flaw.whenSkipped
  | .array items unclosed => (skipItems items).or unclosed
  | .object members unclosed => (skipMembers members).or unclosed
  | _ => none
where
  skipItems : List Json → Option JsonFault
    | [] => none
    | item :: rest => (skipFault item).or (skipItems rest)
  skipMembers : List (Except Flaw String × Json) → Option JsonFault
    | [] => none
    | (name, item) :: rest =>
      let inName := match name with
        | .ok _ => none
        | .error flaw => flaw.whenSkipped
      (inName.or (skipFault item)).or (skipMembers rest)

/-- What a reader reports that wants another shape. Lists and objects are not looked into. -/
def unwanted : Json → JsonFault
  | .flawed flaw => flaw.whenRead
  | .number n => if n.value?.isNone then .malformed else .mismatch
  | _ => .mismatch

def toFloat : Json → Except JsonFault Float
  | .number n =>
    match n.value? with
    | some x => .ok x
    | none => .error .malformed
  | other => .error (unwanted other)

def toCount : Json → Except JsonFault Nat
  | .number n =>
    match n.count? with
    | some k => .ok k
    | none => .error (unwanted (.number n))
  | other => .error (unwanted other)

def toText : Json → Except JsonFault String
  | .string s => .ok s
  | other => .error (unwanted other)

/-- A value that may be absent. -/
def toOption {α : Type} (read : Json → Except JsonFault α) : Json → Except JsonFault (Option α)
  | .null => .ok none
  | other => (read other).map some

def toList {α : Type} (read : Json → Except JsonFault α) : Json → Except JsonFault (List α)
  | .array items unclosed => do
    let values ← items.mapM read
    match unclosed with
    | some fault => .error fault
    | none => .ok values
  | other => .error (unwanted other)

/-- A field of a structure: its name and whether a value can be read for it. -/
structure Field where
  name : String
  check : Json → Except JsonFault Unit

def field {α : Type} (name : String) (read : Json → Except JsonFault α) : Field :=
  ⟨name, fun value => (read value).map fun _ => ()⟩

abbrev Fields := List (String × Json)

/-- Members are taken in order. A field may come once. -/
def fieldsOfMembers (known : List Field) :
    Fields → List (Except Flaw String × Json) → Except JsonFault Fields
  | found, [] => .ok found
  | _, (.error flaw, _) :: _ => .error flaw.whenRead
  | found, (.ok name, value) :: rest =>
    match known.find? (·.name = name) with
    | none =>
      match skipFault value with
      | some fault => .error fault
      | none => fieldsOfMembers known found rest
    | some field => do
      if (found.lookup name).isSome then .error .mismatch
      field.check value
      fieldsOfMembers known ((name, value) :: found) rest

/-- Items are the fields in order. There may be fewer, but not more. -/
def fieldsOfItems : List Field → List Json → Except JsonFault Fields
  | _, [] => .ok []
  | [], _ :: _ => .error .malformed
  | field :: known, value :: rest => do
    field.check value
    return (field.name, value) :: (← fieldsOfItems known rest)

def fields (known : List Field) : Json → Except JsonFault Fields
  | .object members unclosed => do
    let found ← fieldsOfMembers known [] members
    match unclosed with
    | some fault => .error fault
    | none => .ok found
  | .array items unclosed => do
    let found ← fieldsOfItems known items
    match unclosed with
    | some fault => .error fault
    | none => .ok found
  | other => .error (unwanted other)

/-- A field that has to be written. -/
def Fields.required {α : Type} (f : Fields) (name : String)
    (read : Json → Except JsonFault α) : Except JsonFault α :=
  match f.lookup name with
  | some value => read value
  | none => .error .mismatch

/-- A field with a value to fall back on. -/
def Fields.optional {α : Type} (f : Fields) (name : String)
    (read : Json → Except JsonFault α) (fallback : α) : Except JsonFault α :=
  match f.lookup name with
  | some value => read value
  | none => .ok fallback

/-- Reads a whole text as a value of a shape, followed by nothing but space. -/
def readText {α : Type} (read : Json → Except JsonFault α) (text : String) :
    Except JsonFault α := do
  let (value, isEnd) := parse text
  let result ← read value
  if isEnd then .ok result else .error .malformed

end EnergyProfile.Json
