import RecordStore.Attribute.Wire

/-!
# Messages

A message has several fields, each of which is required, optional (absent or null), or has a default. It comes as an
object that names its fields, or as an array that lists them. A `Form` says how a message of one type is read either
way; it is put together field by field, in the order in which an array lists them.

In an object, names that the form does not know are passed over. Of several wrong values the one with the least name is
reported, and only if no value is wrong, the first required field that is missing. In an array the first wrong element
is reported; only fields with a default may be left out, at the end, and nothing else may follow. A writer writes an
object, and leaves out what is absent.
-/

namespace RecordStore.Wire

/-- Reads a value of one type from a document. -/
abbrev Decoder (α : Type) := Json → Except WireError α

variable {α : Type}

/-! ## Values -/

/-- Reads a string. -/
def string : Decoder String
  | .string s => .ok s
  | _ => .error .shape

/-- Reads a truth value. -/
def bool : Decoder Bool
  | .bool b => .ok b
  | _ => .error .shape

/-- Reads a whole number that fits 32 bits with a sign. -/
def int32 : Decoder Int
  | .number (.whole n) => if -Numeral.int32Max - 1 ≤ n ∧ n ≤ Numeral.int32Max then .ok n else .error .shape
  | _ => .error .shape

/-- Reads a whole number that fits 64 bits without a sign. -/
def nat64 : Decoder Nat
  | .number (.whole n) => if 0 ≤ n ∧ n < Numeral.natBound then .ok n.toNat else .error .shape
  | _ => .error .shape

/-- Reads an array. -/
def list (item : Decoder α) : Decoder (List α)
  | .array items => items.mapM item
  | _ => .error .shape

/-- Reads the fields of an object that all have values of one type. -/
def map (value : Decoder α) : Decoder (Fields α)
  | .object fields => fields.mapM fun (name, j) => do return (name, ← value j)
  | _ => .error .shape

/-! ## Forms -/

/-- What is wrong with a message that names its fields. -/
inductive Fault where
  /-- A field has a wrong value. -/
  | wrong (name : String) (cause : WireError)
  /-- A required field is missing. -/
  | missing (name : String)
deriving DecidableEq, Repr

namespace Fault

/-- The fault that is reported of one in an earlier and one in a later field of a form. -/
def first : Fault → Fault → Fault
  | .wrong name cause, .wrong name' cause' => if name' < name then .wrong name' cause' else .wrong name cause
  | .missing _, .wrong name cause => .wrong name cause
  | fault, .missing _ => fault

/-- A fault as an error. -/
def error : Fault → WireError
  | .wrong _ cause => cause
  | .missing name => .missingField name

end Fault

/-- How a message, or some of its fields, are read. -/
structure Form (α : Type) where
  /-- Reads them from fields with names. -/
  named : Fields Json → Except Fault α
  /-- Reads them from the front of a list, and gives what follows them. -/
  listed : List Json → Except WireError (α × List Json)

namespace Form

instance : Applicative Form where
  pure a := ⟨fun _ => .ok a, fun items => .ok (a, items)⟩
  seq f x :=
    { named := fun message =>
        match f.named message, (x ()).named message with
        | .ok g, .ok a => .ok (g a)
        | .ok _, .error fault => .error fault
        | .error fault, .ok _ => .error fault
        | .error fault, .error fault' => .error (fault.first fault')
      listed := fun items => do
        let (g, rest) ← f.listed items
        let (a, rest') ← (x ()).listed rest
        return (g a, rest') }

/-- Reads a message of a form. -/
def decode (form : Form α) : Decoder α
  | .object message => (form.named message).mapError Fault.error
  | .array items => do
    let (a, rest) ← form.listed items
    if rest.isEmpty then .ok a else .error .shape
  | _ => .error .shape

end Form

/-- The value of a field with a name. -/
def valueOf (value : Decoder α) (name : String) (j : Json) : Except Fault α :=
  (value j).mapError (.wrong name)

/-- A required field. -/
def required (name : String) (value : Decoder α) : Form α where
  named message :=
    match message.find name with
    | none => .error (.missing name)
    | some j => valueOf value name j
  listed
    | [] => .error .shape
    | j :: rest => do return (← value j, rest)

/-- An optional field. -/
def optional (name : String) (value : Decoder α) : Form (Option α) where
  named message :=
    match message.find name with
    | none | some .null => .ok none
    | some j => some <$> valueOf value name j
  listed
    | [] => .error .shape
    | .null :: rest => .ok (none, rest)
    | j :: rest => do return (some (← value j), rest)

/-- A field with a default. -/
def defaulted (name : String) (value : Decoder α) (default : α) : Form α where
  named message :=
    match message.find name with
    | none => .ok default
    | some j => valueOf value name j
  listed
    | [] => .ok (default, [])
    | j :: rest => do return (← value j, rest)

/-! ## Writing -/

/-- A message of those fields that have a value. -/
def message (fields : List (String × Option Json)) : Json :=
  .object (Fields.ofList (fields.filterMap fun (name, value) => value.map (name, ·)))

/-- A map as it is sent, unless it is empty. -/
def unlessEmpty (write : α → Json) (m : Fields α) : Option Json :=
  if m.isEmpty then none else some (.object (m.mapValues write))

end RecordStore.Wire
