import RecordStore.Bytes.Base64
import RecordStore.Json.Reading
import RecordStore.Wire.Error

/-!
# Attributes on the wire

On the wire an attribute is an object with one field, whose name is the tag of its type; bytes travel in base64.
`Attribute.toWire` writes that object. `Attribute.ofReading` reads one from what is known of a text, in the order of the
text, and objects to the first thing that is wrong; `Attribute.ofWire` reads a document and `Attribute.ofText` a text.
-/

namespace RecordStore

namespace Attribute

/-! ## Writing -/

mutual

/-- The value under the tag. -/
def payload : Attribute → Json
  | .text s => .string s
  | .number n => .string n
  | .binary bytes => .string (Base64.encode bytes)
  | .texts ss => .array (ss.map .string)
  | .numbers ns => .array (ns.map .string)
  | .binaries bss => .array (bss.map fun bytes => .string (Base64.encode bytes))
  | .flag b => .bool b
  | .null b => .bool b
  | .list items => .array (itemsToWire items)
  | .map fields => .object (fieldsToWire fields)

/-- The attributes of a list as they are sent. -/
def itemsToWire : List Attribute → List Json
  | [] => []
  | a :: rest => .object [(a.type.tag, payload a)] :: itemsToWire rest

/-- The attributes of a map as they are sent. -/
def fieldsToWire : List (String × Attribute) → List (String × Json)
  | [] => []
  | (name, a) :: rest => (name, .object [(a.type.tag, payload a)]) :: fieldsToWire rest

end

/-- An attribute as it is sent. -/
def toWire (a : Attribute) : Json :=
  .object [(a.type.tag, a.payload)]

/-! ## Reading -/

/-- Reads a string. -/
def stringOf : Reading → Except WireError String
  | .string s => .ok s
  | .broken => .error .notJson
  | _ => .error .shape

/-- Reads a truth value. -/
def boolOf : Reading → Except WireError Bool
  | .bool b => .ok b
  | .broken => .error .notJson
  | _ => .error .shape

/-- Reads a list of strings. -/
def stringsOf : Reading → Except WireError (List String)
  | .array items closed => do
    let ss ← items.mapM stringOf
    if closed then .ok ss else .error .notJson
  | .broken => .error .notJson
  | _ => .error .shape

/-- The bytes of a text in base64. -/
def bytesOf (s : String) : Except WireError (List UInt8) :=
  match Base64.decode? s with
  | some bytes => .ok bytes
  | none => .error .shape

mutual

/-- Reads an attribute: its tag, the value under it, and then that no other tag follows. -/
def ofReading : Reading → Except WireError Attribute
  | .object [] closed => .error (if closed then .noTag else .notJson)
  | .object ((tag, value) :: more) closed => do
    let a ← ofPayload (AttributeType.ofTag? tag) tag value
    if !more.isEmpty then .error .secondTag
    else if closed then .ok a
    else .error .notJson
  | .broken => .error .notJson
  | _ => .error .shape

/-- Reads the value under a tag. -/
def ofPayload : Option AttributeType → String → Reading → Except WireError Attribute
  | none, tag, _ => .error (.unknownTag tag)
  | some .text, _, r => .text <$> stringOf r
  | some .number, _, r => .number <$> stringOf r
  | some .binary, _, r => do return .binary (← bytesOf (← stringOf r))
  | some .texts, _, r => .texts <$> stringsOf r
  | some .numbers, _, r => .numbers <$> stringsOf r
  | some .binaries, _, r => do return .binaries (← (← stringsOf r).mapM bytesOf)
  | some .flag, _, r => .flag <$> boolOf r
  | some .null, _, r => .null <$> boolOf r
  | some .list, _, .array items closed => .list <$> ofItems items closed
  | some .map, _, .object fields closed => (fun fs => .map (Fields.ofList fs)) <$> ofFields fields closed
  | some .list, _, .broken | some .map, _, .broken => .error .notJson
  | some .list, _, _ | some .map, _, _ => .error .shape

/-- Reads the attributes of a list up to its end. -/
def ofItems : List Reading → Bool → Except WireError (List Attribute)
  | [], closed => if closed then .ok [] else .error .notJson
  | r :: rest, closed => do
    let a ← ofReading r
    let as ← ofItems rest closed
    .ok (a :: as)

/-- Reads the attributes of a map up to its end. -/
def ofFields : List (String × Reading) → Bool → Except WireError (List (String × Attribute))
  | [], closed => if closed then .ok [] else .error .notJson
  | (name, r) :: rest, closed => do
    let a ← ofReading r
    let as ← ofFields rest closed
    .ok ((name, a) :: as)

end

/-- Reads an attribute from a document. -/
def ofWire (j : Json) : Except WireError Attribute :=
  ofReading j.reading

/-- Reads an attribute from a text, which must hold nothing else. -/
def ofText (s : String) : Except WireError Attribute := do
  let a ← ofReading (Reading.ofText s).1
  if (Reading.ofText s).2 then .ok a else .error .notJson

end Attribute

namespace Item

/-- An item as it is sent. -/
def toWire (item : Item) : Json :=
  .object (Attribute.fieldsToWire item)

/-- Reads an item from a document. -/
def ofWire : Json → Except WireError Item
  | .object fields => Attribute.ofFields (Json.fieldReadings fields) true
  | _ => .error .shape

end Item

end RecordStore
