import RecordStore.Attribute.Basic
import RecordStore.Bytes.Base64
import RecordStore.Json.Basic

/-!
# Attributes and plain documents

`Attribute.ofJson` turns a document into an attribute: strings become texts, arrays lists, objects maps, and a number
keeps its text. `Attribute.toJson` goes back. Documents have fewer types, so bytes come back in base64 and sets as
arrays; a numeral that no number of a document stands for comes back as a string.
-/

namespace RecordStore

namespace Attribute

mutual

/-- The attribute of a document. -/
def ofJson : Json → Attribute
  | .null => .null true
  | .bool b => .flag b
  | .number n => .number (String.ofList n.chars)
  | .string s => .text s
  | .array items => .list (ofJsonItems items)
  | .object fields => .map (ofJsonFields fields)

/-- The attributes of the items of an array. -/
def ofJsonItems : List Json → List Attribute
  | [] => []
  | j :: rest => ofJson j :: ofJsonItems rest

/-- The attributes of the fields of an object. -/
def ofJsonFields : List (String × Json) → List (String × Attribute)
  | [] => []
  | (name, j) :: rest => (name, ofJson j) :: ofJsonFields rest

end

/-- The document of a numeral: a whole number if it is one, else a finite double, else its text. -/
def numeralToJson (n : String) : Json :=
  match Numeral.integer? n.toList with
  | some i => .number (.whole i)
  | none =>
    match Binary64.parse? n.toList with
    | some x => if x.isFinite then .number (.double x) else .string n
    | none => .string n

mutual

/-- The document of an attribute. -/
def toJson : Attribute → Json
  | .text s => .string s
  | .number n => numeralToJson n
  | .binary bytes => .string (Base64.encode bytes)
  | .texts ss => .array (ss.map .string)
  | .numbers ns => .array (ns.map numeralToJson)
  | .binaries bss => .array (bss.map fun bytes => .string (Base64.encode bytes))
  | .flag b => .bool b
  | .null _ => .null
  | .list items => .array (toJsonItems items)
  | .map fields => .object (toJsonFields fields)

/-- The documents of the attributes in a list. -/
def toJsonItems : List Attribute → List Json
  | [] => []
  | a :: rest => toJson a :: toJsonItems rest

/-- The documents of the attributes in a map. -/
def toJsonFields : List (String × Attribute) → List (String × Json)
  | [] => []
  | (name, a) :: rest => (name, toJson a) :: toJsonFields rest

end

end Attribute

/-- A record: the fields of a document that is an object. -/
abbrev Record := Fields Json

/-- The item that a record is stored as. -/
def Record.toItem (record : Record) : Item :=
  Attribute.ofJsonFields record

/-- The record that an item is read as. -/
def Item.toRecord (item : Item) : Record :=
  Attribute.toJsonFields item

end RecordStore
