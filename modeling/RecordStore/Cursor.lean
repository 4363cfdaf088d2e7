import RecordStore.Attribute.Document
import RecordStore.Attribute.Wire
import RecordStore.Json.Printer
import RecordStore.Text.Blank

/-!
# Cursors

A cursor is a token that says where to go on reading: the text of a key as it is sent, in base64. `Cursor.encode` makes
one of a key that is not empty. `Cursor.decode` reads one, with blanks around it; it also takes keys whose values are
plain documents, and gives only keys that are not empty and hold nothing but scalars.
-/

namespace RecordStore

/-- What is wrong with a cursor. -/
inductive CursorError where
  /-- The token is not base64. -/
  | notBase64
  /-- The token holds no key. -/
  | notAKey
  /-- The key is empty. -/
  | emptyKey
  /-- An attribute of the key is no scalar. -/
  | notAScalar (field : String)
deriving DecidableEq, Repr

/-- The message of an error, without the details of what could not be read. -/
def CursorError.message : CursorError → String
  | .notBase64 => "Cursor is not valid base64"
  | .notAKey => "Cursor does not hold a key map"
  | .emptyKey => "Cursor holds an empty key"
  | .notAScalar field => "Cursor attribute " ++ field ++ " is not a key value"

namespace Cursor

/-- The bytes of a text. -/
def utf8 (s : String) : List UInt8 :=
  s.toUTF8.data.toList

/-- The text that some bytes are, if they are one. -/
def ofUtf8? (bytes : List UInt8) : Option String :=
  String.fromUTF8? ⟨bytes.toArray⟩

/-- The token of a key, unless that is empty. -/
def encode? (key : Key) : Option String :=
  if key.isEmpty then none else some (Base64.encode (utf8 key.toWire.text))

/-- Reads an attribute of a key. An object can only be an attribute as it is sent, all else is a plain document. -/
def keyValue (j : Json) : Except CursorError Attribute :=
  match j with
  | .object _ =>
    match Attribute.ofWire j with
    | .ok a => .ok a
    | .error _ => .error .notAKey
  | j => .ok (.ofJson j)

/-- Reads the attributes of a key, one after the other; each must be a scalar. -/
def keyValues : List (String × Json) → Except CursorError Key
  | [] => .ok []
  | (name, j) :: rest => do
    let a ← keyValue j
    if a.isScalar then
      let more ← keyValues rest
      .ok ((name, a) :: more)
    else .error (.notAScalar name)

/-- The document that a token holds. -/
def body? (bytes : List UInt8) : Option (Fields Json) := do
  let text ← ofUtf8? bytes
  (← Json.parse? text).fields?

/-- Reads a cursor. -/
def decode (token : String) : Except CursorError Key :=
  match Base64.decode? (Text.trim token) with
  | none => .error .notBase64
  | some bytes =>
    match body? bytes with
    | none => .error .notAKey
    | some [] => .error .emptyKey
    | some fields => keyValues fields

end Cursor

end RecordStore
