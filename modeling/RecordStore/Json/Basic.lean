import RecordStore.Fields
import RecordStore.Number.Shortest

/-!
# Documents

`Json` is the type of plain documents: records, definitions, settings and cursors are read as such. An object is a map,
so it is kept as its fields in ascending order of their names (`Json.Ordered`, at every depth). A number is a whole
number that fits 64 bits, with a sign or without, or a finite double; the two never stand for one another, since their
texts differ.
-/

namespace RecordStore

/-- A number of a document. -/
inductive JsonNumber where
  | whole (n : Int)
  | double (x : Binary64)
deriving DecidableEq, Repr

/-- A plain document. -/
inductive Json where
  | null
  | bool (b : Bool)
  | number (n : JsonNumber)
  | string (s : String)
  | array (items : List Json)
  | object (fields : List (String × Json))
deriving Inhabited, Repr

/-- What a document is, its content aside. -/
inductive JsonKind where
  | null
  | boolean
  | number
  | string
  | array
  | object
deriving DecidableEq, Repr

/-- The word for a kind of document. -/
def JsonKind.name : JsonKind → String
  | .null => "null"
  | .boolean => "boolean"
  | .number => "number"
  | .string => "string"
  | .array => "array"
  | .object => "object"

namespace JsonNumber

/-- The whole number, if it is a number of a document. -/
def fits (n : Int) : Bool :=
  -(Numeral.intBound : Int) ≤ n && n < Numeral.natBound

/-- The double nearest to a number. -/
def toBinary64 : JsonNumber → Binary64
  | .whole n => Binary64.ofInt n
  | .double x => x

/-- The text of a number. -/
def chars : JsonNumber → List Char
  | .whole n => (toString n).toList
  | .double x => x.chars

end JsonNumber

namespace Json

/-- The kind of a document. -/
def kind : Json → JsonKind
  | .null => .null
  | .bool _ => .boolean
  | .number _ => .number
  | .string _ => .string
  | .array _ => .array
  | .object _ => .object

/-- The fields of an object. -/
def fields? : Json → Option (Fields Json)
  | .object fields => some fields
  | _ => none

/-- The content of a string. -/
def string? : Json → Option String
  | .string s => some s
  | _ => none

/-! ## Equality -/

mutual

/-- Equality of documents can be decided. -/
def decEq : (a b : Json) → Decidable (a = b)
  | .null, .null => isTrue rfl
  | .bool a, .bool b => if h : a = b then isTrue (h ▸ rfl) else isFalse fun e => h (Json.bool.inj e)
  | .number a, .number b => if h : a = b then isTrue (h ▸ rfl) else isFalse fun e => h (Json.number.inj e)
  | .string a, .string b => if h : a = b then isTrue (h ▸ rfl) else isFalse fun e => h (Json.string.inj e)
  | .array a, .array b =>
    match decEqItems a b with
    | isTrue h => isTrue (h ▸ rfl)
    | isFalse h => isFalse fun e => h (Json.array.inj e)
  | .object a, .object b =>
    match decEqFields a b with
    | isTrue h => isTrue (h ▸ rfl)
    | isFalse h => isFalse fun e => h (Json.object.inj e)
  | .null, .bool _ | .null, .number _ | .null, .string _ | .null, .array _ | .null, .object _
  | .bool _, .null | .bool _, .number _ | .bool _, .string _ | .bool _, .array _ | .bool _, .object _
  | .number _, .null | .number _, .bool _ | .number _, .string _ | .number _, .array _ | .number _, .object _
  | .string _, .null | .string _, .bool _ | .string _, .number _ | .string _, .array _ | .string _, .object _
  | .array _, .null | .array _, .bool _ | .array _, .number _ | .array _, .string _ | .array _, .object _
  | .object _, .null | .object _, .bool _ | .object _, .number _ | .object _, .string _ | .object _, .array _ =>
    isFalse nofun

/-- Equality of lists of documents can be decided. -/
def decEqItems : (a b : List Json) → Decidable (a = b)
  | [], [] => isTrue rfl
  | [], _ :: _ | _ :: _, [] => isFalse nofun
  | a :: as, b :: bs =>
    match decEq a b, decEqItems as bs with
    | isTrue h, isTrue hs => isTrue (h ▸ hs ▸ rfl)
    | isFalse h, _ => isFalse fun e => h (List.cons.inj e).1
    | _, isFalse hs => isFalse fun e => hs (List.cons.inj e).2

/-- Equality of the fields of objects can be decided. -/
def decEqFields : (a b : List (String × Json)) → Decidable (a = b)
  | [], [] => isTrue rfl
  | [], _ :: _ | _ :: _, [] => isFalse nofun
  | (k, a) :: as, (l, b) :: bs =>
    if hk : k = l then
      match decEq a b, decEqFields as bs with
      | isTrue h, isTrue hs => isTrue (hk ▸ h ▸ hs ▸ rfl)
      | isFalse h, _ => isFalse fun e => h (Prod.mk.inj (List.cons.inj e).1).2
      | _, isFalse hs => isFalse fun e => hs (List.cons.inj e).2
    else isFalse fun e => hk (Prod.mk.inj (List.cons.inj e).1).1

end

instance : DecidableEq Json := decEq

/-! ## Normal form -/

mutual

/-- Every object has its fields in ascending order, and every number is one that a document can hold. -/
def Ordered : Json → Prop
  | .null | .bool _ | .string _ => True
  | .number (.whole n) => JsonNumber.fits n = true
  | .number (.double x) => x.isFinite = true
  | .array items => OrderedItems items
  | .object fields => Fields.Ordered fields ∧ OrderedFields fields

/-- Every item of a list is in normal form. -/
def OrderedItems : List Json → Prop
  | [] => True
  | item :: rest => item.Ordered ∧ OrderedItems rest

/-- Every value of some fields is in normal form. -/
def OrderedFields : List (String × Json) → Prop
  | [] => True
  | (_, value) :: rest => value.Ordered ∧ OrderedFields rest

end

theorem orderedItems_iff {items : List Json} : OrderedItems items ↔ ∀ item ∈ items, item.Ordered := by
  induction items with
  | nil => exact ⟨fun _ => List.forall_mem_nil _, fun _ => trivial⟩
  | cons item rest ih => rw [OrderedItems, ih, List.forall_mem_cons]

theorem orderedFields_iff {fields : List (String × Json)} :
    OrderedFields fields ↔ ∀ field ∈ fields, field.2.Ordered := by
  induction fields with
  | nil => exact ⟨fun _ => List.forall_mem_nil _, fun _ => trivial⟩
  | cons field rest ih =>
    obtain ⟨name, value⟩ := field
    rw [OrderedFields, ih, List.forall_mem_cons]

end Json

end RecordStore
