import RecordStore.Fields
import RecordStore.Text.Quoted

/-!
# Attribute values

`Attribute` is what a store keeps under a name: three scalars (text, number, binary), a set of each, a flag, a null
marker, lists and maps. A number is kept as the text it came in, so nothing is lost between caller and store. An `Item`
is a map from names to attributes, and a `Key` is one that holds key attributes only.
-/

namespace RecordStore

/-- A value in a store. -/
inductive Attribute where
  | text (s : String)
  | number (numeral : String)
  | binary (bytes : List UInt8)
  | texts (ss : List String)
  | numbers (numerals : List String)
  | binaries (bss : List (List UInt8))
  | flag (b : Bool)
  | null (b : Bool)
  | list (items : List Attribute)
  | map (fields : List (String × Attribute))
deriving Inhabited, Repr

/-- The ten types of attributes. -/
inductive AttributeType where
  | text
  | number
  | binary
  | texts
  | numbers
  | binaries
  | flag
  | null
  | list
  | map
deriving DecidableEq, Repr

/-- An item of a store. -/
abbrev Item := Fields Attribute

/-- The key attributes of an item. -/
abbrev Key := Item

namespace AttributeType

/-- All types, in the order in which they are listed. -/
def all : List AttributeType :=
  [.text, .number, .binary, .texts, .numbers, .binaries, .flag, .null, .list, .map]

/-- The tag that names a type. -/
def tag : AttributeType → String
  | .text => "S"
  | .number => "N"
  | .binary => "B"
  | .texts => "SS"
  | .numbers => "NS"
  | .binaries => "BS"
  | .flag => "BOOL"
  | .null => "NULL"
  | .list => "L"
  | .map => "M"

/-- The type that a tag names. -/
def ofTag? (tag : String) : Option AttributeType :=
  all.find? fun t => t.tag = tag

end AttributeType

namespace Attribute

/-- The type of an attribute. -/
def type : Attribute → AttributeType
  | .text _ => .text
  | .number _ => .number
  | .binary _ => .binary
  | .texts _ => .texts
  | .numbers _ => .numbers
  | .binaries _ => .binaries
  | .flag _ => .flag
  | .null _ => .null
  | .list _ => .list
  | .map _ => .map

/-- Whether an attribute may stand in a key. -/
def isScalar : Attribute → Bool
  | .text _ | .number _ | .binary _ => true
  | _ => false

/-- The content of a text. -/
def text? : Attribute → Option String
  | .text s => some s
  | _ => none

/-- The numeral of a number. -/
def numeral? : Attribute → Option String
  | .number n => some n
  | _ => none

/-- The items of a list. -/
def items? : Attribute → Option (List Attribute)
  | .list items => some items
  | _ => none

/-- The fields of a map. -/
def fields? : Attribute → Option (Fields Attribute)
  | .map fields => some fields
  | _ => none

/-- A short text for people: scalars and sets of texts in full, of all else the size. -/
def display : Attribute → String
  | .text s => "\"" ++ s ++ "\""
  | .number n => n
  | .binary bytes => "<" ++ toString bytes.length ++ " bytes>"
  | .texts ss | .numbers ss => Text.quoteList ss
  | .binaries bss => "<" ++ toString bss.length ++ " binaries>"
  | .flag true => "true"
  | .flag false => "false"
  | .null _ => "null"
  | .list items => "[" ++ toString items.length ++ " items]"
  | .map fields => "\x7b" ++ toString fields.length ++ " keys\x7d"

/-! ## Equality -/

mutual

/-- Equality of attributes can be decided. -/
def decEq : (a b : Attribute) → Decidable (a = b)
  | .text a, .text b => if h : a = b then isTrue (h ▸ rfl) else isFalse fun e => h (Attribute.text.inj e)
  | .number a, .number b => if h : a = b then isTrue (h ▸ rfl) else isFalse fun e => h (Attribute.number.inj e)
  | .binary a, .binary b => if h : a = b then isTrue (h ▸ rfl) else isFalse fun e => h (Attribute.binary.inj e)
  | .texts a, .texts b => if h : a = b then isTrue (h ▸ rfl) else isFalse fun e => h (Attribute.texts.inj e)
  | .numbers a, .numbers b => if h : a = b then isTrue (h ▸ rfl) else isFalse fun e => h (Attribute.numbers.inj e)
  | .binaries a, .binaries b => if h : a = b then isTrue (h ▸ rfl) else isFalse fun e => h (Attribute.binaries.inj e)
  | .flag a, .flag b => if h : a = b then isTrue (h ▸ rfl) else isFalse fun e => h (Attribute.flag.inj e)
  | .null a, .null b => if h : a = b then isTrue (h ▸ rfl) else isFalse fun e => h (Attribute.null.inj e)
  | .list a, .list b =>
    match decEqItems a b with
    | isTrue h => isTrue (h ▸ rfl)
    | isFalse h => isFalse fun e => h (Attribute.list.inj e)
  | .map a, .map b =>
    match decEqFields a b with
    | isTrue h => isTrue (h ▸ rfl)
    | isFalse h => isFalse fun e => h (Attribute.map.inj e)
  | .text _, .number _ | .text _, .binary _ | .text _, .texts _ | .text _, .numbers _ | .text _, .binaries _
  | .text _, .flag _ | .text _, .null _ | .text _, .list _ | .text _, .map _
  | .number _, .text _ | .number _, .binary _ | .number _, .texts _ | .number _, .numbers _ | .number _, .binaries _
  | .number _, .flag _ | .number _, .null _ | .number _, .list _ | .number _, .map _
  | .binary _, .text _ | .binary _, .number _ | .binary _, .texts _ | .binary _, .numbers _ | .binary _, .binaries _
  | .binary _, .flag _ | .binary _, .null _ | .binary _, .list _ | .binary _, .map _
  | .texts _, .text _ | .texts _, .number _ | .texts _, .binary _ | .texts _, .numbers _ | .texts _, .binaries _
  | .texts _, .flag _ | .texts _, .null _ | .texts _, .list _ | .texts _, .map _
  | .numbers _, .text _ | .numbers _, .number _ | .numbers _, .binary _ | .numbers _, .texts _
  | .numbers _, .binaries _ | .numbers _, .flag _ | .numbers _, .null _ | .numbers _, .list _ | .numbers _, .map _
  | .binaries _, .text _ | .binaries _, .number _ | .binaries _, .binary _ | .binaries _, .texts _
  | .binaries _, .numbers _ | .binaries _, .flag _ | .binaries _, .null _ | .binaries _, .list _ | .binaries _, .map _
  | .flag _, .text _ | .flag _, .number _ | .flag _, .binary _ | .flag _, .texts _ | .flag _, .numbers _
  | .flag _, .binaries _ | .flag _, .null _ | .flag _, .list _ | .flag _, .map _
  | .null _, .text _ | .null _, .number _ | .null _, .binary _ | .null _, .texts _ | .null _, .numbers _
  | .null _, .binaries _ | .null _, .flag _ | .null _, .list _ | .null _, .map _
  | .list _, .text _ | .list _, .number _ | .list _, .binary _ | .list _, .texts _ | .list _, .numbers _
  | .list _, .binaries _ | .list _, .flag _ | .list _, .null _ | .list _, .map _
  | .map _, .text _ | .map _, .number _ | .map _, .binary _ | .map _, .texts _ | .map _, .numbers _
  | .map _, .binaries _ | .map _, .flag _ | .map _, .null _ | .map _, .list _ =>
    isFalse nofun

/-- Equality of lists of attributes can be decided. -/
def decEqItems : (a b : List Attribute) → Decidable (a = b)
  | [], [] => isTrue rfl
  | [], _ :: _ | _ :: _, [] => isFalse nofun
  | a :: as, b :: bs =>
    match decEq a b, decEqItems as bs with
    | isTrue h, isTrue hs => isTrue (h ▸ hs ▸ rfl)
    | isFalse h, _ => isFalse fun e => h (List.cons.inj e).1
    | _, isFalse hs => isFalse fun e => hs (List.cons.inj e).2

/-- Equality of maps of attributes can be decided. -/
def decEqFields : (a b : List (String × Attribute)) → Decidable (a = b)
  | [], [] => isTrue rfl
  | [], _ :: _ | _ :: _, [] => isFalse nofun
  | (k, a) :: as, (l, b) :: bs =>
    if hk : k = l then
      match decEq a b, decEqFields as bs with
      | isTrue h, isTrue hs => isTrue (hk ▸ h ▸ hs ▸ rfl)
      | isFalse h, _ => isFalse fun e => h (Prod.mk.inj (List.cons.inj e).1).2
      | _, isFalse hs => isFalse fun e => hs (List.cons.inj e).2
    else isFalse fun e => hk (Prod.mk.inj (List.cons.inj e).1).1

end

instance : DecidableEq Attribute := decEq

end Attribute

end RecordStore
