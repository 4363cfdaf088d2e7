import RecordStore.Json.Basic
import RecordStore.Number.Scaled

/-!
# What a text says, as far as it is a document

`Reading` is what a reader has seen of a text: a document whose objects keep their fields in the order and number in
which they were written, up to the first place where the text stops being a document. A reader with expectations of its
own looks at a `Reading` in the order of the text, so that it can object to what it sees before that place is reached.

`Reading.ofText` reads a text, `Json.parse?` reads a text as a whole document, and `Json.reading` is the reading of a
document that is already known.
-/

namespace RecordStore

/-- A document in the order of its text, up to where the text breaks. -/
inductive Reading where
  /-- The text breaks before a value is complete. -/
  | broken
  | null
  | bool (b : Bool)
  | number (n : JsonNumber)
  | string (s : String)
  /-- The items that were begun, and whether the array was closed after the last of them. -/
  | array (items : List Reading) (closed : Bool)
  /-- The fields whose names were read, and whether the object was closed after the last of them. -/
  | object (fields : List (String × Reading)) (closed : Bool)
deriving Inhabited, Repr

namespace Reading

/-! ## Tokens -/

/-- The blanks between the tokens of a document. -/
def isGap (c : Char) : Bool :=
  c = ' ' || c = '\t' || c = '\n' || c = '\r'

/-- A text from its first token on. -/
def skipGap (s : List Char) : List Char :=
  s.dropWhile isGap

/-- The value of a hexadecimal digit in either case. -/
def hexValue? (c : Char) : Option Nat :=
  if '0' ≤ c ∧ c ≤ '9' then some (c.toNat - '0'.toNat)
  else if 'a' ≤ c ∧ c ≤ 'f' then some (c.toNat - 'a'.toNat + 10)
  else if 'A' ≤ c ∧ c ≤ 'F' then some (c.toNat - 'A'.toNat + 10)
  else none

/-- The number that four hexadecimal digits are written for. -/
def hex4? (a b c d : Char) : Option Nat := do
  let w ← hexValue? a
  let x ← hexValue? b
  let y ← hexValue? c
  let z ← hexValue? d
  some (((w * 16 + x) * 16 + y) * 16 + z)

/-- The character that a letter after a backslash stands for. -/
def escape? (c : Char) : Option Char :=
  if c = '"' ∨ c = '\\' ∨ c = '/' then some c
  else if c = 'n' then some '\n'
  else if c = 't' then some '\t'
  else if c = 'r' then some '\r'
  else if c = 'b' then some '\x08'
  else if c = 'f' then some '\x0c'
  else none

/-- The first half of a character written as two UTF-16 units. -/
def isHighHalf (n : Nat) : Bool := 0xD800 ≤ n && n < 0xDC00

/-- The second half of a character written as two UTF-16 units. -/
def isLowHalf (n : Nat) : Bool := 0xDC00 ≤ n && n < 0xE000

/-- A string with a character in front, and the text after it. -/
def consChar (c : Char) : Option (List Char × List Char) → Option (List Char × List Char)
  | some (body, rest) => some (c :: body, rest)
  | none => none

/-- Reads a string after its first quote: its characters, and the text after its last quote. -/
def stringBody : List Char → Option (List Char × List Char)
  | [] => none
  | '"' :: rest => some ([], rest)
  | '\\' :: 'u' :: a :: b :: c :: d :: rest =>
    match hex4? a b c d with
    | none => none
    | some n =>
      if isHighHalf n then
        match rest with
        | '\\' :: 'u' :: e :: f :: g :: h :: rest' =>
          match hex4? e f g h with
          | none => none
          | some m =>
            if isLowHalf m then
              consChar (Char.ofNat (0x10000 + (n - 0xD800) * 0x400 + (m - 0xDC00))) (stringBody rest')
            else none
        | _ => none
      else if isLowHalf n then none
      else consChar (Char.ofNat n) (stringBody rest)
  | '\\' :: e :: rest =>
    match escape? e with
    | some c => consChar c (stringBody rest)
    | none => none
  | c :: rest => if c = '\\' ∨ c.toNat < 0x20 then none else consChar c (stringBody rest)

/-- The digits at the front of a text, of which there must be one. -/
def someDigits (s : List Char) : Option (List Char × List Char) :=
  if (s.takeWhile Char.isDigit).isEmpty then none
  else some (s.takeWhile Char.isDigit, s.dropWhile Char.isDigit)

/-- The digits of a whole number: no zero stands before another digit. -/
def wholePart (s : List Char) : Option (List Char × List Char) :=
  match someDigits s with
  | some ('0' :: _ :: _, _) => none
  | r => r

/-- The digits after a point, if a point comes next. -/
def fractionPart : List Char → Option (List Char × List Char)
  | '.' :: rest => someDigits rest
  | rest => some ([], rest)

/-- The exponent after a letter `e`, if that comes next. -/
def exponentPart : List Char → Option (Option Int × List Char)
  | c :: rest =>
    if c = 'e' ∨ c = 'E' then
      match someDigits (Numeral.takeSign rest).2 with
      | some (ds, rest') =>
        let n : Int := Numeral.ofDigits ds
        some (some (if (Numeral.takeSign rest).1 then -n else n), rest')
      | none => none
    else some (none, c :: rest)
  | [] => some (none, [])

/-- The number of a token without fraction and exponent, if it is a whole one: negative zero is not. -/
def wholeNumber? (negative : Bool) (n : Nat) : Option Int :=
  let i : Int := if negative then -(n : Int) else n
  if JsonNumber.fits i && !(negative && n == 0) then some i else none

/-- The number of a token: whole if it is written so and fits 64 bits, else the double that it is scaled to. -/
def tokenNumber (negative : Bool) (whole fraction : List Char) (exponent : Option Int) : JsonNumber :=
  match if fraction.isEmpty && exponent.isNone then wholeNumber? negative (Numeral.ofDigits whole) else none with
  | some i => .whole i
  | none => .double (Binary64.ofScaled (Numeral.cut negative whole fraction (exponent.getD 0)))

/-- A number that a document can hold. -/
def finite? : JsonNumber → Option JsonNumber
  | .whole n => some (.whole n)
  | .double x => if x.isFinite then some (.double x) else none

/-- Reads a number. One beyond all finite doubles is none. -/
def numberToken (s : List Char) : Option (JsonNumber × List Char) := do
  let negative := s.head? = some '-'
  let (whole, s) ← wholePart (if negative then s.tail else s)
  let (fraction, s') ← fractionPart s
  let (exponent, s'') ← exponentPart s'
  let n ← finite? (tokenNumber negative whole fraction exponent)
  some (n, s'')

/-- Reads a word, a string or a number. -/
def scalar (s : List Char) : Reading × Option (List Char) :=
  match s with
  | 'n' :: 'u' :: 'l' :: 'l' :: rest => (.null, some rest)
  | 't' :: 'r' :: 'u' :: 'e' :: rest => (.bool true, some rest)
  | 'f' :: 'a' :: 'l' :: 's' :: 'e' :: rest => (.bool false, some rest)
  | '"' :: rest =>
    match stringBody rest with
    | some (body, rest) => (.string (String.ofList body), some rest)
    | none => (.broken, none)
  | s =>
    match numberToken s with
    | some (n, rest) => (.number n, some rest)
    | none => (.broken, none)

/-! ## Containers -/

/-- A reader of values: what it saw, and the text after it unless that broke. -/
abbrev Reader := List Char → Reading × Option (List Char)

/-- Reads the further items of an array. At most `fuel` more are read; each takes a character at least. -/
def moreItems (read : Reader) : Nat → List Char → List Reading × Option (List Char)
  | 0, _ => ([], none)
  | fuel + 1, s =>
    match skipGap s with
    | ']' :: rest => ([], some rest)
    | ',' :: rest =>
      if (skipGap rest).head? = some ']' then ([], none)
      else
        match read rest with
        | (item, some rest') =>
          let more := moreItems read fuel rest'
          (item :: more.1, more.2)
        | (item, none) => ([item], none)
    | _ => ([], none)

/-- Reads an array after its bracket. -/
def items (read : Reader) (s : List Char) : List Reading × Option (List Char) :=
  if (skipGap s).head? = some ']' then ([], some (skipGap s).tail)
  else
    match read s with
    | (item, some rest) =>
      let more := moreItems read s.length rest
      (item :: more.1, more.2)
    | (item, none) => ([item], none)

/-- Reads the name of a field and the colon after it: `none` where there is no name, and no text where no colon. -/
def fieldName (s : List Char) : Option (String × Option (List Char)) :=
  match skipGap s with
  | '"' :: rest =>
    match stringBody rest with
    | some (body, rest') =>
      match skipGap rest' with
      | ':' :: rest'' => some (String.ofList body, some rest'')
      | _ => some (String.ofList body, none)
    | none => none
  | _ => none

/-- Reads a field and then the further fields of an object. At most `fuel` fields are read. -/
def someFields (read : Reader) : Nat → List Char → List (String × Reading) × Option (List Char)
  | 0, _ => ([], none)
  | fuel + 1, s =>
    match fieldName s with
    | none => ([], none)
    | some (name, none) => ([(name, .broken)], none)
    | some (name, some rest) =>
      match read rest with
      | (value, none) => ([(name, value)], none)
      | (value, some rest') =>
        match skipGap rest' with
        | '\x7d' :: rest'' => ([(name, value)], some rest'')
        | ',' :: rest'' =>
          let more := someFields read fuel rest''
          ((name, value) :: more.1, more.2)
        | _ => ([(name, value)], none)

/-- Reads an object after its brace. -/
def fields (read : Reader) (s : List Char) : List (String × Reading) × Option (List Char) :=
  if (skipGap s).head? = some '\x7d' then ([], some (skipGap s).tail)
  else someFields read s.length s

/-- Reads a value, the values inside it by `inner`; without that, no container may be entered. -/
def node (inner : Option Reader) (s : List Char) : Reading × Option (List Char) :=
  match skipGap s with
  | '[' :: rest =>
    match inner with
    | some read =>
      let seen := items read rest
      (.array seen.1 seen.2.isSome, seen.2)
    | none => (.array [] false, none)
  | '\x7b' :: rest =>
    match inner with
    | some read =>
      let seen := fields read rest
      (.object seen.1 seen.2.isSome, seen.2)
    | none => (.object [] false, none)
  | rest => scalar rest

/-- Reads a value with containers nested at most `depth` deep. -/
def value : Nat → Reader
  | 0 => node none
  | depth + 1 => node (some (value depth))

/-- How deep the containers of a document may be nested. -/
def maxDepth : Nat := 127

/-- What a text says, and whether nothing else follows it. -/
def ofText (s : String) : Reading × Bool :=
  match value maxDepth s.toList with
  | (r, some rest) => (r, (skipGap rest).isEmpty)
  | (r, none) => (r, false)

/-! ## Documents -/

mutual

/-- The document that was read, if the text did not break. Of two fields with one name the later counts. -/
def toJson? : Reading → Option Json
  | .broken => none
  | .null => some .null
  | .bool b => some (.bool b)
  | .number n => some (.number n)
  | .string s => some (.string s)
  | .array items closed => if closed then (toItems? items).map .array else none
  | .object fields closed => if closed then (toFields? fields).map fun fs => .object (Fields.ofList fs) else none

/-- The items that were read. -/
def toItems? : List Reading → Option (List Json)
  | [] => some []
  | item :: rest => do
    let j ← toJson? item
    let js ← toItems? rest
    some (j :: js)

/-- The fields that were read, in the order of the text. -/
def toFields? : List (String × Reading) → Option (List (String × Json))
  | [] => some []
  | (name, value) :: rest => do
    let j ← toJson? value
    let js ← toFields? rest
    some ((name, j) :: js)

end

end Reading

namespace Json

/-- The document that a text is, blanks around it allowed. -/
def parse? (s : String) : Option Json :=
  if (Reading.ofText s).2 then (Reading.ofText s).1.toJson? else none

mutual

/-- A document as the reading of a text that is just it. -/
def reading : Json → Reading
  | .null => .null
  | .bool b => .bool b
  | .number n => .number n
  | .string s => .string s
  | .array items => .array (itemReadings items) true
  | .object fields => .object (fieldReadings fields) true

/-- The readings of the items of an array. -/
def itemReadings : List Json → List Reading
  | [] => []
  | item :: rest => reading item :: itemReadings rest

/-- The readings of the fields of an object. -/
def fieldReadings : List (String × Json) → List (String × Reading)
  | [] => []
  | (name, value) :: rest => (name, reading value) :: fieldReadings rest

end

end Json

end RecordStore
