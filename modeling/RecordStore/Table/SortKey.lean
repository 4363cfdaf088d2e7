import RecordStore.Number.Binary64
import RecordStore.Store.Request
import RecordStore.Expression.Token

/-!
# Sort keys and positions

A key value has a place in an order (`SortKey.compare`): texts come first, then numbers, then bytes; texts and bytes are
ordered byte by byte, and numbers as doubles, with every numeral that is none after all others. A `Position` is where an
item stands in a read: the values of several key attributes, compared one after the other, a missing one first. Beside
these orders stand an equality and a partial order of keys and of positions.
-/

namespace RecordStore

/-- Why a table refuses an item, a key or a read. -/
inductive TableError where
  /-- A key attribute is missing. -/
  | missingKey (field : String)
  /-- A key attribute has the wrong type; without an expected type, any of the key types would do. -/
  | wrongType (field : String) (expected : Option KeyType) (actual : AttributeType)
  /-- The key to start after is not one. -/
  | badStartKey (cause : TableError)
  /-- An expression cannot be evaluated. -/
  | expression (cause : ExprError)
deriving DecidableEq, Repr

/-- The message of an error. -/
def TableError.message : TableError → String
  | .missingKey field => "One of the required keys was not given a value: " ++ field
  | .wrongType field expected actual =>
    "Type mismatch for key " ++ field ++ ": expected " ++
      (match expected with | some t => t.tag | none => "S, N, or B") ++ ", got " ++ actual.tag
  | .badStartKey cause => "The provided starting key is invalid: " ++ cause.message
  | .expression cause => cause.message

/-- A value that has a place in the order of keys. -/
inductive SortKey where
  | text (s : String)
  | number (numeral : String)
  | binary (bytes : List UInt8)
deriving DecidableEq, Repr

namespace SortKey

/-- The key value of an attribute. -/
def ofAttribute? (field : String) : Attribute → Except TableError SortKey
  | .text s => .ok (.text s)
  | .number n => .ok (.number n)
  | .binary bytes => .ok (.binary bytes)
  | a => .error (.wrongType field none a.type)

/-- The double that a numeral stands for; what is no numeral stands for what is not a number. -/
def double (numeral : String) : Binary64 :=
  (Binary64.parse? numeral.toList).getD (Binary64.notANumber false)

/-- The place of a type among the types. -/
def rank : SortKey → Nat
  | .text _ => 0
  | .number _ => 1
  | .binary _ => 2

/-- The order of key values. -/
def compare : SortKey → SortKey → Ordering
  | .text a, .text b => compareOfLessAndEq a b
  | .number a, .number b => Binary64.totalCompare (double a) (double b)
  | .binary a, .binary b => compareOfLessAndEq a b
  | a, b => Ord.compare a.rank b.rank

/-- Whether key values are equal. -/
def same (a b : SortKey) : Bool :=
  compare a b = .eq

/-- The order of key values as one in which some need not have a place. -/
def partialCompare (a b : SortKey) : Option Ordering :=
  some (compare a b)

end SortKey

/-- Where an item stands in a read. -/
abbrev Position := List (Option SortKey)

namespace Position

/-- The order of two parts of positions; a missing part comes first. -/
def comparePart : Option SortKey → Option SortKey → Ordering
  | none, none => .eq
  | none, some _ => .lt
  | some _, none => .gt
  | some a, some b => SortKey.compare a b

/-- The order of positions: that of the first parts that differ. -/
def compare : Position → Position → Ordering
  | [], [] => .eq
  | [], _ :: _ => .lt
  | _ :: _, [] => .gt
  | a :: as, b :: bs =>
    match comparePart a b with
    | .eq => compare as bs
    | o => o

/-- Whether two parts of positions are equal. -/
def samePart : Option SortKey → Option SortKey → Bool
  | none, none => true
  | some a, some b => a.same b
  | _, _ => false

/-- Whether positions are equal, part by part. -/
def same : Position → Position → Bool
  | [], [] => true
  | a :: as, b :: bs => samePart a b && same as bs
  | _, _ => false

/-- The partial order of two parts of positions. -/
def partialComparePart : Option SortKey → Option SortKey → Option Ordering
  | none, none => some .eq
  | none, some _ => some .lt
  | some _, none => some .gt
  | some a, some b => a.partialCompare b

/-- The partial order of positions: that of the first parts that are not equal in it. -/
def partialCompare : Position → Position → Option Ordering
  | [], [] => some .eq
  | [], _ :: _ => some .lt
  | _ :: _, [] => some .gt
  | a :: as, b :: bs =>
    match partialComparePart a b with
    | some .eq => partialCompare as bs
    | o => o

end Position

end RecordStore
