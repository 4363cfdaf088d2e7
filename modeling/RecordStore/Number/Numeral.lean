/-!
# Decimal numerals

A numeral is written as an optional sign, digits with at most one point among or beside them, and an optional decimal
exponent; `Numeral.parse?` reads one, and the number it denotes is `± digits · 10 ^ exponent`. Beside it stand the two
readers of whole numbers: `integer?` (signed, in the range of 64-bit integers) and `natural?` (no minus sign).
-/

namespace RecordStore

/-- The number `± digits · 10 ^ exponent`. -/
structure Numeral where
  negative : Bool
  digits : Nat
  exponent : Int
deriving DecidableEq, Repr

namespace Numeral

/-- The least number that does not fit 64 bits without a sign. -/
def natBound : Nat := 0x10000000000000000

/-- The distance from zero of the least integer that fits 64 bits with a sign. -/
def intBound : Nat := 0x8000000000000000

/-- The greatest integer that fits 32 bits with a sign. -/
def int32Max : Int := 0x7FFFFFFF

/-- A count as an integer that fits 32 bits with a sign; the greatest one stands for all that are too large. -/
def saturate32 (n : Nat) : Int :=
  min n int32Max

/-- A power of ten. -/
def tenTo (n : Nat) : Nat :=
  Nat.pow 10 n

/-- The number that some digits are written for. -/
def ofDigits (ds : List Char) : Nat :=
  ds.foldl (fun n c => 10 * n + (c.toNat - '0'.toNat)) 0

/-- The number of a text that holds digits and nothing else. -/
def digits? (cs : List Char) : Option Nat :=
  if cs.isEmpty || !cs.all Char.isDigit then none else some (ofDigits cs)

/-- Whether a text begins with a minus sign, and the text after its sign, if it has one. -/
def takeSign : List Char → Bool × List Char
  | '-' :: rest => (true, rest)
  | '+' :: rest => (false, rest)
  | rest => (false, rest)

/-- The exponent written at the end of a numeral; nothing stands for zero. -/
def exponent? : List Char → Option Int
  | [] => some 0
  | c :: rest =>
    if c = 'e' ∨ c = 'E' then
      (digits? (takeSign rest).2).map fun n => if (takeSign rest).1 then -(n : Int) else n
    else none

/-- The digits after the point, if a point comes next, and what follows them. -/
def fraction : List Char → List Char × List Char
  | '.' :: rest => (rest.takeWhile Char.isDigit, rest.dropWhile Char.isDigit)
  | rest => ([], rest)

/-- Reads a numeral; all of the text must belong to it. -/
def parse? (cs : List Char) : Option Numeral :=
  let signed := takeSign cs
  let whole := signed.2.takeWhile Char.isDigit
  let tail := fraction (signed.2.dropWhile Char.isDigit)
  if whole.isEmpty && tail.1.isEmpty then none
  else (exponent? tail.2).map fun e => ⟨signed.1, ofDigits (whole ++ tail.1), e - tail.1.length⟩

/-- Reads an optional sign and digits, as an integer that fits 64 bits with or without a sign. -/
def integer? (cs : List Char) : Option Int :=
  match digits? (takeSign cs).2 with
  | none => none
  | some n =>
    if (takeSign cs).1 then if n ≤ intBound then some (-(n : Int)) else none
    else if n < natBound then some n else none

/-- Reads digits, with a plus sign before them or not, as a number that fits 64 bits. -/
def natural? (cs : List Char) : Option Nat :=
  match digits? (match cs with | '+' :: rest => rest | rest => rest) with
  | none => none
  | some n => if n < natBound then some n else none

end Numeral

end RecordStore
