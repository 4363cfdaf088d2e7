import RecordStore.Number.Numeral

/-!
# Double-precision numbers

`Binary64` is a number of the IEEE 754 format binary64, as its sign and its place on the scale of magnitudes: zero is 0,
the least positive number is 1, each number is followed by the next larger one, infinity is `infinityPlace`, and
whatever lies beyond is not a number. The place of a finite number is its bit pattern without the sign, so it is
`significand · 2 ^ exponent` with the two functions below.

`ofRatio` rounds a fraction to the nearest number, a tie to the even significand; `parse?` reads a numeral or the name
of a number that is not finite. Two orders compare: `partialCompare` by value, which knows no place for what is not a
number, and `totalCompare`, which ranks everything and puts negative zero below zero.
-/

namespace RecordStore

/-- A double-precision number: its sign, and its place among the magnitudes. -/
structure Binary64 where
  negative : Bool
  place : Nat
deriving DecidableEq, Repr

namespace Binary64

/-- How many magnitudes share an exponent: `2 ^ 52`. -/
def binade : Nat := 0x10000000000000

/-- The exponent of the finest magnitudes. -/
def leastExponent : Int := -1074

/-- The place of infinity: 2047 binades above zero. -/
def infinityPlace : Nat := 2047 * binade

/-- Zero of a sign. -/
def zero (negative : Bool) : Binary64 := ⟨negative, 0⟩

/-- Infinity of a sign. -/
def infinity (negative : Bool) : Binary64 := ⟨negative, infinityPlace⟩

/-- The quiet value that is not a number. -/
def notANumber (negative : Bool) : Binary64 := ⟨negative, infinityPlace + binade / 2⟩

/-- Whether a value is not a number. -/
def isNaN (x : Binary64) : Bool := infinityPlace < x.place

/-- Whether a value is a finite number. -/
def isFinite (x : Binary64) : Bool := x.place < infinityPlace

/-- The whole number that a finite magnitude is a multiple of a power of two by. -/
def significand (x : Binary64) : Nat :=
  if x.place < binade then x.place else binade + x.place % binade

/-- The power of two that a finite magnitude is a multiple of. -/
def exponent (x : Binary64) : Int :=
  if x.place < binade then leastExponent else (x.place / binade : Nat) - 1 + leastExponent

/-! ## Rounding -/

/-- The whole number nearest to `num / den`; halfway, the even one. -/
def roundHalfEven (num den : Nat) : Nat :=
  let q := num / den
  let r := num % den
  if 2 * r < den then q
  else if den < 2 * r then q + 1
  else q + q % 2

/-- `num / den` divided by `2 ^ e`, as a fraction. -/
def scaleDown (num den : Nat) (e : Int) : Nat × Nat :=
  if e < 0 then (num <<< (-e).toNat, den) else (num, den <<< e.toNat)

/-- The exponent at which `num / den` has a significand of 53 bits, or the least one if it has fewer there. -/
def ratioExponent (num den : Nat) : Int :=
  let guess : Int := (num.log2 : Int) - den.log2 - 53
  let scaled := scaleDown num den guess
  let fit := if scaled.1 / scaled.2 < 2 * binade then guess else guess + 1
  max fit leastExponent

/-- The number nearest to `± num / den`; infinity when that lies beyond the largest finite number. -/
def ofRatio (negative : Bool) (num den : Nat) : Binary64 :=
  if num = 0 then zero negative
  else
    let e := ratioExponent num den
    let scaled := scaleDown num den e
    let place := (e - leastExponent).toNat * binade + roundHalfEven scaled.1 scaled.2
    if place < infinityPlace then ⟨negative, place⟩ else infinity negative

/-- The number nearest to a numeral. An exponent beyond all magnitudes is not computed with. -/
def ofNumeral (n : Numeral) : Binary64 :=
  if n.digits = 0 then zero n.negative
  else if 400 < n.exponent then infinity n.negative
  else if n.exponent < -400 - (n.digits.log2 : Int) then zero n.negative
  else if n.exponent < 0 then ofRatio n.negative n.digits (Numeral.tenTo (-n.exponent).toNat)
  else ofRatio n.negative (n.digits * Numeral.tenTo n.exponent.toNat) 1

/-- The number nearest to an integer. -/
def ofInt (i : Int) : Binary64 :=
  ofRatio (i < 0) i.natAbs 1

/-! ## Reading -/

/-- The number that a name stands for, in letters of any case. -/
def named? (negative : Bool) (cs : List Char) : Option Binary64 :=
  let name := String.ofList (cs.map Char.toLower)
  if name = "inf" ∨ name = "infinity" then some (infinity negative)
  else if name = "nan" then some (notANumber negative)
  else none

/-- Reads a numeral, or the name of a number that is not finite with an optional sign. -/
def parse? (cs : List Char) : Option Binary64 :=
  match Numeral.parse? cs with
  | some n => some (ofNumeral n)
  | none => named? (Numeral.takeSign cs).1 (Numeral.takeSign cs).2

/-! ## Order -/

/-- The place on the scale of all values, which both zeros share. -/
def signedPlace (x : Binary64) : Int :=
  if x.negative then -(x.place : Int) else x.place

/-- The rank in the order of all patterns. -/
def rank (x : Binary64) : Int :=
  if x.negative then -(x.place : Int) - 1 else x.place

/-- The order of values; a value that is not a number has no place in it. -/
def partialCompare (x y : Binary64) : Option Ordering :=
  if x.isNaN || y.isNaN then none else some (compare x.signedPlace y.signedPlace)

/-- The order of all patterns: what is not a number lies at the outer ends, and negative zero is below zero. -/
def totalCompare (x y : Binary64) : Ordering :=
  compare x.rank y.rank

end Binary64

end RecordStore
