import RecordStore.Number.Binary64

/-!
# Shortest decimal text of a double

Among the decimals that round to a given finite number, `shortest` picks one with the fewest digits and, of those, the
nearest; an exact tie goes to the even last digit. It tries the grids of 1, 2, … digits in turn: on each, only the two
neighbours of the number can be nearest, and all arithmetic is on whole numbers.

`Layout` says how digits are written down: which decimal exponents are written positionally, and how the others look.
-/

namespace RecordStore

/-- The positive number `digits · 10 ^ exponent`. -/
structure Decimal where
  digits : Nat
  exponent : Int
deriving DecidableEq, Repr

namespace Binary64

/-- A positive fraction times a power of ten, as a fraction. -/
def scaleTen (num den : Nat) (e : Int) : Nat × Nat :=
  if e < 0 then (num, den * Numeral.tenTo (-e).toNat) else (num * Numeral.tenTo e.toNat, den)

/--
The interval of the reals that round to a positive number, in quarters of its last place: the lower end, the number, the
upper end. Below a power of two the next smaller number is only half as far away.
-/
def interval (x : Binary64) : Nat × Nat × Nat :=
  let m := 4 * x.significand
  (if x.place % binade = 0 ∧ 2 * binade ≤ x.place then m - 1 else m - 2, m, m + 2)

/-- A whole number of quarters of the last place of `x`, as a fraction. -/
def quarters (x : Binary64) (n : Nat) : Nat × Nat :=
  let e := x.exponent - 2
  if e < 0 then (n, 1 <<< (-e).toNat) else (n <<< e.toNat, 1)

/-- Whether `k · 10 ^ e` rounds to the positive number `x`; an end of the interval does if the significand is even. -/
def roundsBack (x : Binary64) (k : Nat) (e : Int) : Bool :=
  let ends := x.interval
  let low := scaleTen (x.quarters ends.1).1 (x.quarters ends.1).2 (-e)
  let high := scaleTen (x.quarters ends.2.2).1 (x.quarters ends.2.2).2 (-e)
  if x.significand % 2 = 0 then low.1 ≤ k * low.2 && k * high.2 ≤ high.1
  else low.1 < k * low.2 && k * high.2 < high.1

/-- The decimal exponent of the first digit of a positive number. -/
def leadingExponent (x : Binary64) : Int :=
  let value := x.quarters (4 * x.significand)
  let bits : Int := (value.1.log2 : Int) - value.2.log2
  let guess := bits * 30103 / 100000 - 1
  let fits (e : Int) : Bool :=
    let scaled := scaleTen value.1 value.2 (-e)
    scaled.2 ≤ scaled.1
  if fits (guess + 2) then guess + 2 else if fits (guess + 1) then guess + 1 else guess

/-- The point of the grid of multiples of `10 ^ e` nearest to `x`, and its next nearest neighbour there. -/
def gridNeighbours (x : Binary64) (e : Int) : Nat × Nat :=
  let value := x.quarters (4 * x.significand)
  let scaled := scaleTen value.1 value.2 (-e)
  let nearest := roundHalfEven scaled.1 scaled.2
  (nearest, if nearest = scaled.1 / scaled.2 then nearest + 1 else nearest - 1)

/-- The point of the grid of multiples of `10 ^ e` that rounds to `x` and is nearest to it, if one does. -/
def onGrid (x : Binary64) (e : Int) : Option Nat :=
  let points := x.gridNeighbours e
  if x.roundsBack points.1 e then some points.1
  else if x.roundsBack points.2 e then some points.2
  else none

/--
The decimal for `x` on the first of the grids of `10 ^ e`, `10 ^ (e - 1)`, … that holds one; after `tries` of them, the
nearest point of the next.
-/
def firstGrid (x : Binary64) : Nat → Int → Decimal
  | 0, e => ⟨(x.gridNeighbours e).1, e⟩
  | tries + 1, e =>
    match x.onGrid e with
    | some k => ⟨k, e⟩
    | none => firstGrid x tries (e - 1)

/-- The shortest decimal that rounds to a positive finite number. Seventeen digits always suffice. -/
def shortest (x : Binary64) : Decimal :=
  x.firstGrid 16 x.leadingExponent

end Binary64

/-! ## Layout -/

/-- How the digits of a decimal are laid out. -/
structure Layout where
  /-- The least decimal exponent of the first digit that is written positionally. -/
  plainFrom : Int
  /-- The least decimal exponent above those that are written positionally. -/
  plainBelow : Int

namespace Layout

/-- Digits without the zeros at their end. -/
def stripZeros (ds : List Char) : List Char :=
  (ds.reverse.dropWhile (· == '0')).reverse

/-- Digits in positions: the first has the decimal exponent `e`, and a fraction of at least one digit is written. -/
def positional (ds : List Char) (e : Int) : List Char :=
  if e < 0 then '0' :: '.' :: List.replicate (-e - 1).toNat '0' ++ ds
  else
    let whole := e.toNat + 1
    let fraction := ds.drop whole
    ds.take whole ++ List.replicate (whole - ds.length) '0' ++ '.' :: (if fraction.isEmpty then ['0'] else fraction)

/-- Digits with one before the point, and the exponent with its sign. -/
def scientific (ds : List Char) (e : Int) : List Char :=
  ds.take 1 ++ (if ds.length ≤ 1 then [] else '.' :: ds.drop 1) ++
    'e' :: (if e < 0 then '-' else '+') :: Nat.toDigits 10 e.natAbs

/-- The text of a positive decimal. -/
def write (layout : Layout) (d : Decimal) : List Char :=
  let all := Nat.toDigits 10 d.digits
  let e : Int := d.exponent + all.length - 1
  if layout.plainFrom ≤ e ∧ e < layout.plainBelow then positional (stripZeros all) e
  else scientific (stripZeros all) e

end Layout

namespace Binary64

/-- Numbers from `0.00001` up to, but not including, `10 ^ 16` are written positionally. -/
def layout : Layout := ⟨-5, 16⟩

/-- The text of a finite number: its sign if it is negative, and the shortest decimal that reads back as it. -/
def chars (x : Binary64) : List Char :=
  (if x.negative then ['-'] else []) ++
    (if x.place = 0 then ['0', '.', '0'] else layout.write x.shortest)

end Binary64

end RecordStore
