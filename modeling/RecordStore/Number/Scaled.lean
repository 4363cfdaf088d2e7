import RecordStore.Number.Binary64

/-!
# Doubles of the numerals in documents

A document may hold a numeral of any length, and the double that it is read as need not be the nearest one.
`Numeral.cut` keeps as many digits as fit 64 bits, and `Binary64.ofScaled` multiplies or divides the double of those
digits by a power of ten, rounding after each step. A numeral of up to fifteen digits with an exponent between -22 and
22 still becomes the nearest double, since then only the last step rounds.
-/

namespace RecordStore

namespace Numeral

/-- Adds digits to a number as long as it fits 64 bits; the digits from the first that does not are left over. -/
def takeFitting (n : Nat) : List Char → Nat × List Char
  | [] => (n, [])
  | c :: rest =>
    if 10 * n + (c.toNat - '0'.toNat) < natBound then takeFitting (10 * n + (c.toNat - '0'.toNat)) rest
    else (n, c :: rest)

/--
The numeral with some digits before and some after its point, cut to digits that fit 64 bits. What is left over before
the point counts as zeros, what is left over after it does not count.
-/
def cut (negative : Bool) (whole fraction : List Char) (exponent : Int) : Numeral :=
  let before := takeFitting 0 whole
  let after := takeFitting before.1 fraction
  ⟨negative, after.1, exponent + before.2.length - (fraction.length - after.2.length : Nat)⟩

end Numeral

namespace Binary64

/-! ## Products and quotients -/

/-- The number nearest to `± num / den · 2 ^ e`. -/
def ofRatioAt (negative : Bool) (num den : Nat) (e : Int) : Binary64 :=
  ofRatio negative (scaleDown num den (-e)).1 (scaleDown num den (-e)).2

/-- The product of two finite numbers. -/
def mul (x y : Binary64) : Binary64 :=
  ofRatioAt (x.negative != y.negative) (x.significand * y.significand) 1 (x.exponent + y.exponent)

/-- The quotient of two finite numbers, of which the second is not zero. -/
def div (x y : Binary64) : Binary64 :=
  ofRatioAt (x.negative != y.negative) x.significand y.significand (x.exponent - y.exponent)

/-! ## Powers of ten -/

/-- The exponent of the greatest power of ten among the finite numbers. -/
def greatestTen : Nat := 308

/-- The number nearest to a power of ten. -/
def tenTo (k : Nat) : Binary64 :=
  ofNumeral ⟨false, 1, k⟩

/-- A finite number times `10 ^ k`. The factor alone lies beyond all finite numbers when `k` is too great. -/
def mulTenTo (x : Binary64) (k : Nat) : Binary64 :=
  if x.place = 0 then x
  else if k ≤ greatestTen then x.mul (tenTo k)
  else infinity x.negative

/--
A number below `10 ^ 20` divided by `10 ^ k`, in two steps if the divisor lies beyond all finite numbers. Divided twice
by the greatest power of ten, it leaves nothing.
-/
def divTenTo (x : Binary64) (k : Nat) : Binary64 :=
  if k ≤ greatestTen then x.div (tenTo k)
  else if k ≤ 2 * greatestTen then (x.div (tenTo greatestTen)).div (tenTo (k - greatestTen))
  else zero x.negative

/-- The number that a numeral with digits of 64 bits is scaled to. -/
def ofScaled (n : Numeral) : Binary64 :=
  let x := ofRatio n.negative n.digits 1
  if n.exponent < 0 then x.divTenTo n.exponent.natAbs else x.mulTenTo n.exponent.natAbs

end Binary64

end RecordStore
