/-!
# Base64

Bytes as text in the standard alphabet (`A`–`Z`, `a`–`z`, `0`–`9`, `+`, `/`), three bytes to four characters, the last
group filled up with `=`. Decoding is strict: the padding is there and nowhere else, the bits that it leaves over are
zero, and no other character is skipped. So each list of bytes has exactly one text.
-/

namespace RecordStore.Base64

/-- The character of a group of six bits. -/
def digit (n : Nat) : Char :=
  if n < 26 then Char.ofNat ('A'.toNat + n)
  else if n < 52 then Char.ofNat ('a'.toNat + (n - 26))
  else if n < 62 then Char.ofNat ('0'.toNat + (n - 52))
  else if n = 62 then '+'
  else '/'

/-- The six bits that a character of the alphabet stands for. -/
def digit? (c : Char) : Option Nat :=
  if 'A' ≤ c ∧ c ≤ 'Z' then some (c.toNat - 'A'.toNat)
  else if 'a' ≤ c ∧ c ≤ 'z' then some (c.toNat - 'a'.toNat + 26)
  else if '0' ≤ c ∧ c ≤ '9' then some (c.toNat - '0'.toNat + 52)
  else if c = '+' then some 62
  else if c = '/' then some 63
  else none

/-- The text of some bytes, as characters. -/
def encodeChars : List UInt8 → List Char
  | [] => []
  | [a] => [digit (a.toNat / 4), digit (a.toNat % 4 * 16), '=', '=']
  | [a, b] =>
    [digit (a.toNat / 4), digit (a.toNat % 4 * 16 + b.toNat / 16), digit (b.toNat % 16 * 4), '=']
  | a :: b :: c :: rest =>
    digit (a.toNat / 4) :: digit (a.toNat % 4 * 16 + b.toNat / 16) ::
      digit (b.toNat % 16 * 4 + c.toNat / 64) :: digit (c.toNat % 64) :: encodeChars rest

/-- The byte in the characters `a b = =`. -/
def lastOne? (a b : Char) : Option (List UInt8) := do
  let x ← digit? a
  let y ← digit? b
  if y % 16 = 0 then some [UInt8.ofNat (x * 4 + y / 16)] else none

/-- The two bytes in the characters `a b c =`. -/
def lastTwo? (a b c : Char) : Option (List UInt8) := do
  let x ← digit? a
  let y ← digit? b
  let z ← digit? c
  if z % 4 = 0 then some [UInt8.ofNat (x * 4 + y / 16), UInt8.ofNat (y % 16 * 16 + z / 4)] else none

/-- The three bytes in four characters of the alphabet. -/
def three? (a b c d : Char) : Option (List UInt8) := do
  let x ← digit? a
  let y ← digit? b
  let z ← digit? c
  let w ← digit? d
  some [UInt8.ofNat (x * 4 + y / 16), UInt8.ofNat (y % 16 * 16 + z / 4), UInt8.ofNat (z % 4 * 64 + w)]

/-- The bytes that the characters stand for. -/
def decodeChars : List Char → Option (List UInt8)
  | [] => some []
  | [a, b, '=', '='] => lastOne? a b
  | [a, b, c, '='] => lastTwo? a b c
  | a :: b :: c :: d :: rest => do
    let head ← three? a b c d
    let tail ← decodeChars rest
    some (head ++ tail)
  | _ => none

/-- The text of some bytes. -/
def encode (bytes : List UInt8) : String :=
  String.ofList (encodeChars bytes)

/-- The bytes that a text stands for, if it is the text of any. -/
def decode? (text : String) : Option (List UInt8) :=
  decodeChars text.toList

end RecordStore.Base64
