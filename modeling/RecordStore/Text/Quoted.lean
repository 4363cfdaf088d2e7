import RecordStore.Text.Unprintable

/-!
# Quoted text

`quote` writes a text between double quotes. Tab, line feed, carriage return, NUL, the double quote and the backslash
have an escape of one letter; every other character that cannot be seen on its own is written as its code point in
hexadecimal, and all else is written as it is. `quoteList` writes a list of texts in brackets.
-/

namespace RecordStore.Text

/-- One character inside a quoted text. -/
def quoteChar (c : Char) : List Char :=
  if c = '\t' then ['\\', 't']
  else if c = '\r' then ['\\', 'r']
  else if c = '\n' then ['\\', 'n']
  else if c = '"' then ['\\', '"']
  else if c = '\\' then ['\\', '\\']
  else if c = '\x00' then ['\\', '0']
  else if isUnprintable c then ['\\', 'u', '\x7b'] ++ Nat.toDigits 16 c.toNat ++ ['\x7d']
  else [c]

/-- A text between double quotes. -/
def quote (s : String) : String :=
  String.ofList ('"' :: s.toList.flatMap quoteChar ++ ['"'])

/-- Quoted texts in brackets, a comma and a space between them. -/
def quoteList (texts : List String) : String :=
  "[" ++ ", ".intercalate (texts.map quote) ++ "]"

end RecordStore.Text
