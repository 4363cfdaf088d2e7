import RecordStore.Number.Numeral

/-!
# Aliases

An expression names attributes and values by aliases, so that any name and any value can stand in it. `Aliases` issues
them: `#n` or `:v`, a number that counts on with every alias of either kind, and a suffix that stays the same.
-/

namespace RecordStore

/-- A source of aliases: the number of the next one, and what all of them end in. -/
structure Aliases where
  next : Nat := 0
  suffix : String := ""
deriving DecidableEq, Repr

namespace Aliases

/-- A source that starts at a number; of the suffix, the ASCII letters and digits count, letters in lower case. -/
def startingAt (start : Nat) (suffix : String) : Aliases :=
  ⟨start, String.ofList ((suffix.toList.filter Char.isAlphanum).map Char.toLower)⟩

/-- The alias of a name with a number. -/
def nameAlias (suffix : String) (n : Nat) : String := "#n" ++ toString n ++ suffix

/-- The alias of a value with a number. -/
def valueAlias (suffix : String) (n : Nat) : String := ":v" ++ toString n ++ suffix

/-- The source after one more alias. The number has 64 bits, and after the greatest comes zero. -/
def advance (a : Aliases) : Aliases := { a with next := (a.next + 1) % Numeral.natBound }

/-- Issues an alias of a name. -/
def drawName : StateM Aliases String := fun a => (nameAlias a.suffix a.next, a.advance)

/-- Issues an alias of a value. -/
def drawValue : StateM Aliases String := fun a => (valueAlias a.suffix a.next, a.advance)

end Aliases

end RecordStore
