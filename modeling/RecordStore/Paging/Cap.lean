import RecordStore.Settings

/-!
# How much a read looks at

A page is filled by reads that look at so many items each. `CapBounds.cap` says at how many: what is asked for or
else the default, between the bounds that are set, but at least one more than the page holds.
-/

namespace RecordStore

/-- The bounds of how much a read looks at. -/
structure CapBounds where
  default : Nat
  min : Nat
  max : Nat
deriving DecidableEq, Repr

namespace CapBounds

/-- The bounds that are set. -/
def ofSettings (c : Settings) : CapBounds :=
  ⟨c.defaultCap, c.minCap, c.maxCap⟩

/-- A number that was given; zero counts as none. -/
def positive? (n : Option Nat) : Option Nat :=
  n.filter fun n => 0 < n

/-- The number after one of 64 bits, which after the greatest is zero. -/
def successor64 (n : Nat) : Nat :=
  (n + 1) % Numeral.natBound

/-- What is asked for, or else the default, between the bounds. -/
def bounded (limits : CapBounds) (explicit : Option Nat) : Nat :=
  Nat.min (Nat.max (explicit.getD limits.default) limits.min) (Nat.max limits.max limits.min)

/-- How many items a read looks at for a page of a size; without a size and without being told, as many as there are. -/
def cap (limits : CapBounds) (pageSize explicit : Option Nat) : Option Nat :=
  match positive? pageSize, positive? explicit with
  | none, none => none
  | some size, explicit =>
    let cap := limits.bounded explicit
    some (if cap < size then successor64 size else cap)
  | none, explicit => some (limits.bounded explicit)

end CapBounds

end RecordStore
