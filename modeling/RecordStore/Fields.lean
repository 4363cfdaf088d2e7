/-!
# Named fields

`Fields α` is a finite map from names to values, kept as the list of its entries with the names strictly ascending, so
that two maps are equal exactly when their lists are. Names are ordered by code points, which is also the order of
their UTF-8 bytes.

`put`, `remove`, `merge` and `ofList` build such lists (`Fields.Ordered` says what that means), `find` looks a name up.
-/

namespace RecordStore

/-- A finite map from names to values: its entries in ascending order of their names. -/
abbrev Fields (α : Type) := List (String × α)

namespace Fields

variable {α β : Type}

/-- The names of the entries are strictly ascending. -/
def Ordered (m : Fields α) : Prop :=
  m.Pairwise fun a b => a.1 < b.1

/-- The value under a name. -/
def find : Fields α → String → Option α
  | [], _ => none
  | (k, v) :: rest, name => if k = name then some v else find rest name

/-- Whether a name has a value. -/
def has (m : Fields α) (name : String) : Bool :=
  (find m name).isSome

/-- The map with the value under a name set. -/
def put (name : String) (value : α) : Fields α → Fields α
  | [] => [(name, value)]
  | (k, v) :: rest =>
    if name < k then (name, value) :: (k, v) :: rest
    else if name = k then (name, value) :: rest
    else (k, v) :: put name value rest

/-- The map without a name. -/
def remove (name : String) (m : Fields α) : Fields α :=
  m.filter fun entry => entry.1 != name

/-- The map of some entries in any order; of several with one name the last counts. -/
def ofList (entries : List (String × α)) : Fields α :=
  entries.foldl (fun m entry => put entry.1 entry.2 m) []

/-- Both maps in one; where both have a name, the second counts. -/
def merge (first second : Fields α) : Fields α :=
  second.foldl (fun m entry => put entry.1 entry.2 m) first

/-- The names, ascending. -/
def names (m : Fields α) : List String :=
  m.map (·.1)

/-- The map with every value changed by `f`. -/
def mapValues (f : α → β) (m : Fields α) : Fields β :=
  m.map fun entry => (entry.1, f entry.2)

/-- The map, unless it is empty. -/
def nonEmpty? (m : Fields α) : Option (Fields α) :=
  if m.isEmpty then none else some m

/-- The entries whose names are in a list. -/
def restrict (m : Fields α) (kept : List String) : Fields α :=
  m.filter fun entry => kept.contains entry.1

end Fields

end RecordStore
