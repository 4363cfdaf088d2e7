import RecordStore.Query.Test

/-!
# Compiling definitions

A definition is compiled to the text of an expression and what its aliases stand for. The fields that must all hold are
joined by AND, those of which one must hold by OR; where there are both, each side stands in parentheses. A projection
is compiled along with it, with aliases of its own. All that goes into one request draws on one source of aliases, which
keeps what it has issued also when a definition is refused.

`Expressions` are the expressions of one query or scan, put together from what was compiled.
-/

namespace RecordStore

/-- A computation that draws aliases and may refuse a definition. -/
abbrev Compile (α : Type) := ExceptT CompileError (StateM Aliases) α

/-- A compiled definition. -/
structure Compiled where
  /-- The condition; the empty text if nothing was asked. -/
  expression : String := ""
  names : NameAliases := []
  values : ValueAliases := []
  /-- The projection, if there is one. -/
  projection : Option String := none
deriving DecidableEq, Repr

namespace Compiled

/-- The condition, if there is one. -/
def condition? (c : Compiled) : Option String :=
  if c.expression.isEmpty then none else some c.expression

/-- Whether there is neither a condition nor a projection. -/
def isEmpty (c : Compiled) : Bool :=
  c.expression.isEmpty && c.projection.isNone

end Compiled

namespace Compile

/-- A computation that draws aliases and refuses nothing. -/
def lift {α : Type} (draw : StateM Aliases α) : Compile α := fun a =>
  match draw a with
  | (x, a) => (.ok x, a)

/-- A check that draws no alias. -/
def ofExcept {α : Type} (r : Except CompileError α) : Compile α := fun a => (r, a)

/-- The condition of a clause; none for a tag that is passed over. -/
def clause (strict : Bool) (field : String) (c : Clause) : Compile (Option BoundCondition) := do
  match ← ofExcept (Test.checkClause strict field c) with
  | some test => some <$> lift (test.bind field)
  | none => return none

/-- The conditions of clauses, without those that are passed over. -/
def clauses (strict : Bool) (field : String) : List Clause → Compile (List BoundCondition)
  | [] => return []
  | c :: rest => do
    let f ← clause strict field c
    let fs ← clauses strict field rest
    return f.toList ++ fs

/-- The condition of equality with a value. -/
def equals (field : String) (value : Json) : StateM Aliases BoundCondition :=
  (Test.compare .eq (.ofJson value)).bind field

/-- The conditions of what is asked of a field. -/
def conditions (strict : Bool) (leaf : Leaf) : Compile (List BoundCondition) :=
  match leaf.condition with
  | .equals value => do return [← lift (equals leaf.field value)]
  | .operators cs => clauses strict leaf.field cs

/-- The condition of a leaf, of which something must be asked. -/
def leaf (strict : Bool) (l : Leaf) : Compile BoundCondition := do
  match BoundCondition.all (← conditions strict l) with
  | some f => return f
  | none => ofExcept (.error (.emptyCondition l.field))

/-- The conditions of leaves. -/
def leaves (strict : Bool) : List Leaf → Compile (List BoundCondition)
  | [] => return []
  | l :: rest => do
    let f ← leaf strict l
    let fs ← leaves strict rest
    return f :: fs

/-- Conditions with a word between them. -/
def joinText (word : String) (conditions : List BoundCondition) : String :=
  word.intercalate (conditions.map BoundCondition.text)

/-- The text of both sides. -/
def joinSides (required alternatives : List BoundCondition) : String :=
  match required, alternatives with
  | [], [] => ""
  | _, [] => joinText " AND " required
  | [], _ => joinText " OR " alternatives
  | _, _ => "(" ++ joinText " AND " required ++ ") AND (" ++ joinText " OR " alternatives ++ ")"

/-- Issues an alias for each of some names: the aliases, and what they stand for. -/
def bindNames : List String → StateM Aliases (List (String × String))
  | [] => pure []
  | name :: rest => do
    let drawn ← Aliases.drawName
    let more ← bindNames rest
    return (drawn, name) :: more

/-- The text of a projection on some aliases; none if there are none. -/
def projectionText (aliases : List String) : Option String :=
  if aliases.isEmpty then none else some (", ".intercalate aliases)

/-- Compiles a definition and a projection on some fields; no fields stand for no projection. -/
def definition (strict : Bool) (d : Definition) (fields : List String) : Compile Compiled := do
  let required ← leaves strict d.required
  let alternatives ← leaves strict d.alternatives
  let projected ← lift (bindNames fields)
  let conditions := required ++ alternatives
  return {
    expression := joinSides required alternatives
    names := (BoundCondition.allNames conditions).merge projected
    values := BoundCondition.allValues conditions
    projection := projectionText (projected.map (·.1)) }

/-- Checks that a leaf uses no operator but those for keys. -/
def checkKeyLeaf (l : Leaf) : Except CompileError Unit :=
  match l.tags.find? fun tag => !(Operator.ofTag? tag).any Operator.isForKeys with
  | some tag => .error (.notForKeys l.field tag)
  | none => .ok ()

/-- Checks that a definition uses no operator but those for keys. -/
def checkKey (d : Definition) : Except CompileError Unit :=
  d.all.forM checkKeyLeaf

/-- Compiles a definition as a condition on keys. -/
def keyCondition (strict : Bool) (d : Definition) (fields : List String) : Compile Compiled := do
  ofExcept (checkKey d)
  definition strict d fields

end Compile

/-- The expressions of one query or scan. -/
structure Expressions where
  keyCondition : Option String := none
  filter : Option String := none
  projection : Option String := none
  names : NameAliases := []
  values : ValueAliases := []
deriving DecidableEq, Repr

namespace Expressions

/-- The expressions of a read with a key condition. -/
def ofKeyCondition (c : Compiled) : Expressions :=
  { keyCondition := c.condition?, projection := c.projection, names := c.names, values := c.values }

/-- The expressions with a filter too. Its projection counts only if there was none. -/
def addFilter (r : Expressions) (c : Compiled) : Expressions :=
  { r with
    filter := c.condition? <|> r.filter
    projection := r.projection <|> c.projection
    names := r.names.merge c.names
    values := r.values.merge c.values }

/-- The expressions of a read with a filter alone. -/
def ofFilter (c : Compiled) : Expressions :=
  ({} : Expressions).addFilter c

end Expressions

end RecordStore
