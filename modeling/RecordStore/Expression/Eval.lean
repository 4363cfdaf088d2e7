import RecordStore.Attribute.Basic
import RecordStore.Expression.Token
import RecordStore.Number.Binary64

/-!
# The meaning of expressions

`Scope` is what an expression is read in: an item, and the names and values that the aliases stand for. `Expr.eval` says
whether an expression holds there. Operands are looked up from left to right; one that is not there makes a test fail,
an alias of a value that stands for nothing is an error, and AND and OR stop at the first side that decides.
`Expr.check` looks at the aliases alone, all of them, from left to right.
-/

namespace RecordStore

namespace Attribute

/-! ## Comparing values -/

/-- The order of two values, where they have one: texts and bytes byte by byte, numerals as doubles. -/
def order? : Attribute → Attribute → Option Ordering
  | .text a, .text b => some (compareOfLessAndEq a b)
  | .number a, .number b =>
    match Binary64.parse? a.toList, Binary64.parse? b.toList with
    | some x, some y => x.partialCompare y
    | _, _ => none
  | .binary a, .binary b => some (compareOfLessAndEq a b)
  | _, _ => none

/--
Whether a comparison holds between two values. Scalars of one type are compared by their order, and where they have
none they are only different; all other values can only be the same or not.
-/
def holds (op : Comparison) (a b : Attribute) : Bool :=
  if a.isScalar && decide (a.type = b.type) then
    match order? a b with
    | some o => op.holds o
    | none => op = .ne
  else
    match op with
    | .eq => a = b
    | .ne => a ≠ b
    | _ => false

/-- The size of a value: bytes of a scalar, entries of all that has entries. -/
def size : Attribute → Nat
  | .text s => s.utf8ByteSize
  | .number n => n.utf8ByteSize
  | .binary bytes => bytes.length
  | .texts ss => ss.length
  | .numbers ns => ns.length
  | .binaries bss => bss.length
  | .flag _ | .null _ => 1
  | .list items => items.length
  | .map fields => fields.length

/-- Whether a value begins with another: a text with a text, bytes with bytes. -/
def startsWith : Attribute → Attribute → Bool
  | .text s, .text front => front.toList.isPrefixOf s.toList
  | .binary bytes, .binary front => front.isPrefixOf bytes
  | _, _ => false

/-- Whether a list has another one in it as a run. -/
def hasRun (part : List Char) : List Char → Bool
  | [] => part.isEmpty
  | c :: rest => part.isPrefixOf (c :: rest) || hasRun part rest

/-- Whether a value has another in it: a text a part, a set or list an entry. -/
def hasPart : Attribute → Attribute → Bool
  | .text s, .text part => hasRun part.toList s.toList
  | .texts ss, .text s => ss.contains s
  | .numbers ns, .number n => ns.contains n
  | .binaries bss, .binary bytes => bss.contains bytes
  | .list items, a => items.any fun item => item = a
  | _, _ => false

end Attribute

/-! ## Scopes -/

/-- What an expression is read in. -/
structure Scope where
  item : Item
  names : Fields String
  values : Fields Attribute

namespace Scope

/-- The name that is meant: an alias stands for another name, if for any. -/
def resolve (names : Fields String) (name : String) : Option String :=
  if name.toList.head? = some '#' then names.find name else some name

/-- Follows steps from a value. -/
def follow (names : Fields String) : List PathStep → Attribute → Option Attribute
  | [], a => some a
  | .field name :: rest, a => do
    let name ← resolve names name
    let inner ← (← a.fields?).find name
    follow names rest inner
  | .index i :: rest, a => do
    let inner ← (← a.items?)[i]?
    follow names rest inner

/-- The value that a path leads to. -/
def lookup (s : Scope) (p : Path) : Option Attribute := do
  let name ← resolve s.names p.head
  follow s.names p.steps (← s.item.find name)

/-- The value of an operand, if it is there. -/
def operand (s : Scope) : Operand → Except ExprError (Option Attribute)
  | .path p => .ok (s.lookup p)
  | .value name =>
    match s.values.find name with
    | some a => .ok (some a)
    | none => .error (.unresolvedValue name)
  | .size p => .ok ((s.lookup p).map fun a => .number (toString a.size))

/-- Whether a value is among operands; they are looked up one by one until it is found. -/
def isAmong (s : Scope) (a : Attribute) : List Operand → Except ExprError Bool
  | [] => .ok false
  | o :: rest => do
    match ← s.operand o with
    | some b => if Attribute.holds .eq a b then .ok true else s.isAmong a rest
    | none => s.isAmong a rest

/-- The value of a function for a value that may be missing, and a second argument that may be. -/
def apply (f : Function) (target argument : Option Attribute) : Except ExprError Bool :=
  match f with
  | .attributeExists => .ok target.isSome
  | .attributeNotExists => .ok target.isNone
  | .attributeType =>
    match argument with
    | some (.text tag) => .ok (target.any fun a => a.type.tag = tag)
    | _ => .error (.typeNotText f)
  | .beginsWith =>
    match target, argument with
    | some a, some b => .ok (a.startsWith b)
    | _, _ => .ok false
  | .contains =>
    match target, argument with
    | some a, some b => .ok (a.hasPart b)
    | _, _ => .ok false

/-- The value of a function for its arguments. -/
def call (s : Scope) (f : Function) : List Operand → Except ExprError Bool
  | [] => .error (.noArguments f)
  | .path p :: rest => do
    let argument ← match rest with
      | o :: _ => s.operand o
      | [] => .ok none
    apply f (s.lookup p) argument
  | _ :: _ => .error (.notAPath f)

/-- The attributes of the item in which paths start. -/
def project (s : Scope) (paths : List Path) : Item :=
  paths.foldl (fun out p =>
    match resolve s.names p.head with
    | some name =>
      match s.item.find name with
      | some a => Fields.put name a out
      | none => out
    | none => out) []

end Scope

namespace Expr

/-- Whether an expression holds in a scope. -/
def eval (s : Scope) : Expr → Except ExprError Bool
  | .compare left op right => do
    let l ← s.operand left
    let r ← s.operand right
    match l, r with
    | some a, some b => .ok (Attribute.holds op a b)
    | _, _ => .ok false
  | .between value low high => do
    let v ← s.operand value
    let lo ← s.operand low
    let hi ← s.operand high
    match v, lo, hi with
    | some a, some b, some c => .ok (Attribute.holds .ge a b && Attribute.holds .le a c)
    | _, _, _ => .ok false
  | .among value candidates => do
    match ← s.operand value with
    | some a => s.isAmong a candidates
    | none => .ok false
  | .and left right => do
    if ← eval s left then eval s right else .ok false
  | .or left right => do
    if ← eval s left then .ok true else eval s right
  | .not inner => do
    .ok (!(← eval s inner))
  | .call f arguments => s.call f arguments

/-! ## Aliases -/

/-- Checks that the names along a path stand for something. -/
def checkPath (names : Fields String) (p : Path) : Except ExprError Unit :=
  match p.names.find? fun name => (Scope.resolve names name).isNone with
  | some name => .error (.unresolvedName name)
  | none => .ok ()

/-- Checks that the aliases of an operand stand for something. -/
def checkOperand (names : Fields String) (values : Fields Attribute) : Operand → Except ExprError Unit
  | .path p | .size p => checkPath names p
  | .value name => if values.has name then .ok () else .error (.unresolvedValue name)

/-- Checks that the aliases of operands stand for something. -/
def checkOperands (names : Fields String) (values : Fields Attribute) : List Operand → Except ExprError Unit
  | [] => .ok ()
  | o :: rest => do
    checkOperand names values o
    checkOperands names values rest

/-- Checks that every alias of an expression stands for something, from left to right. -/
def check (names : Fields String) (values : Fields Attribute) : Expr → Except ExprError Unit
  | .compare left _ right => checkOperands names values [left, right]
  | .between value low high => checkOperands names values [value, low, high]
  | .among value candidates => checkOperands names values (value :: candidates)
  | .and left right | .or left right => do
    check names values left
    check names values right
  | .not inner => check names values inner
  | .call _ arguments => checkOperands names values arguments

/-- Whether an operand is the attribute `key` itself. -/
def isKey (names : Fields String) (key : String) : Operand → Bool
  | .path ⟨head, []⟩ => Scope.resolve names head = some key
  | _ => false

/-- Whether an operand is an alias of a value. -/
def isValue : Operand → Bool
  | .value _ => true
  | _ => false

/-- Whether a condition says that the attribute `key` equals a value. -/
def fixes (names : Fields String) (key : String) : Expr → Bool
  | .compare left .eq right =>
    (isKey names key left && isValue right) || (isKey names key right && isValue left)
  | _ => false

/-- Whether an expression can hold only where the attribute `key` equals a value that it names. -/
def pins (names : Fields String) (key : String) (e : Expr) : Bool :=
  e.conjuncts.any (fixes names key)

end Expr

end RecordStore
