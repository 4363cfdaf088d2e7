import RecordStore.Expression.Token

/-!
# Reading expressions

The grammar, from the loosest to the tightest binding:

    or      = and, more of them after OR
    and     = not, more of them after AND
    not     = NOT not | primary
    primary = ( or ) | function ( operands ) | operand test
    test    = comparison operand | BETWEEN operand AND operand | IN ( operands )
    operand = value alias | size ( path ) | path
    path    = name, more of them after a point or as [ number ]

OR and AND associate to the left, and a function has exactly as many arguments as its arity. Each reader takes tokens
off the front and gives back the rest. `fuel` bounds how often one reader calls another; four calls for each token and
four at the end are always enough.
-/

namespace RecordStore

namespace Token

/-- A reader of tokens: what it read, and the tokens after that. -/
abbrev Reader (α : Type) := List Token → Except ExprError (α × List Token)

/-- Takes one given token. -/
def expect (t : Token) : List Token → Except ExprError (List Token)
  | [] => .error (.unexpected (.token t) none)
  | u :: rest => if u = t then .ok rest else .error (.unexpected (.token t) (some u))

/-! ## Paths and operands -/

/-- Reads one name of a path. -/
def pathName : Reader String
  | .word name :: rest => .ok (name, rest)
  | .nameAlias name :: rest => .ok ("#" ++ name, rest)
  | ts => .error (.unexpected .attributeName ts.head?)

/-- Reads the steps of a path behind its first name. -/
def pathSteps : Reader (List PathStep)
  | .dot :: .word name :: rest => do
    let (steps, rest) ← pathSteps rest
    .ok (.field name :: steps, rest)
  | .dot :: .nameAlias name :: rest => do
    let (steps, rest) ← pathSteps rest
    .ok (.field ("#" ++ name) :: steps, rest)
  | .dot :: rest => .error (.unexpected .attributeName rest.head?)
  | .leftBracket :: .number i :: .rightBracket :: rest => do
    let (steps, rest) ← pathSteps rest
    .ok (.index i :: steps, rest)
  | .leftBracket :: .number _ :: rest => .error (.unexpected (.token .rightBracket) rest.head?)
  | .leftBracket :: rest => .error (.unexpected .listIndex rest.head?)
  | ts => .ok ([], ts)

/-- Reads a path. -/
def path : Reader Path := fun ts => do
  let (head, rest) ← pathName ts
  let (steps, rest) ← pathSteps rest
  .ok (⟨head, steps⟩, rest)

/-- Reads an operand. -/
def operand : Reader Operand
  | .valueAlias name :: rest => .ok (.value (":" ++ name), rest)
  | .size :: rest => do
    let rest ← expect .leftParen rest
    let (p, rest) ← path rest
    let rest ← expect .rightParen rest
    .ok (.size p, rest)
  | ts => do
    let (p, rest) ← path ts
    .ok (.path p, rest)

/-- Reads more of what `item` reads, each after a comma, as long as there is a comma. -/
def afterCommas {α : Type} (item : Reader α) : Nat → Reader (List α)
  | fuel + 1, .comma :: rest => do
    let (a, rest) ← item rest
    let (as, rest) ← afterCommas item fuel rest
    .ok (a :: as, rest)
  | _, ts => .ok ([], ts)

/-- Reads one or more of what `item` reads, with commas between them. -/
def commaList {α : Type} (item : Reader α) : Reader (List α) := fun ts => do
  let (a, rest) ← item ts
  let (as, rest) ← afterCommas item rest.length rest
  .ok (a :: as, rest)

/-- Reads operands in parentheses. -/
def operands : Reader (List Operand) := fun ts => do
  let rest ← expect .leftParen ts
  let (os, rest) ← commaList operand rest
  let rest ← expect .rightParen rest
  .ok (os, rest)

/-! ## Conditions -/

/-- Reads what is asked of an operand. -/
def test (left : Operand) : Reader Expr
  | .compare op :: rest => do
    let (right, rest) ← operand rest
    .ok (.compare left op right, rest)
  | .between :: rest => do
    let (low, rest) ← operand rest
    let rest ← expect .and rest
    let (high, rest) ← operand rest
    .ok (.between left low high, rest)
  | .among :: rest => do
    let (candidates, rest) ← operands rest
    .ok (.among left candidates, rest)
  | ts => .error (.unexpected .test ts.head?)

/-- Reads the arguments of a function. -/
def call (f : Function) : Reader Expr := fun ts => do
  let (arguments, rest) ← operands ts
  if arguments.length = f.arity then .ok (.call f arguments, rest)
  else .error (.argumentCount f arguments.length)

mutual

/-- Reads a condition. -/
def orLevel : Nat → Reader Expr
  | 0, ts => .error (.unexpected .endOfText ts.head?)
  | fuel + 1, ts => do
    let (e, rest) ← andLevel fuel ts
    moreOr fuel e rest

/-- Reads on behind a condition, as long as OR comes next. -/
def moreOr : Nat → Expr → Reader Expr
  | fuel + 1, left, .or :: rest => do
    let (right, rest) ← andLevel fuel rest
    moreOr fuel (.or left right) rest
  | _, left, ts => .ok (left, ts)

/-- Reads a condition without OR outside parentheses. -/
def andLevel : Nat → Reader Expr
  | 0, ts => .error (.unexpected .endOfText ts.head?)
  | fuel + 1, ts => do
    let (e, rest) ← notLevel fuel ts
    moreAnd fuel e rest

/-- Reads on behind a condition, as long as AND comes next. -/
def moreAnd : Nat → Expr → Reader Expr
  | fuel + 1, left, .and :: rest => do
    let (right, rest) ← notLevel fuel rest
    moreAnd fuel (.and left right) rest
  | _, left, ts => .ok (left, ts)

/-- Reads a condition without OR and AND outside parentheses. -/
def notLevel : Nat → Reader Expr
  | 0, ts => .error (.unexpected .endOfText ts.head?)
  | fuel + 1, .not :: rest => do
    let (e, rest) ← notLevel fuel rest
    .ok (.not e, rest)
  | fuel + 1, ts => primary fuel ts

/-- Reads a condition in parentheses, a function, or an operand and what is asked of it. -/
def primary : Nat → Reader Expr
  | 0, ts => .error (.unexpected .endOfText ts.head?)
  | fuel + 1, .leftParen :: rest => do
    let (e, rest) ← orLevel fuel rest
    let rest ← expect .rightParen rest
    .ok (e, rest)
  | _ + 1, .function f :: rest => call f rest
  | _ + 1, ts => do
    let (left, rest) ← operand ts
    test left rest

end

/-- Reads all of the tokens. -/
def complete {α : Type} (read : Reader α) (ts : List Token) : Except ExprError α := do
  let (a, rest) ← read ts
  match rest with
  | [] => .ok a
  | t :: _ => .error (.unexpected .endOfText (some t))

end Token

/-- Reads a condition. -/
def Expr.parse (s : String) : Except ExprError Expr := do
  let ts ← Token.tokenize s
  Token.complete (Token.orLevel (4 * (ts.length + 1))) ts

/-- Reads a projection: paths with commas between them. -/
def Path.parseList (s : String) : Except ExprError (List Path) := do
  let ts ← Token.tokenize s
  Token.complete (Token.commaList Token.path) ts

end RecordStore
