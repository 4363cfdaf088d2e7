import RecordStore.Expression.Basic
import RecordStore.Number.Numeral

/-!
# The words of an expression

A text is first cut into words (as long a run of letters, digits and underscores as there is) and single other
characters; `tokenize` makes tokens of these. Keywords and the names of functions may be written in letters of either
case. A `#` or `:` and the word behind it are an alias, a word that begins with a digit is a number.
-/

namespace RecordStore

/-- A token of an expression. -/
inductive Token where
  | word (name : String)
  /-- A name alias, without its `#`. -/
  | nameAlias (name : String)
  /-- A value alias, without its colon. -/
  | valueAlias (name : String)
  | number (n : Nat)
  | compare (op : Comparison)
  | dot
  | comma
  | leftParen
  | rightParen
  | leftBracket
  | rightBracket
  | and
  | or
  | not
  | between
  | among
  | size
  | function (f : Function)
deriving DecidableEq, Repr

/-- A token as messages show it. -/
def Token.display : Token → String
  | .word name => "identifier '" ++ name ++ "'"
  | .nameAlias name => "#" ++ name
  | .valueAlias name => ":" ++ name
  | .number n => toString n
  | .compare op => "'" ++ op.symbol ++ "'"
  | .dot => "'.'"
  | .comma => "','"
  | .leftParen => "'('"
  | .rightParen => "')'"
  | .leftBracket => "'['"
  | .rightBracket => "']'"
  | .and => "AND"
  | .or => "OR"
  | .not => "NOT"
  | .between => "BETWEEN"
  | .among => "IN"
  | .size => "size"
  | .function f => f.name

/-- What may stand at a place of an expression where something else stood. -/
inductive Expected where
  | token (t : Token)
  | test
  | listIndex
  | attributeName
  | endOfText
deriving DecidableEq, Repr

/-- What was expected, as messages show it. -/
def Expected.display : Expected → String
  | .token t => t.display
  | .test => "comparison, BETWEEN, or IN"
  | .listIndex => "list index"
  | .attributeName => "attribute name or #name"
  | .endOfText => "end of expression"

/-- What is wrong with an expression, or with its use on an item. -/
inductive ExprError where
  /-- A `#` or `:` with no name behind it. -/
  | emptyAlias (sigil : Char)
  /-- A word that begins with a digit and is no number. -/
  | badNumber (word : String)
  /-- A character that belongs to no token. -/
  | badCharacter (c : Char)
  /-- Something else stands where one thing was expected; `none` is the end of the text. -/
  | unexpected (expected : Expected) (found : Option Token)
  /-- A function is called with too few or too many arguments. -/
  | argumentCount (f : Function) (count : Nat)
  /-- A name alias stands for nothing. -/
  | unresolvedName (name : String)
  /-- A value alias stands for nothing. -/
  | unresolvedValue (name : String)
  /-- A function is called without arguments. -/
  | noArguments (f : Function)
  /-- The first argument of a function is no path. -/
  | notAPath (f : Function)
  /-- The name of a type is no text. -/
  | typeNotText (f : Function)
deriving DecidableEq, Repr

namespace ExprError

/-- A message about the text of an expression. -/
def textMessage (expected found : String) : String :=
  "Syntax error: expected " ++ expected ++ ", found " ++ found

/-- A message about an argument of a function. -/
def argumentMessage (f : Function) (text : String) : String :=
  "Invalid operand for " ++ f.name ++ ": " ++ text

/-- The message of an error. -/
def message : ExprError → String
  | .emptyAlias sigil => textMessage ("placeholder name after '" ++ sigil.toString ++ "'") "nothing"
  | .badNumber word => textMessage "list index" ("'" ++ word ++ "'")
  | .badCharacter c => textMessage "a token" ("'" ++ c.toString ++ "'")
  | .unexpected expected found =>
    textMessage expected.display (match found with | some t => t.display | none => "end of expression")
  | .argumentCount f count =>
    argumentMessage f ("expected " ++ toString f.arity ++ " arguments, got " ++ toString count)
  | .unresolvedName name => "Unresolved expression attribute name: " ++ name
  | .unresolvedValue name => "Unresolved expression attribute value: " ++ name
  | .noArguments f => argumentMessage f "missing arguments"
  | .notAPath f => argumentMessage f "first argument must be an attribute path"
  | .typeNotText f => argumentMessage f "type must be a string"

end ExprError

namespace Token

/-! ## Words -/

/-- A character of a word. -/
def isWordPart (c : Char) : Bool :=
  c.isAlphanum || c = '_'

/-- A blank between tokens. -/
def isGap (c : Char) : Bool :=
  c = ' ' || c = '\t' || c = '\n' || c = '\x0c' || c = '\r'

/-- A piece of a text: a word as long as it can be, or another character. -/
inductive Piece where
  | word (cs : List Char)
  | other (c : Char)
deriving DecidableEq, Repr

/-- Cuts a text into pieces. -/
def pieces : List Char → List Piece
  | [] => []
  | c :: rest =>
    if isWordPart c then
      match pieces rest with
      | .word cs :: more => .word (c :: cs) :: more
      | more => .word [c] :: more
    else .other c :: pieces rest

/-! ## Tokens -/

/-- The keyword or function that a word is, or else the name. -/
def ofWord (cs : List Char) : Token :=
  let lower := String.ofList (cs.map Char.toLower)
  match lower with
  | "and" => .and
  | "or" => .or
  | "not" => .not
  | "between" => .between
  | "in" => .among
  | "size" => .size
  | _ =>
    match Function.ofName? lower with
    | some f => .function f
    | none => .word (String.ofList cs)

/-- The token of a word that stands on its own. -/
def ofPiece (cs : List Char) : Except ExprError Token :=
  match cs with
  | c :: _ =>
    if c.isDigit then
      match Numeral.natural? cs with
      | some n => .ok (.number n)
      | none => .error (.badNumber (String.ofList cs))
    else .ok (ofWord cs)
  | [] => .ok (ofWord [])

/-- The token of a character that is one by itself. -/
def ofChar? (c : Char) : Option Token :=
  match c with
  | '<' => some (.compare .lt)
  | '>' => some (.compare .gt)
  | '=' => some (.compare .eq)
  | '.' => some .dot
  | ',' => some .comma
  | '(' => some .leftParen
  | ')' => some .rightParen
  | '[' => some .leftBracket
  | ']' => some .rightBracket
  | _ => none

/-- The tokens of pieces. -/
def ofPieces : List Piece → Except ExprError (List Token)
  | [] => .ok []
  | .other '<' :: .other '=' :: rest => (.compare .le :: ·) <$> ofPieces rest
  | .other '<' :: .other '>' :: rest => (.compare .ne :: ·) <$> ofPieces rest
  | .other '>' :: .other '=' :: rest => (.compare .ge :: ·) <$> ofPieces rest
  | .other '#' :: .word cs :: rest => (.nameAlias (String.ofList cs) :: ·) <$> ofPieces rest
  | .other ':' :: .word cs :: rest => (.valueAlias (String.ofList cs) :: ·) <$> ofPieces rest
  | .word cs :: rest => do
    let t ← ofPiece cs
    let ts ← ofPieces rest
    .ok (t :: ts)
  | .other c :: rest =>
    if isGap c then ofPieces rest
    else if c = '#' ∨ c = ':' then .error (.emptyAlias c)
    else
      match ofChar? c with
      | some t => (t :: ·) <$> ofPieces rest
      | none => .error (.badCharacter c)

/-- The tokens of a text. -/
def tokenize (s : String) : Except ExprError (List Token) :=
  ofPieces (pieces s.toList)

end Token

end RecordStore
