/-
  The state of a parser and its dealings with tokens.

  A parser is a token stream and the number of loops and switches around the current place, in which
  alone `break` may stand.  The categories of the grammar that contain themselves are the fields of
  `Grammar`; all other parsers are plain functions of these, and `Tao.Parser.Script` ties the knot.
-/
import Tao.Fuel
import Tao.TokenStream
import Tao.Tree
import Tao.Precedence

namespace Tao

/-- A token stream and the number of enclosing loops and switches of the current function. -/
structure Parser where
  tokens : TokenStream
  breakable : Nat
  deriving Repr, Inhabited

/-- Computations that read tokens. -/
abbrev Parse := Fueled SyntaxError Parser

namespace Parser

/-- The parser at the beginning of a text. -/
def ofText (text : String) : Parser := ⟨.ofText text, 0⟩

/-! ## Tokens -/

/-- Takes the next token. -/
def take : Parse Token := fun parser =>
  match parser.tokens.next with
  | (.ok token, tokens) => .ok token { parser with tokens }
  | (.error e, tokens) => .error (.failed e) { parser with tokens }

/-- Hands a token back. -/
def putBack (token : Token) : Parse Unit :=
  modify fun parser => { parser with tokens := parser.tokens.putBack token }

/-- Looks at the next token. -/
def peek : Parse Token := do
  let token ← take
  putBack token
  return token

/-- Is the next token of this kind? -/
def nextIs (kind : Kind) : Parse Bool := do
  return (← peek).kind = kind

/-- Takes the next token if it is of this kind, and says whether it did. -/
def takeIf (kind : Kind) : Parse Bool := do
  let token ← take
  if token.kind = kind then
    return true
  else
    putBack token
    return false

/-- Takes the next token, which must be of this kind. -/
def expect (kind : Kind) : Parse Token := do
  let token ← take
  if token.kind = kind then
    return token
  else
    fail (.unexpected token (some kind))

/-- Takes a name and gives its text. -/
def expectName : Parse String := do
  return (← expect .identifier).lexeme.contents

/-- Runs `x` and then changes the parser by `f`, whether `x` failed or not. -/
def afterwards {α : Type} (x : Parse α) (f : Parser → Parser) : Parse α := fun parser =>
  match x parser with
  | .ok a parser => .ok a (f parser)
  | .error e parser => .error e (f parser)

end Parser

/-- The parsers for the categories of the grammar that contain themselves, as far as their fuel
    reaches, and a bound on the turns of any loop. -/
structure Grammar where
  /-- No loop takes more turns than this. -/
  bound : Nat
  /-- A statement. -/
  statement : Parse Statement
  /-- A conditional statement whose `if` has been taken. -/
  conditional : Parse Statement
  /-- An expression made of operators of at least this tier. -/
  expressionFrom : Precedence → Parse Expression

/-- Any expression. -/
def Grammar.expression (g : Grammar) : Parse Expression := g.expressionFrom .assignment

/-- Statements up to a closing brace; the opening one has been taken. -/
def Grammar.block (g : Grammar) : Parse (List Statement) :=
  iterate g.bound (fun read => do
    if ← Parser.takeIf .rightBrace then
      return .done read.reverse
    else if ← Parser.nextIs .eof then
      fail (.unexpected (← Parser.peek) (some .rightBrace))
    else
      return .again ((← g.statement) :: read)) []

/-- The statements of a function up to its closing brace.  The loops and switches around a function
    are not around its statements. -/
def Grammar.bodyOfFunction (g : Grammar) : Parse (List Statement) := fun parser =>
  Parser.afterwards g.block (fun after => { after with breakable := parser.breakable })
    { parser with breakable := 0 }

end Tao
