/-
  Positions, lexemes and tokens.

  A token is a lexeme together with the position of its first character.  Positions count lines and
  columns from one, in characters; a line feed ends a line, and nothing else does.
-/
import Tao.Kind

namespace Tao

/-- A place in a text: line and column, both counted from one. -/
structure Position where
  line : Nat
  column : Nat
  deriving DecidableEq, Repr, Inhabited

namespace Position

/-- Where every text begins. -/
def start : Position := ⟨1, 1⟩

/-- The position just after a character that stands at `p`. -/
def after (p : Position) (c : Char) : Position :=
  if c = '\n' then ⟨p.line + 1, 1⟩ else ⟨p.line, p.column + 1⟩

/-- The position just after a whole text that starts at `p`. -/
def afterText (p : Position) (text : List Char) : Position := text.foldl after p

end Position

/-- What a token says, position aside.  Every mark is written in one way; the three open classes
    carry what was written. -/
inductive Lexeme where
  /-- A name that is no keyword. -/
  | name (text : String)
  /-- A quoted string, with its escapes already replaced by what they stand for. -/
  | string (contents : String)
  /-- A decimal number. -/
  | number (value : Nat)
  /-- A mark, or the end of the text. -/
  | mark (kind : Kind)
  deriving DecidableEq, Repr, Inhabited

namespace Lexeme

/-- The kind of a lexeme. -/
def kind : Lexeme → Kind
  | .name _ => .identifier
  | .string _ => .string
  | .number _ => .number
  | .mark kind => kind

/-- The name or the contents of the string; empty for the other lexemes. -/
def contents : Lexeme → String
  | .name written | .string written => written
  | .number _ | .mark _ => ""

/-- The value of a number; zero for the other lexemes. -/
def value : Lexeme → Nat
  | .number value => value
  | .name _ | .string _ | .mark _ => 0

/-- How messages show a lexeme: names and marks between a backquote and an apostrophe, strings
    between double quotes without escapes, numbers bare. -/
def display : Lexeme → String
  | .name written => s!"`{written}'"
  | .string written => "\"" ++ written ++ "\""
  | .number value => toString value
  | .mark kind => s!"`{kind.spelling}'"

end Lexeme

/-- A lexeme and the position of its first character. -/
structure Token where
  lexeme : Lexeme
  position : Position
  deriving DecidableEq, Repr, Inhabited

/-- The kind of a token. -/
def Token.kind (token : Token) : Kind := token.lexeme.kind

/-- How messages show a token. -/
def Token.display (token : Token) : String := token.lexeme.display

end Tao
