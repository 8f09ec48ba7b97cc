/-
  What can be wrong with the text of a script.

  A `SyntaxError` is a cause and the position it is reported at.  The wording of every cause is in
  one place, `SyntaxError.Cause.message`.
-/
import Tao.Token
import Tao.Text.Quoted

namespace Tao

/-- The ways in which a text fails to be a script. -/
inductive SyntaxError.Cause where
  /-- No token begins with this character. -/
  | unexpectedCharacter (c : Char)
  /-- A number, word or string is glued to what follows it, as in `1abc`. -/
  | unexpectedFollow (c : Char)
  /-- A decimal number above the largest 64-bit integer. -/
  | numberTooLarge
  | unterminatedString
  /-- A backslash in a string before a character that names no escape. -/
  | unknownEscape (c : Char)
  /-- A token that the grammar does not allow here, and the kind that it wanted, if just one. -/
  | unexpectedToken (found : Lexeme) (expected : Option Kind)
  | misplacedBreak
  /-- A statement other than `let`, `function` and `;` outside of every function. -/
  | misplacedStatement
  | multipleDefaults
  | nestedConditional
  | duplicateKey (key : String)
  | duplicateParameter (name : String)
  deriving DecidableEq, Repr

/-- A cause and where it is reported. -/
structure SyntaxError where
  cause : SyntaxError.Cause
  position : Position
  deriving DecidableEq, Repr

namespace SyntaxError

/-- The wording of a cause. -/
def Cause.message : Cause → String
  | unexpectedCharacter c => s!"unexpected character `{c}'"
  | unexpectedFollow c => s!"unexpected follow character `{c}'"
  | numberTooLarge => "integer literal is too large"
  | unterminatedString => "unterminated string literal"
  | unknownEscape c => "unknown escape sequence `\\" ++ c.toString ++ "'"
  | unexpectedToken found none => s!"unexpected {found.display}"
  | unexpectedToken found (some kind) => s!"unexpected {found.display}, expected `{kind.spelling}'"
  | misplacedBreak => "break is only allowed inside a loop or switch"
  | misplacedStatement => "only let, function and empty statements are allowed at global scope"
  | multipleDefaults => "multiple defaults in switch"
  | nestedConditional => "nested ?: is not allowed"
  | duplicateKey key => s!"duplicate key {Text.quoted key} in object literal"
  | duplicateParameter name => s!"duplicate parameter `{name}'"

/-- The full text of an error, position first. -/
def message (e : SyntaxError) : String :=
  s!"[line {e.position.line}, col {e.position.column}] SyntaxError: {e.cause.message}"

/-- The error of finding `token` where `expected` was wanted. -/
def unexpected (token : Token) (expected : Option Kind) : SyntaxError :=
  ⟨.unexpectedToken token.lexeme expected, token.position⟩

end SyntaxError

end Tao
