/-
  Kinds of tokens of the Tao language.

  A script is a sequence of tokens, and a token is of one of the kinds below.  Most kinds are MARKS:
  they are written in exactly one way, their spelling.  Three kinds stand for open classes of
  lexemes (names, quoted strings, decimal numbers), and `eof` closes every token stream.

  Two facts about kinds are used all over: which kinds are compound assignments and which binary
  operator each of them abbreviates (`Kind.assignOperator?`), and which spellings are words
  (`Kind.keywords`) as opposed to punctuation (`Kind.punctuation`).
-/
namespace Tao

/-- The kinds of tokens, listed by what they are used for. -/
inductive Kind where
  | eof
  -- brackets
  | leftParen | rightParen | leftBrace | rightBrace | leftBracket | rightBracket
  -- separators
  | dot | comma | semicolon | colon | lambda
  -- assignment
  | assign | plusAssign | minusAssign | starStarAssign | starAssign | slashAssign | percentAssign
  | leftShiftAssign | rightShiftAssign | andAssign | xorAssign | orAssign | andNotAssign
  -- conditional and logical
  | question | not | andAnd | orOr
  -- bitwise
  | bitAnd | bitOr | bitXor | bitAndNot
  -- equality and comparison
  | equalEqual | bangEqual | greater | greaterEqual | less | lessEqual
  -- shifts and arithmetic
  | leftShift | rightShift | plus | minus | star | slash | percent | starStar
  | increment | decrement
  -- open classes
  | identifier | string | number
  -- words
  | kwNil | kwTrue | kwFalse | kwBreak | kwCase | kwDefault | kwElse | kwFor | kwFunction | kwIf
  | kwLet | kwNew | kwReturn | kwSwitch
  deriving DecidableEq, Repr, Inhabited

namespace Kind

/-- The way a kind is written: the lexeme itself for a mark, a description for an open class. -/
def spelling : Kind → String
  | eof => "EOF"
  | leftParen => "(" | rightParen => ")" | leftBrace => "\x7b" | rightBrace => "\x7d"
  | leftBracket => "[" | rightBracket => "]"
  | dot => "." | comma => "," | semicolon => ";" | colon => ":" | lambda => "=>"
  | assign => "=" | plusAssign => "+=" | minusAssign => "-=" | starStarAssign => "**="
  | starAssign => "*=" | slashAssign => "/=" | percentAssign => "%=" | leftShiftAssign => "<<="
  | rightShiftAssign => ">>=" | andAssign => "&=" | xorAssign => "^=" | orAssign => "|="
  | andNotAssign => "&^="
  | question => "?" | not => "!" | andAnd => "&&" | orOr => "||"
  | bitAnd => "&" | bitOr => "|" | bitXor => "^" | bitAndNot => "&^"
  | equalEqual => "==" | bangEqual => "!=" | greater => ">" | greaterEqual => ">="
  | less => "<" | lessEqual => "<="
  | leftShift => "<<" | rightShift => ">>" | plus => "+" | minus => "-" | star => "*"
  | slash => "/" | percent => "%" | starStar => "**"
  | increment => "++" | decrement => "--"
  | identifier => "identifier" | string => "string" | number => "number"
  | kwNil => "nil" | kwTrue => "true" | kwFalse => "false" | kwBreak => "break" | kwCase => "case"
  | kwDefault => "default" | kwElse => "else" | kwFor => "for" | kwFunction => "function"
  | kwIf => "if" | kwLet => "let" | kwNew => "new" | kwReturn => "return" | kwSwitch => "switch"

/-- The marks written with punctuation, longest spelling first: the first one of this list that a
    text begins with is therefore the longest. -/
def punctuation : List Kind :=
  [ starStarAssign, leftShiftAssign, rightShiftAssign, andNotAssign,
    lambda, plusAssign, minusAssign, starAssign, slashAssign, percentAssign, andAssign, xorAssign,
    orAssign, andAnd, orOr, bitAndNot, equalEqual, bangEqual, greaterEqual, lessEqual, leftShift,
    rightShift, starStar, increment, decrement,
    leftParen, rightParen, leftBrace, rightBrace, leftBracket, rightBracket, dot, comma, semicolon,
    colon, assign, question, not, bitAnd, bitOr, bitXor, greater, less, plus, minus, star, slash,
    percent ]

/-- The marks written with letters. -/
def keywords : List Kind :=
  [ kwNil, kwTrue, kwFalse, kwBreak, kwCase, kwDefault, kwElse, kwFor, kwFunction, kwIf, kwLet,
    kwNew, kwReturn, kwSwitch ]

/-- Every kind once, in the order of the declaration. -/
def all : List Kind :=
  [ eof, leftParen, rightParen, leftBrace, rightBrace, leftBracket, rightBracket, dot, comma,
    semicolon, colon, lambda, assign, plusAssign, minusAssign, starStarAssign, starAssign,
    slashAssign, percentAssign, leftShiftAssign, rightShiftAssign, andAssign, xorAssign, orAssign,
    andNotAssign, question, not, andAnd, orOr, bitAnd, bitOr, bitXor, bitAndNot, equalEqual,
    bangEqual, greater, greaterEqual, less, lessEqual, leftShift, rightShift, plus, minus, star,
    slash, percent, starStar, increment, decrement, identifier, string, number ] ++ keywords

/-- The binary operator that a compound assignment applies before it stores: `x += e` stands for
    `x = x + e`.  Plain `=` and every other kind have none. -/
def assignOperator? : Kind → Option Kind
  | plusAssign => some plus
  | minusAssign => some minus
  | starStarAssign => some starStar
  | starAssign => some star
  | slashAssign => some slash
  | percentAssign => some percent
  | leftShiftAssign => some leftShift
  | rightShiftAssign => some rightShift
  | andAssign => some bitAnd
  | xorAssign => some bitXor
  | orAssign => some bitOr
  | andNotAssign => some bitAndNot
  | _ => none

/-- Is this one of `+=`, `*=`, ..., that is, an assignment other than plain `=`? -/
def isOperatorAssign (kind : Kind) : Bool := kind.assignOperator?.isSome

/-- The keyword that a word is, if it is one. -/
def ofWord? (word : String) : Option Kind := keywords.find? (·.spelling = word)

/-- The kind with a given spelling. -/
def ofSpelling? (text : String) : Option Kind := all.find? (·.spelling = text)

/-- The list of all kinds is complete, so what is checked along it holds of every kind. -/
theorem mem_all (kind : Kind) : kind ∈ all := by cases kind <;> decide

end Kind

end Tao
