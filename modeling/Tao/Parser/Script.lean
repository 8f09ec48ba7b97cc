/-
  Parsing whole scripts.

  The recursive categories of the grammar are tied together by fuel: `Grammar.ofFuel n` parses what
  is nested at most `n` levels deep.  A text of `k` tokens is nested at most `2 * k` levels deep, so
  the entry points here have fuel enough for every text.
-/
import Tao.Parser.Statement

namespace Tao

namespace Grammar

mutual

/-- Statements nested at most this deep. -/
def statementUpTo : Nat → Parse Statement
  | 0 => fun parser => .error .outOfFuel parser
  | n + 1 => fun parser =>
    atLevel n (anyStatement ⟨n, statementUpTo n, conditionalUpTo n, expressionUpTo n⟩) parser

/-- Conditionals, after their `if`, nested at most this deep. -/
def conditionalUpTo : Nat → Parse Statement
  | 0 => fun parser => .error .outOfFuel parser
  | n + 1 => fun parser =>
    atLevel n (branching ⟨n, statementUpTo n, conditionalUpTo n, expressionUpTo n⟩) parser

/-- Expressions nested at most this deep. -/
def expressionUpTo : Nat → Precedence → Parse Expression
  | 0 => fun _ parser => .error .outOfFuel parser
  | n + 1 => fun tier parser =>
    atLevel n (operation ⟨n, statementUpTo n, conditionalUpTo n, expressionUpTo n⟩ tier) parser

end

/-- The grammar of what is nested at most this deep. -/
def ofFuel (n : Nat) : Grammar :=
  ⟨n, statementUpTo n, conditionalUpTo n, expressionUpTo n⟩

theorem statement_succ (n : Nat) : (ofFuel (n + 1)).statement = (ofFuel n).anyStatement :=
  atLevel_eq n (ofFuel n).anyStatement

theorem conditional_succ (n : Nat) : (ofFuel (n + 1)).conditional = (ofFuel n).branching :=
  atLevel_eq n (ofFuel n).branching

theorem expressionFrom_succ (n : Nat) (tier : Precedence) :
    (ofFuel (n + 1)).expressionFrom tier = (ofFuel n).operation tier :=
  atLevel_eq n ((ofFuel n).operation tier)

/-- A script: definitions, functions and empty statements up to the end of the text. -/
def script (g : Grammar) : Parse Program :=
  iterate g.bound (fun read => do
    let start ← Parser.peek
    if start.kind = .eof then
      return .done ⟨read.reverse⟩
    else
      let statement ← g.statement
      match statement with
      | .define .. | .function _ | .empty => return .again (statement :: read)
      | _ => fail ⟨.misplacedStatement, start.position⟩) []

end Grammar

namespace Parser

/-- Fuel enough for all that the parser has left to read. -/
def fuel (parser : Parser) : Nat := fullStacks (4 * parser.tokens.remaining + 8)

/-- Reads a script up to the end of the text. -/
def script : Parse Program := fun parser => (Grammar.ofFuel parser.fuel).script parser

/-- Reads one expression. -/
def expression : Parse Expression := fun parser => (Grammar.ofFuel parser.fuel).expression parser

end Parser

/-- The script that a text holds. -/
def parse (text : String) : Except (Halt SyntaxError) Program :=
  match Parser.script (.ofText text) with
  | .ok program _ => .ok program
  | .error halt _ => .error halt

end Tao
