/-
  Parsing statements.

  Every statement is told by its first token; what begins with no keyword of its own is an
  expression.  The number of enclosing loops and switches is raised for the body of a loop, which
  gives it back in any case, and for the groups of a switch, which gives it back only when the
  switch is complete.
-/
import Tao.Parser.Expression

namespace Tao.Grammar

open Tao.Parser

/-- A definition whose `let` has been taken. -/
def definition (g : Grammar) : Parse Statement := do
  let name ← expectName
  let initializer ← if ← takeIf .assign then some <$> g.expression else pure none
  let _ ← expect .semicolon
  return .define name initializer

/-- A return whose keyword has been taken. -/
def returning (g : Grammar) : Parse Statement := do
  if ← takeIf .semicolon then
    return .giveBack none
  let value ← g.expression
  let _ ← expect .semicolon
  return .giveBack (some value)

/-- An expression that stands as a statement. -/
def bareExpression (g : Grammar) : Parse Statement := do
  let value ← g.expression
  let _ ← expect .semicolon
  return .expression value

/-! ## Loops -/

/-- A block in braces inside of one more loop. -/
def loopBody (g : Grammar) : Parse (List Statement) := do
  let _ ← expect .leftBrace
  modify fun parser => { parser with breakable := parser.breakable + 1 }
  afterwards g.block fun parser => { parser with breakable := parser.breakable - 1 }

/-- Takes the parenthesis around the clauses of a loop, if there is one, and says so.  A parenthesis
    before anything but `let` or `;` belongs to the test of the loop instead. -/
def loopParen : Parse Bool := do
  let token ← take
  if token.kind = .leftParen then
    let next ← peek
    if next.kind = .kwLet || next.kind = .semicolon then
      return true
  putBack token
  return false

/-- A loop whose keyword has been taken: three clauses, a test alone, or neither. -/
def loop (g : Grammar) : Parse Statement := do
  let paren ← loopParen
  let next ← peek
  if paren || next.kind = .kwLet || next.kind = .semicolon then
    let init ←
      if ← takeIf .kwLet then some <$> g.definition
      else do
        let _ ← expect .semicolon
        pure none
    let test ← if ← nextIs .semicolon then pure none else some <$> g.expression
    let _ ← expect .semicolon
    let closing := if paren then Kind.rightParen else .leftBrace
    let increment ← if ← nextIs closing then pure none else some <$> g.expression
    if paren then
      let _ ← expect .rightParen
    return .loop init test increment (← g.loopBody)
  else
    let test ← if ← nextIs .leftBrace then pure none else some <$> g.expression
    return .loop none test none (← g.loopBody)

/-! ## Choices -/

/-- A block in braces. -/
def bracedBlock (g : Grammar) : Parse (List Statement) := do
  let _ ← expect .leftBrace
  g.block

/-- A conditional whose `if` has been taken. -/
def branching (g : Grammar) : Parse Statement := do
  let condition ← g.expression
  let thenBody ← g.bracedBlock
  if ← takeIf .kwElse then
    if ← takeIf .kwIf then
      return .branch condition thenBody (some (← g.conditional))
    else
      return .branch condition thenBody (some (.block (← g.bracedBlock)))
  else
    return .branch condition thenBody none

/-- The statements of a group, up to the next group or the end of the switch. -/
def groupBody (g : Grammar) : Parse (List Statement) :=
  iterate g.bound (fun read => do
    let token ← peek
    match token.kind with
    | .kwCase | .kwDefault | .rightBrace => return .done read.reverse
    | _ => return .again ((← g.statement) :: read)) []

/-- The labels of a group, separated by commas; there is at least one. -/
def groupLabels (g : Grammar) : Parse (List Expression) := do
  let first ← g.expression
  iterate g.bound (fun read => do
    if ← takeIf .comma then
      return .again ((← g.expression) :: read)
    else
      return .done read.reverse) [first]

/-- A switch whose keyword has been taken. -/
def choice (g : Grammar) : Parse Statement := do
  let subject ← g.expression
  let _ ← expect .leftBrace
  modify fun parser => { parser with breakable := parser.breakable + 1 }
  let (groups, otherwise) ←
    iterate g.bound (fun (read : List CaseGroup × Option (List Statement)) => do
      let (groups, otherwise) := read
      let token ← take
      match token.kind with
      | .rightBrace => return .done (groups.reverse, otherwise)
      | .kwCase =>
        let labels ← g.groupLabels
        let _ ← expect .colon
        return .again (.mk labels (← g.groupBody) :: groups, otherwise)
      | .kwDefault =>
        if otherwise.isSome then
          fail ⟨.multipleDefaults, token.position⟩
        let _ ← expect .colon
        return .again (groups, some (← g.groupBody))
      | _ => fail (.unexpected token (some .kwCase))) ([], none)
  modify fun parser => { parser with breakable := parser.breakable - 1 }
  return .choose subject groups otherwise

/-! ## All statements -/

/-- Any statement. -/
def anyStatement (g : Grammar) : Parse Statement := do
  let token ← take
  match token.kind with
  | .semicolon => return .empty
  | .kwLet => g.definition
  | .kwFunction =>
    if ← nextIs .identifier then
      return .function (← g.functionRest)
    else
      putBack token
      g.bareExpression
  | .kwReturn => g.returning
  | .leftBrace => return .block (← g.block)
  | .kwFor => g.loop
  | .kwBreak =>
    if (← get).breakable = 0 then
      fail ⟨.misplacedBreak, token.position⟩
    let _ ← expect .semicolon
    return .leave
  | .kwIf => g.branching
  | .kwSwitch => g.choice
  | _ =>
    putBack token
    g.bareExpression

end Tao.Grammar
