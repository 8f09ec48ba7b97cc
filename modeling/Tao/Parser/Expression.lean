/-
  Parsing expressions.

  An expression of tier `p` is an operand with everything after it that binds at least as tightly as
  `p`: `expressionFrom` reads the operand, then `extend` wraps it in one operator after another.  An
  opening parenthesis is ambiguous until the token after the matching `)` is seen; `lambdaHead`
  reads ahead that far and hands every token back if there is no lambda.
-/
import Tao.Parser.Basic

namespace Tao.Grammar

open Tao.Parser

/-- Expressions separated by commas up to `closing`; a comma may stand after the last one. -/
def arguments (g : Grammar) (closing : Kind) : Parse (List Expression) :=
  iterate g.bound (fun read => do
    if ← takeIf closing then
      return .done read.reverse
    let argument ← g.expression
    if ← takeIf .comma then
      return .again (argument :: read)
    let _ ← expect closing
    return .done (argument :: read).reverse) []

/-! ## Functions -/

/-- The names of parameters, which must differ.  The first repeated one is the one reported. -/
def distinctNames (params : List Token) : Parse (List String) := go [] params
where
  /-- `read` holds the names already accepted, last one first. -/
  go (read : List String) : List Token → Parse (List String)
    | [] => pure read.reverse
    | param :: rest =>
      let name := param.lexeme.contents
      if read.contains name then fail ⟨.duplicateParameter name, param.position⟩
      else go (name :: read) rest

/-- Names separated by commas up to a closing parenthesis; a comma may stand after the last one. -/
def parameters (g : Grammar) : Parse (List Token) :=
  iterate g.bound (fun read => do
    if ← takeIf .rightParen then
      return .done read.reverse
    let param ← expect .identifier
    if ← takeIf .comma then
      return .again (param :: read)
    let _ ← expect .rightParen
    return .done (param :: read).reverse) []

/-- A function whose keyword has been taken. -/
def functionRest (g : Grammar) : Parse FunctionCode := do
  let name ← if ← nextIs .identifier then some <$> expectName else pure none
  let _ ← expect .leftParen
  let params ← distinctNames (← g.parameters)
  let _ ← expect .leftBrace
  return .mk name params (← g.bodyOfFunction)

/-- The body of a lambda whose arrow has been taken: a block, or an expression that it returns. -/
def lambda (g : Grammar) (params : List Token) : Parse Expression := do
  let params ← distinctNames params
  let body ←
    if ← takeIf .leftBrace then g.bodyOfFunction
    else do pure [.giveBack (some (← g.expression))]
  return .function (.mk none params body)

/-- What reading ahead for the parameters of a lambda has seen: all tokens, the parameters among
    them (both last one first), and whether a name may come next. -/
structure Lookahead where
  seen : List Token
  params : List Token
  wantName : Bool

/-- After an opening parenthesis: takes `a, b) =>` and gives the parameters, or leaves every token
    where it was and gives `none`. -/
def lambdaHead (g : Grammar) : Parse (Option (List Token)) := do
  let (isLambda, ahead) ← iterate g.bound (fun (ahead : Lookahead) => do
    let token ← take
    let seen := token :: ahead.seen
    match token.kind with
    | .rightParen => return .done (← nextIs .lambda, { ahead with seen })
    | .identifier =>
      if ahead.wantName then return .again ⟨seen, token :: ahead.params, false⟩
      else return .done (false, { ahead with seen })
    | .comma =>
      if ahead.wantName then return .done (false, { ahead with seen })
      else return .again ⟨seen, ahead.params, true⟩
    | _ => return .done (false, { ahead with seen })) ⟨[], [], true⟩
  if isLambda then
    let _ ← take
    return some ahead.params.reverse
  else
    ahead.seen.forM putBack
    return none

/-! ## Operands -/

/-- An object literal whose opening brace has been taken.  Keys must differ; a key that is a name
    and one that is a string are the same key if their texts are. -/
def objectRest (g : Grammar) : Parse Expression :=
  iterate g.bound (fun (read : List Entry × List String) => do
    let (entries, keys) := read
    if ← takeIf .rightBrace then
      return .done (.object entries.reverse)
    let token ← take
    match token.lexeme with
    | .name key | .string key =>
      if keys.contains key then
        fail ⟨.duplicateKey key, token.position⟩
      let _ ← expect .colon
      let entries := .mk key (← g.expression) :: entries
      if ← takeIf .comma then
        return .again (entries, key :: keys)
      let _ ← expect .rightBrace
      return .done (.object entries.reverse)
    | _ => fail (.unexpected token (some .identifier))) ([], [])

/-- A constant, a name, a literal, a function, or an expression in parentheses. -/
def primary (g : Grammar) : Parse Expression := do
  let token ← take
  match token.lexeme with
  | .mark .kwNil => return .literal .nil
  | .mark .kwTrue => return .literal (.boolean true)
  | .mark .kwFalse => return .literal (.boolean false)
  | .number value => return .literal (.number (Int64.ofNat value))
  | .string contents => return .literal (.string contents)
  | .name text => if ← takeIf .lambda then g.lambda [token] else return .name text
  | .mark .leftParen =>
    match ← g.lambdaHead with
    | some params => g.lambda params
    | none =>
      let inner ← g.expression
      let _ ← expect .rightParen
      return inner
  | .mark .kwFunction => return .function (← g.functionRest)
  | .mark .leftBrace => g.objectRest
  | .mark .leftBracket => return .array (← g.arguments .rightBracket)
  | _ => fail (.unexpected token none)

/-- The key after a dot or an opening bracket that has been taken. -/
def indexOf (g : Grammar) (target : Expression) (opening : Token) : Parse Expression := do
  if opening.kind = .dot then
    return .index target (.literal (.string (← expectName)))
  else
    let key ← g.expression
    let _ ← expect .rightBracket
    return .index target key

/-- A construction whose `new` has been taken: `C`, `C(args)` or `a.b[c](args)`. -/
def construction (g : Grammar) : Parse Expression := do
  let maker ← iterate g.bound (fun maker => do
    let token ← take
    if token.kind = .dot || token.kind = .leftBracket then
      return .again (← g.indexOf maker token)
    else
      putBack token
      return .done maker) (← g.primary)
  let arguments ← if ← takeIf .leftParen then g.arguments .rightParen else pure []
  return .construct maker arguments

/-- An operand with the operators before it. -/
def prefixed (g : Grammar) : Parse Expression := do
  let token ← take
  match token.kind with
  | .not | .plus | .minus | .bitXor =>
    return .unary token.kind (← g.expressionFrom .stepBefore)
  | .increment | .decrement =>
    return .step token.kind true (← g.expressionFrom .stepBefore)
  | .kwNew => g.construction
  | _ =>
    putBack token
    g.primary

/-! ## Operators after an operand -/

/-- A branch of `?:`, which may not be another `?:` unless in parentheses. -/
def conditionalBranch (g : Grammar) : Parse Expression := do
  let branch ← g.expressionFrom .logicalOr
  let token ← peek
  if token.kind = .question then
    fail ⟨.nestedConditional, token.position⟩
  return branch

/-- Wraps `left` in the operator `token` of tier `tier`, which has been taken. -/
def extend (g : Grammar) (left : Expression) (token : Token) (tier : Precedence) :
    Parse Expression := do
  match token.kind.assignOperator? with
  | some operator => return .assign left (.binary operator left (← g.expressionFrom .conditional))
  | none =>
    match token.kind with
    | .assign => return .assign left (← g.expressionFrom .conditional)
    | .question =>
      let thenValue ← g.conditionalBranch
      let _ ← expect .colon
      return .conditional left thenValue (← g.conditionalBranch)
    | .increment | .decrement => return .step token.kind false left
    | .leftParen => return .call left (← g.arguments .rightParen)
    | .leftBracket | .dot => g.indexOf left token
    | operator =>
      return .binary operator left (← g.expressionFrom (Precedence.ofRightOperand operator tier))

/-- An operand and every operator after it of tier `tier` or tighter. -/
def operation (g : Grammar) (tier : Precedence) : Parse Expression := do
  iterate g.bound (fun left => do
    let token ← peek
    match Precedence.afterOperand? token.kind with
    | none => return .done left
    | some found =>
      if found.rank < tier.rank then
        return .done left
      else
        let _ ← take
        return .again (← g.extend left token found)) (← g.prefixed)

end Tao.Grammar
