/-
  Every parser of the grammar counts as `Tao.Proofs.Parser.Count.Basic` says.

  A grammar is PRUDENT if its statements raise the count by no more than the switches they have
  begun, and its expressions not at all: what is left raised in an expression is so in the body of a
  function, which restores the count.  One lemma for each rule of the grammar, in the order of the
  grammar; `prudent_ofFuel` ties the knot by induction on the levels.

  In most rules a token that is looked at is kept or handed back, and nothing else matters.  Credit
  shows in three places: in a lookahead, which hands many tokens back at once, where a token decides
  what follows, and in a switch, which spends its own.
-/
import Tao.Proofs.Parser.Count.Basic

namespace Tao.Grammar

open Tao.Parser

/-- Do the parsers of a grammar stray no further than the switches they begin? -/
structure Prudent (g : Grammar) : Prop where
  statement : Tame true g.statement
  conditional : Tame true g.conditional
  expressionFrom : ∀ raising tier, Tame raising (g.expressionFrom tier)

variable {g : Grammar} {raising : Bool}

theorem Prudent.expression (h : g.Prudent) : Tame raising g.expression :=
  h.expressionFrom raising .assignment

/-! ## Blocks -/

/-- In a block each statement may raise the count. -/
theorem Prudent.block (h : g.Prudent) : Tame true g.block := by
  refine .iterate fun read => (Tame.takeIf _).bind fun closed => ?_
  split
  · exact .pure
  · refine (Tame.nextIs _).bind fun ended => ?_
    split
    · exact Tame.peek.bind fun _ => .fail
    · exact h.statement.bind fun _ => .pure

/-- The body of a function restores it, in the end and where it fails. -/
theorem Prudent.bodyOfFunction (h : g.Prudent) : Tame raising g.bodyOfFunction :=
  h.block.restored

/-! ## Expressions -/

/-- Arguments have no switches but in bodies. -/
theorem Prudent.arguments (h : g.Prudent) (closing : Kind) :
    Tame raising (g.arguments closing) := by
  refine .iterate fun read => (Tame.takeIf _).bind fun closed => ?_
  split
  · exact .pure
  · refine h.expression.bind fun argument => (Tame.takeIf _).bind fun more => ?_
    split
    · exact .pure
    · exact (Tame.expect _).bind fun _ => .pure

/-- Names are compared without taking a token. -/
theorem tame_distinctNames (params : List Token) : Tame raising (distinctNames params) := by
  have hgo : ∀ read, Tame raising (distinctNames.go read params) := by
    induction params with
    | nil => exact fun _ => .pure
    | cons param rest ih =>
      intro read
      unfold distinctNames.go
      dsimp only
      split
      · exact .fail
      · exact ih _
  exact hgo []

theorem tame_parameters (g : Grammar) : Tame raising g.parameters := by
  refine .iterate fun read => (Tame.takeIf _).bind fun closed => ?_
  split
  · exact .pure
  · refine (Tame.expect _).bind fun param => (Tame.takeIf _).bind fun more => ?_
    split
    · exact .pure
    · exact (Tame.expect _).bind fun _ => .pure

/-- Functions and lambdas raise nothing, as their bodies do not. -/
theorem Prudent.functionRest (h : g.Prudent) : Tame raising g.functionRest := by
  refine (Tame.nextIs _).bind fun named => ?_
  extract_lets rest
  have hrest : ∀ name, Tame raising (rest name) := fun name => by
    refine (Tame.expect _).bind fun _ => (tame_parameters g).bind fun params => ?_
    refine (tame_distinctNames params).bind fun names => (Tame.expect _).bind fun _ => ?_
    exact h.bodyOfFunction.bind fun _ => .pure
  split
  · exact Tame.expectName.map.bind hrest
  · exact Tame.pure.bind hrest

theorem Prudent.lambda (h : g.Prudent) (params : List Token) : Tame raising (g.lambda params) := by
  refine (tame_distinctNames params).bind fun names => (Tame.takeIf _).bind fun braced => ?_
  extract_lets rest
  have hrest : ∀ body, Tame raising (rest body) := fun _ => .pure
  split
  · exact h.bodyOfFunction.bind hrest
  · exact h.expression.bind fun _ => Tame.pure.bind hrest

/-- Tokens are handed back at the price at which they were taken. -/
theorem counts_putBackAll (tokens : List Token) :
    Counts raising (switchesAmong tokens) (tokens.forM putBack) fun _ _ => True := by
  induction tokens with
  | nil => exact .pure trivial
  | cons token rest ih => exact .putBackBind ih

/-- A lookahead holds the tokens it has seen. -/
theorem tame_lambdaHead (g : Grammar) : Tame raising g.lambdaHead := by
  refine Counts.bind (Q := fun rest found => rest = switchesAmong found.2.seen)
    (.iterate (I := fun rest ahead => rest = switchesAmong ahead.seen) ?turn rfl) ?_
  case turn =>
    rintro _ ahead rfl
    refine .takeBind fun token => ?_
    dsimp only
    split
    · exact (Counts.frame (Tame.nextIs _)).bind fun _ _ h => .pure h
    · split <;> exact .pure rfl
    · split <;> exact .pure rfl
    · exact .pure rfl
  · rintro _ ⟨isLambda, ahead⟩ rfl
    dsimp only
    split
    · exact (Tame.take.bind fun _ => .pure).counts
    · exact (counts_putBackAll _).bind fun _ _ _ => .pure trivial

/-! ## Operands -/

theorem Prudent.objectRest (h : g.Prudent) : Tame raising g.objectRest := by
  refine .iterate fun read => ?_
  obtain ⟨entries, keys⟩ := read
  refine (Tame.takeIf _).bind fun closed => ?_
  split
  · exact .pure
  · refine Tame.take.bind fun token => ?_
    split
    case h_3 => exact .fail
    -- a key is a name or a string, and the same follows
    all_goals
      extract_lets rest
      have hrest : ∀ r, Tame raising (rest r) := by
        intro _
        refine (Tame.expect _).bind fun _ => h.expression.bind fun e => ?_
        refine (Tame.takeIf _).bind fun more => ?_
        split
        · exact .pure
        · exact (Tame.expect _).bind fun _ => .pure
      split
      · exact .failBind
      · exact hrest ()

theorem Prudent.primary (h : g.Prudent) : Tame raising g.primary := by
  refine Tame.take.bind fun token => ?_
  split
  · exact .pure
  · exact .pure
  · exact .pure
  · exact .pure
  · exact .pure
  · refine (Tame.takeIf _).bind fun arrow => ?_
    split
    · exact h.lambda _
    · exact .pure
  · refine (tame_lambdaHead g).bind fun head => ?_
    split
    · exact h.lambda _
    · exact h.expression.bind fun _ => (Tame.expect _).bind fun _ => .pure
  · exact h.functionRest.map
  · exact h.objectRest
  · exact (h.arguments _).map
  · exact .fail

theorem Prudent.indexOf (h : g.Prudent) (target : Expression) (opening : Token) :
    Tame raising (g.indexOf target opening) := by
  unfold Grammar.indexOf
  split
  · exact Tame.expectName.bind fun _ => .pure
  · exact h.expression.bind fun _ => (Tame.expect _).bind fun _ => .pure

/-- A token that goes on with an operand is taken, any other put back with its credit. -/
theorem Prudent.construction (h : g.Prudent) : Tame raising g.construction := by
  refine h.primary.bind fun first => Tame.bind (.iterate fun maker => ?_) fun maker => ?_
  · refine Counts.takeBind fun token => ?_
    split
    · exact ((h.indexOf maker token).bind fun _ => .pure).counts
    · exact .putBackBind (.pure trivial)
  · refine (Tame.takeIf _).bind fun more => ?_
    extract_lets rest
    have hrest : ∀ arguments, Tame raising (rest arguments) := fun _ => .pure
    split
    · exact (h.arguments _).bind hrest
    · exact Tame.pure.bind hrest

/-- So it is with operators before an operand. -/
theorem Prudent.prefixed (h : g.Prudent) : Tame raising g.prefixed := by
  refine Counts.takeBind fun token => ?_
  split
  case h_8 => exact .putBackBind h.primary
  case h_7 => exact h.construction.counts
  all_goals exact ((h.expressionFrom _ _).bind fun _ => .pure).counts

/-! ## Operators after an operand -/

theorem Prudent.conditionalBranch (h : g.Prudent) : Tame raising g.conditionalBranch := by
  refine (h.expressionFrom _ _).bind fun e => Tame.peek.bind fun token => ?_
  extract_lets rest
  split
  · exact .failBind
  · exact .pure

/-- The token of the operator is taken by now. -/
theorem Prudent.extend (h : g.Prudent) (left : Expression) (token : Token) (tier : Precedence) :
    Tame raising (g.extend left token tier) := by
  unfold Grammar.extend
  split
  · exact (h.expressionFrom _ _).bind fun _ => .pure
  · split
    · exact (h.expressionFrom _ _).bind fun _ => .pure
    · refine h.conditionalBranch.bind fun thenValue => (Tame.expect _).bind fun _ => ?_
      exact h.conditionalBranch.bind fun _ => .pure
    · exact .pure
    · exact .pure
    · exact (h.arguments _).bind fun _ => .pure
    · exact h.indexOf left token
    · exact h.indexOf left token
    · exact (h.expressionFrom _ _).bind fun _ => .pure

theorem Prudent.operation (h : g.Prudent) (tier : Precedence) :
    Tame raising (g.operation tier) := by
  refine h.prefixed.bind fun first => .iterate fun left => Tame.peek.bind fun token => ?_
  split
  · exact .pure
  · split
    · exact .pure
    · exact Tame.take.bind fun _ => (h.extend left token _).bind fun _ => .pure

/-! ## Statements -/

theorem Prudent.definition (h : g.Prudent) : Tame true g.definition := by
  refine Tame.expectName.bind fun name => (Tame.takeIf _).bind fun more => ?_
  extract_lets rest
  have hrest : ∀ initializer, Tame true (rest initializer) :=
    fun _ => (Tame.expect _).bind fun _ => .pure
  split
  · exact h.expression.map.bind hrest
  · exact Tame.pure.bind hrest

theorem Prudent.returning (h : g.Prudent) : Tame true g.returning := by
  refine (Tame.takeIf _).bind fun empty => ?_
  split
  · exact .pure
  · exact h.expression.bind fun _ => (Tame.expect _).bind fun _ => .pure

theorem Prudent.bareExpression (h : g.Prudent) : Tame true g.bareExpression :=
  h.expression.bind fun _ => (Tame.expect _).bind fun _ => .pure

/-- The body of a loop lowers the count again, also where it fails. -/
theorem Prudent.loopBody (h : g.Prudent) : Tame true g.loopBody :=
  (Tame.expect _).bind fun _ => h.block.lowered

theorem tame_loopParen : Tame raising loopParen := by
  refine Counts.takeBind fun token => ?_
  extract_lets rest
  have hrest : Counts raising (0 + token.switches) (rest ()) fun _ _ => True :=
    .putBackBind (.pure trivial)
  split
  · refine (Counts.frame Tame.peek).bind ?_
    rintro _ next rfl
    split
    · exact .pure trivial
    · exact hrest
  · exact hrest

/-- An expression that is there unless a token of some kind is next. -/
theorem Prudent.clause (h : g.Prudent) (closing : Kind) {α : Type}
    {rest : Option Expression → Parse α} (hrest : ∀ e, Tame raising (rest e)) :
    Tame raising (do
      if ← nextIs closing then
        let e ← pure none
        rest e
      else
        let e ← some <$> g.expression
        rest e) := by
  refine (Tame.nextIs _).bind fun missing => ?_
  split
  · exact Tame.pure.bind hrest
  · exact h.expression.map.bind hrest

theorem Prudent.loop (h : g.Prudent) : Tame true g.loop := by
  refine tame_loopParen.bind fun paren => Tame.peek.bind fun next => ?_
  split
  · refine (Tame.takeIf _).bind fun defines => ?_
    extract_lets closing rest
    have hrest : ∀ init, Tame true (rest init) := fun init => by
      refine h.clause _ fun test => (Tame.expect _).bind fun _ => h.clause _ fun increment => ?_
      extract_lets ending
      have hending : Tame true (ending ()) := h.loopBody.bind fun _ => .pure
      split
      · exact (Tame.expect _).bind fun _ => hending
      · exact hending
    split
    · exact h.definition.map.bind hrest
    · exact (Tame.expect _).bind fun _ => Tame.pure.bind hrest
  · exact h.clause _ fun test => h.loopBody.bind fun _ => .pure

/-! ## Choices -/

theorem Prudent.bracedBlock (h : g.Prudent) : Tame true g.bracedBlock :=
  (Tame.expect _).bind fun _ => h.block

theorem Prudent.branching (h : g.Prudent) : Tame true g.branching := by
  refine h.expression.bind fun condition => h.bracedBlock.bind fun thenBody => ?_
  refine (Tame.takeIf _).bind fun more => ?_
  split
  · refine (Tame.takeIf _).bind fun chained => ?_
    split
    · exact h.conditional.bind fun _ => .pure
    · exact h.bracedBlock.bind fun _ => .pure
  · exact .pure

/-- The token that ends a group is only looked at. -/
theorem Prudent.groupBody (h : g.Prudent) : Tame true g.groupBody := by
  refine .iterate fun read => Tame.peek.bind fun token => ?_
  split
  case h_4 => exact h.statement.bind fun _ => .pure
  all_goals exact .pure

theorem Prudent.groupLabels (h : g.Prudent) : Tame true g.groupLabels := by
  refine h.expression.bind fun first => .iterate fun read => (Tame.takeIf _).bind fun more => ?_
  split
  · exact h.expression.bind fun _ => .pure
  · exact .pure

/-- A switch spends one credit, for it may fail where it has raised the count. -/
theorem Prudent.choice (h : g.Prudent) : Counts true 1 g.choice fun _ _ => True := by
  refine (Counts.frame h.expression).bind ?_
  rintro _ subject rfl
  refine (Counts.frame (Tame.expect _)).bind ?_
  rintro _ _ rfl
  -- behind the groups nothing fails before the count is lowered again
  refine .raised (.iterate fun read => ?_) fun read parser => ⟨_, rfl⟩
  obtain ⟨groups, otherwise⟩ := read
  refine Tame.take.bind fun token => ?_
  dsimp only
  split
  · exact .pure
  · refine h.groupLabels.bind fun labels => (Tame.expect _).bind fun _ => ?_
    exact h.groupBody.bind fun _ => .pure
  · split
    · exact .failBind
    · exact (Tame.expect _).bind fun _ => h.groupBody.bind fun _ => .pure
  · exact .fail

/-! ## All statements -/

/-- All statements.  The token that was taken tells which, and that of a switch is what it
    spends. -/
theorem Prudent.anyStatement (h : g.Prudent) : Tame true g.anyStatement := by
  refine Counts.takeBind fun token => ?_
  split
  · exact .pure trivial
  · exact h.definition.counts
  · refine (Counts.frame (Tame.nextIs _)).bind ?_
    rintro _ named rfl
    split
    · exact (h.functionRest.bind fun _ => .pure).counts
    · exact .putBackBind h.bareExpression
  · exact h.returning.counts
  · exact (h.block.bind fun _ => .pure).counts
  · exact h.loop.counts
  · refine (Tame.getBind fun parser => ?_).counts
    extract_lets rest
    split
    · exact .failBind
    · exact (Tame.expect _).bind fun _ => .pure
  · exact h.branching.counts
  · next hkind =>
    have hcredit : 0 + token.switches = 1 := by
      unfold Token.switches
      rw [if_pos hkind]
    -- the token that was taken pays for the switch that it begins
    rw [hcredit]
    exact h.choice
  · exact .putBackBind h.bareExpression

/-! ## Whole scripts -/

/-- Every level of the grammar is prudent.  Induction on the levels. -/
theorem prudent_ofFuel (n : Nat) : (ofFuel n).Prudent := by
  induction n with
  | zero => exact ⟨.outOfFuel, .outOfFuel, fun _ _ => .outOfFuel⟩
  | succ n ih =>
    refine ⟨?_, ?_, fun raising tier => ?_⟩
    · exact statement_succ n ▸ ih.anyStatement
    · exact conditional_succ n ▸ ih.branching
    · exact expressionFrom_succ n tier ▸ ih.operation tier

/-- A script reads one definition after another. -/
theorem Prudent.script (h : g.Prudent) : Tame true g.script := by
  refine .iterate fun read => Tame.peek.bind fun start => ?_
  split
  · exact .pure
  · refine h.statement.bind fun s => ?_
    split
    case h_4 => exact .fail
    all_goals exact .pure

end Tao.Grammar
