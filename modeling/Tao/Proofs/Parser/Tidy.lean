/-
  Scripts that are parsed are tidy.

  The parser counts the loops and switches around the place it is at, and accepts a `break` only
  where there is one.  The count starts anew in every function, so no `break` leaves a function; all
  parsers give it back as they found it.

  One lemma for each rule of the grammar, in the order of the grammar; `tidy_ofFuel` ties the knot
  by induction on the levels.
-/
import Tao.Parser.Script
import Tao.Proofs.Parser.Gives
import Tao.Proofs.Signals.Breaks

namespace Tao

open Tao.Parser

/-- A tidy statement that breaks only if there are loops or switches around it. -/
structure Statement.TidyAt (around : Nat) (s : Statement) : Prop where
  tidy : s.Everywhere .tidy
  enclosed : around = 0 → ¬ s.Breaks

namespace Grammar

/-- Does a grammar give tidy trees? -/
structure Tidy (g : Grammar) : Prop where
  statement : ∀ n, Gives n n g.statement (·.TidyAt n)
  conditional : ∀ n, Gives n n g.conditional (·.TidyAt n)
  expressionFrom : ∀ n tier, Gives n n (g.expressionFrom tier) (·.Everywhere .tidy)

variable {g : Grammar} {n : Nat}

theorem Tidy.expression (h : g.Tidy) : Gives n n g.expression (·.Everywhere .tidy) :=
  h.expressionFrom n .assignment

theorem Tidy.someExpression (h : g.Tidy) :
    Gives n n (some <$> g.expression) (Expression.Everywhere? .tidy) :=
  h.expression.map fun _ he => he

/-- What was read is kept in reverse. -/
theorem forall_mem_reverse_cons {α : Type} {P : α → Prop} {a : α} {read : List α}
    (ha : P a) (hread : ∀ b ∈ read, P b) : ∀ b ∈ (a :: read).reverse, P b := by
  intro b hb
  rcases List.mem_cons.1 (List.mem_reverse.1 hb) with rfl | hb
  · exact ha
  · exact hread b hb

/-! ## Blocks -/

/-- All statements of a block stand among the same loops. -/
theorem Tidy.block (h : g.Tidy) : Gives n n g.block fun body => ∀ s ∈ body, s.TidyAt n := by
  refine .iterate (I := fun read => ∀ s ∈ read, s.TidyAt n) (fun read hread => ?_)
    fun _ hs => absurd hs List.not_mem_nil
  refine (gives_takeIf _).bind fun closed _ => ?_
  split
  · exact .pure fun s hs => hread s (List.mem_reverse.1 hs)
  · refine (gives_nextIs _).bind fun ended _ => ?_
    split
    · exact gives_peek.bind fun _ _ => .fail
    · exact (h.statement n).bind fun s hs => .pure (List.forall_mem_cons.2 ⟨hs, hread⟩)

/-- Tidy statements make tidy bodies. -/
theorem allEverywhere_of_tidyAt {body : List Statement} (h : ∀ s ∈ body, s.TidyAt n) :
    Statement.AllEverywhere .tidy body :=
  Statement.allEverywhere_iff.2 fun s hs => (h s hs).tidy

/-- Tidy bodies do not break where there is nothing to break. -/
theorem not_anyBreaks_of_tidyAt {body : List Statement} (h : ∀ s ∈ body, s.TidyAt n)
    (hn : n = 0) : ¬ Statement.AnyBreaks body := by
  rintro hbreaks
  obtain ⟨s, hs, hbreak⟩ := Statement.anyBreaks_iff.1 hbreaks
  exact (h s hs).enclosed hn hbreak

/-- The body of a function stands in no loop, whatever is around the function. -/
theorem Tidy.bodyOfFunction (h : g.Tidy) : Gives n n g.bodyOfFunction fun body =>
    ∀ name params, (FunctionCode.mk name params body).Everywhere .tidy := by
  intro parser body next hn hresult
  have hblock : Gives 0 n (afterwards g.block fun after => { after with breakable := n })
      fun body => ∀ s ∈ body, s.TidyAt 0 := h.block.afterwards fun _ _ => rfl
  subst hn
  obtain ⟨hcount, hbody⟩ := hblock { parser with breakable := 0 } body next rfl hresult
  exact ⟨hcount, fun name params =>
    ⟨not_anyBreaks_of_tidyAt hbody rfl, allEverywhere_of_tidyAt hbody⟩⟩

/-! ## Expressions -/

theorem Tidy.arguments (h : g.Tidy) (closing : Kind) : Gives n n (g.arguments closing)
    (Expression.AllEverywhere .tidy) := by
  refine Gives.imp (Q := fun es => ∀ e ∈ es, Expression.Everywhere .tidy e) ?_
    fun _ => Expression.allEverywhere_iff.2
  refine .iterate (I := fun read => ∀ e ∈ read, Expression.Everywhere .tidy e)
    (fun read hread => ?_) fun _ hs => absurd hs List.not_mem_nil
  refine (gives_takeIf _).bind fun closed _ => ?_
  split
  · exact .pure fun e he => hread e (List.mem_reverse.1 he)
  · refine h.expression.bind fun e he => (gives_takeIf _).bind fun more _ => ?_
    split
    · exact .pure (List.forall_mem_cons.2 ⟨he, hread⟩)
    · exact (gives_expect _).bind fun _ _ => .pure (forall_mem_reverse_cons he hread)

/-- Parameters are read at the count that is there. -/
theorem gives_distinctNames (params : List Token) :
    Gives n n (distinctNames params) fun _ => True := by
  have hgo : ∀ read, Gives n n (distinctNames.go read params) fun _ => True := by
    induction params with
    | nil => exact fun _ => .pure trivial
    | cons param rest ih =>
      intro read
      unfold distinctNames.go
      dsimp only
      split
      · exact .fail
      · exact ih _
  exact hgo []

theorem gives_parameters (g : Grammar) : Gives n n g.parameters fun _ => True := by
  refine .iterate (I := fun _ => True) (fun read _ => ?_) trivial
  refine (gives_takeIf _).bind fun closed _ => ?_
  split
  · exact .pure trivial
  · refine (gives_expect _).bind fun _ _ => (gives_takeIf _).bind fun more _ => ?_
    split
    · exact .pure trivial
    · exact (gives_expect _).bind fun _ _ => .pure trivial

/-- A function has a body of its own, read at count 0. -/
theorem Tidy.functionRest (h : g.Tidy) : Gives n n g.functionRest (·.Everywhere .tidy) := by
  refine (gives_nextIs _).bind fun named _ => ?_
  extract_lets rest
  have hrest : ∀ name, Gives n n (rest name) (·.Everywhere .tidy) := fun name => by
    refine (gives_expect _).bind fun _ _ => (gives_parameters g).bind fun params _ => ?_
    refine (gives_distinctNames params).bind fun names _ => (gives_expect _).bind fun _ _ => ?_
    exact h.bodyOfFunction.bind fun body hbody => .pure (hbody name names)
  split
  · exact (gives_expectName.map fun _ _ => trivial).bind fun name (_ : True) => hrest name
  · exact (Gives.pure trivial).bind fun name (_ : True) => hrest name

/-- A lambda that returns an expression has no `break` in its body. -/
theorem everywhere_returning {e : Expression} (he : e.Everywhere .tidy) (name : Option String)
    (params : List String) :
    (FunctionCode.mk name params [.giveBack (some e)]).Everywhere .tidy := by
  refine ⟨?_, ⟨trivial, he⟩, trivial⟩
  rintro (hbreaks | hbreaks)
  · exact hbreaks
  · exact hbreaks

/-- A lambda has such a body or an expression. -/
theorem Tidy.lambda (h : g.Tidy) (params : List Token) :
    Gives n n (g.lambda params) (·.Everywhere .tidy) := by
  refine (gives_distinctNames params).bind fun names _ => (gives_takeIf _).bind fun braced _ => ?_
  extract_lets rest
  have hrest : ∀ body, (FunctionCode.mk none names body).Everywhere .tidy →
      Gives n n (rest body) (·.Everywhere .tidy) := fun body hbody => .pure hbody
  split
  · exact h.bodyOfFunction.bind fun body hbody => hrest body (hbody none names)
  · refine h.expression.bind fun e he => ?_
    exact Gives.bind (.pure (everywhere_returning he none names)) hrest

/-- Looking ahead leaves the count. -/
theorem gives_lambdaHead (g : Grammar) : Gives n n g.lambdaHead fun _ => True := by
  refine Gives.bind (Q := fun _ => True) (.iterate (I := fun _ => True) (fun ahead _ => ?_) trivial)
    fun found _ => ?_
  · refine gives_take.bind fun token _ => ?_
    dsimp only
    split
    · exact (gives_nextIs _).bind fun _ _ => .pure trivial
    · split <;> exact .pure trivial
    · split <;> exact .pure trivial
    · exact .pure trivial
  · obtain ⟨isLambda, ahead⟩ := found
    dsimp only
    split
    · exact gives_take.bind fun _ _ => .pure trivial
    · have hback : ∀ tokens : List Token, Gives n n (tokens.forM putBack) fun _ => True := by
        intro tokens
        induction tokens with
        | nil => exact .pure trivial
        | cons token rest ih => exact (gives_putBack token).bind fun _ _ => ih
      exact (hback _).bind fun _ _ => .pure trivial

/-! ## Operands -/

/-- An object literal of entries that were read, last one first. -/
theorem everywhere_object {entries : List Entry}
    (h : ∀ entry ∈ entries, entry.Everywhere .tidy) :
    (Expression.object entries.reverse).Everywhere .tidy :=
  ⟨trivial, Entry.allEverywhere_iff.2 fun entry hentry => h entry (List.mem_reverse.1 hentry)⟩

theorem everywhere_cons {key : String} {e : Expression} {entries : List Entry}
    (he : e.Everywhere .tidy) (hentries : ∀ entry ∈ entries, entry.Everywhere .tidy) :
    ∀ entry ∈ .mk key e :: entries, Entry.Everywhere .tidy entry :=
  List.forall_mem_cons.2 ⟨he, hentries⟩

theorem Tidy.objectRest (h : g.Tidy) : Gives n n g.objectRest (·.Everywhere .tidy) := by
  refine .iterate (I := fun read => ∀ entry ∈ read.1, entry.Everywhere .tidy)
    (fun read hread => ?_) fun _ hs => absurd hs List.not_mem_nil
  obtain ⟨entries, keys⟩ := read
  refine (gives_takeIf _).bind fun closed _ => ?_
  split
  · exact .pure (everywhere_object hread)
  · refine gives_take.bind fun token _ => ?_
    split
    case h_3 => exact .fail
    -- a key is a name or a string, and the same follows
    all_goals
      extract_lets rest
      have hrest : ∀ r, Gives n n (rest r) (TurnKeeps
          (fun read => ∀ entry ∈ read.1, entry.Everywhere .tidy) (·.Everywhere .tidy)) := by
        intro _
        refine (gives_expect _).bind fun _ _ => h.expression.bind fun e he => ?_
        refine (gives_takeIf _).bind fun more _ => ?_
        split
        · exact .pure (everywhere_cons he hread)
        · exact (gives_expect _).bind fun _ _ =>
            .pure (everywhere_object (everywhere_cons he hread))
      split
      · exact .failBind
      · exact hrest ()

/-- Operands, by the token that they begin with. -/
theorem Tidy.primary (h : g.Tidy) : Gives n n g.primary (·.Everywhere .tidy) := by
  refine gives_take.bind fun token _ => ?_
  split
  · exact .pure trivial
  · exact .pure trivial
  · exact .pure trivial
  · exact .pure trivial
  · exact .pure trivial
  · refine (gives_takeIf _).bind fun arrow _ => ?_
    split
    · exact h.lambda _
    · exact .pure trivial
  · refine (gives_lambdaHead g).bind fun head _ => ?_
    split
    · exact h.lambda _
    · exact h.expression.bind fun e he => (gives_expect _).bind fun _ _ => .pure he
  · exact h.functionRest.map fun code hcode => hcode
  · exact h.objectRest
  · exact (h.arguments _).map fun es hes => ⟨trivial, hes⟩
  · exact .fail

theorem Tidy.indexOf (h : g.Tidy) {target : Expression} (htarget : target.Everywhere .tidy)
    (opening : Token) : Gives n n (g.indexOf target opening) (·.Everywhere .tidy) := by
  unfold Grammar.indexOf
  split
  · exact gives_expectName.bind fun name _ => .pure ⟨trivial, htarget, trivial⟩
  · exact h.expression.bind fun key hkey =>
      (gives_expect _).bind fun _ _ => .pure ⟨trivial, htarget, hkey⟩

theorem Tidy.construction (h : g.Tidy) : Gives n n g.construction (·.Everywhere .tidy) := by
  refine h.primary.bind fun first hfirst => ?_
  refine Gives.bind (Q := fun maker => maker.Everywhere .tidy)
    (.iterate (I := fun maker => maker.Everywhere .tidy) (fun maker hmaker => ?_) hfirst)
    fun maker hmaker => (gives_takeIf _).bind fun more _ => ?_
  · refine gives_take.bind fun token _ => ?_
    split
    · exact (h.indexOf hmaker token).bind fun e he => .pure he
    · exact (gives_putBack token).bind fun _ _ => .pure hmaker
  · extract_lets rest
    have hrest : ∀ arguments, Expression.AllEverywhere .tidy arguments →
        Gives n n (rest arguments) (·.Everywhere .tidy) := fun arguments harguments =>
      .pure ⟨trivial, hmaker, harguments⟩
    split
    · exact (h.arguments _).bind hrest
    · exact Gives.bind (.pure trivial) hrest

theorem Tidy.prefixed (h : g.Tidy) : Gives n n g.prefixed (·.Everywhere .tidy) := by
  refine gives_take.bind fun token _ => ?_
  split
  case h_8 => exact (gives_putBack token).bind fun _ _ => h.primary
  case h_7 => exact h.construction
  all_goals exact (h.expressionFrom _ _).bind fun e he => .pure ⟨trivial, he⟩

/-! ## Operators after an operand -/

theorem Tidy.conditionalBranch (h : g.Tidy) :
    Gives n n g.conditionalBranch (·.Everywhere .tidy) := by
  refine (h.expressionFrom _ _).bind fun e he => gives_peek.bind fun token _ => ?_
  extract_lets rest
  split
  · exact .failBind
  · exact .pure he

/-- What an operator makes of tidy operands. -/
theorem Tidy.extend (h : g.Tidy) {left : Expression} (hleft : left.Everywhere .tidy)
    (token : Token) (tier : Precedence) :
    Gives n n (g.extend left token tier) (·.Everywhere .tidy) := by
  unfold Grammar.extend
  split
  · exact (h.expressionFrom _ _).bind fun e he => .pure ⟨trivial, hleft, trivial, hleft, he⟩
  · split
    · exact (h.expressionFrom _ _).bind fun e he => .pure ⟨trivial, hleft, he⟩
    · refine h.conditionalBranch.bind fun thenValue hthen => (gives_expect _).bind fun _ _ => ?_
      exact h.conditionalBranch.bind fun elseValue helse => .pure ⟨trivial, hleft, hthen, helse⟩
    · exact .pure ⟨trivial, hleft⟩
    · exact .pure ⟨trivial, hleft⟩
    · exact (h.arguments _).bind fun es hes => .pure ⟨trivial, hleft, hes⟩
    · exact h.indexOf hleft token
    · exact h.indexOf hleft token
    · exact (h.expressionFrom _ _).bind fun e he => .pure ⟨trivial, hleft, he⟩

theorem Tidy.operation (h : g.Tidy) (tier : Precedence) :
    Gives n n (g.operation tier) (·.Everywhere .tidy) := by
  refine h.prefixed.bind fun first hfirst => ?_
  refine .iterate (I := fun left => left.Everywhere .tidy) (fun left hleft => ?_) hfirst
  refine gives_peek.bind fun token _ => ?_
  split
  · exact .pure hleft
  · split
    · exact .pure hleft
    · exact gives_take.bind fun _ _ => (h.extend hleft token _).bind fun e he => .pure he

/-! ## Statements -/

/-- A statement that never breaks is tidy at all places if it is tidy. -/
theorem tidyAt_of_tidy {s : Statement} (h : s.Everywhere .tidy) (hbreaks : ¬ s.Breaks) :
    s.TidyAt n :=
  ⟨h, fun _ => hbreaks⟩

/-- Definitions and functions are what stands outside of functions. -/
theorem Tidy.definition (h : g.Tidy) : Gives n n g.definition fun s =>
    s.Everywhere .tidy ∧ s.IsDefinition := by
  refine gives_expectName.bind fun name _ => (gives_takeIf _).bind fun more _ => ?_
  extract_lets rest
  have hrest : ∀ initializer, Expression.Everywhere? .tidy initializer →
      Gives n n (rest initializer) fun s => s.Everywhere .tidy ∧ s.IsDefinition :=
    fun initializer he => (gives_expect _).bind fun _ _ => .pure ⟨⟨trivial, he⟩, trivial⟩
  split
  · exact h.someExpression.bind hrest
  · exact Gives.bind (.pure trivial) hrest

theorem Tidy.returning (h : g.Tidy) : Gives n n g.returning (·.TidyAt n) := by
  refine (gives_takeIf _).bind fun empty _ => ?_
  split
  · exact .pure (tidyAt_of_tidy ⟨trivial, trivial⟩ id)
  · exact h.expression.bind fun e he =>
      (gives_expect _).bind fun _ _ => .pure (tidyAt_of_tidy ⟨trivial, he⟩ id)

theorem Tidy.bareExpression (h : g.Tidy) : Gives n n g.bareExpression (·.TidyAt n) :=
  h.expression.bind fun _ he =>
    (gives_expect _).bind fun _ _ => .pure (tidyAt_of_tidy ⟨trivial, he⟩ id)

/-- In the body of a loop the count is one higher, so there a `break` is in place. -/
theorem Tidy.loopBody (h : g.Tidy) :
    Gives n n g.loopBody (Statement.AllEverywhere .tidy) := by
  refine (gives_expect _).bind fun _ _ => (Gives.setCount (· + 1)).bind fun _ _ => ?_
  refine Gives.afterwards (h.block.imp fun body => allEverywhere_of_tidyAt) fun parser hcount => ?_
  show parser.breakable - 1 = n
  rw [hcount, Nat.add_sub_cancel]

theorem gives_loopParen : Gives n n loopParen fun _ => True := by
  refine gives_take.bind fun token _ => ?_
  extract_lets rest
  have hrest : Gives n n (rest ()) fun _ => True :=
    (gives_putBack token).bind fun _ _ => .pure trivial
  split
  · refine gives_peek.bind fun next _ => ?_
    split
    · exact .pure trivial
    · exact hrest
  · exact hrest

/-- An expression that is there unless a token of some kind is next. -/
theorem Tidy.clause (h : g.Tidy) (closing : Kind) {α : Type} {P : α → Prop}
    {rest : Option Expression → Parse α}
    (hrest : ∀ e, Expression.Everywhere? .tidy e → Gives n n (rest e) P) :
    Gives n n (do
      if ← nextIs closing then
        let e ← pure none
        rest e
      else
        let e ← some <$> g.expression
        rest e) P := by
  refine (gives_nextIs _).bind fun missing _ => ?_
  split
  · exact Gives.bind (.pure trivial) hrest
  · exact h.someExpression.bind hrest

/-- Hence a loop itself does not break. -/
theorem Tidy.loop (h : g.Tidy) : Gives n n g.loop (·.TidyAt n) := by
  refine gives_loopParen.bind fun paren _ => gives_peek.bind fun next _ => ?_
  split
  · refine (gives_takeIf _).bind fun defines _ => ?_
    extract_lets closing rest
    have hrest : ∀ init : Option Statement,
        (∀ s, init = some s → s.Everywhere .tidy ∧ s.IsDefinition) →
        Gives n n (rest init) (·.TidyAt n) := fun init hinit => by
      refine h.clause _ fun test htest => (gives_expect _).bind fun _ _ => ?_
      refine h.clause _ fun increment hincrement => ?_
      extract_lets ending
      have hending : Gives n n (ending ()) (·.TidyAt n) := h.loopBody.bind fun body hbody => by
        refine .pure (tidyAt_of_tidy ?_ id)
        cases init with
        | none => exact ⟨trivial, trivial, htest, hincrement, hbody⟩
        | some s => exact ⟨(hinit s rfl).2, (hinit s rfl).1, htest, hincrement, hbody⟩
      split
      · exact (gives_expect _).bind fun _ _ => hending
      · exact hending
    split
    · refine Gives.bind (h.definition.map fun s hs t (ht : some s = some t) => ?_) hrest
      exact Option.some.inj ht ▸ hs
    · exact (gives_expect _).bind fun _ _ => Gives.bind (.pure nofun) hrest
  · refine h.clause _ fun test htest => ?_
    exact h.loopBody.bind fun body hbody =>
      .pure (tidyAt_of_tidy ⟨trivial, trivial, htest, trivial, hbody⟩ id)

/-! ## Choices -/

theorem Tidy.bracedBlock (h : g.Tidy) :
    Gives n n g.bracedBlock fun body => ∀ s ∈ body, s.TidyAt n :=
  (gives_expect _).bind fun _ _ => h.block

/-- A branch breaks if one of its blocks does. -/
theorem tidyAt_branch {condition : Expression} {thenBody : List Statement}
    {otherwise : Option Statement} (hcondition : condition.Everywhere .tidy)
    (hthen : ∀ s ∈ thenBody, s.TidyAt n) (hotherwise : ∀ s, otherwise = some s → s.TidyAt n) :
    (Statement.branch condition thenBody otherwise).TidyAt n := by
  cases otherwise with
  | none =>
    refine ⟨⟨trivial, hcondition, allEverywhere_of_tidyAt hthen, trivial⟩, fun hn hbreaks => ?_⟩
    exact not_anyBreaks_of_tidyAt hthen hn (hbreaks.resolve_right id)
  | some other =>
    have hother := hotherwise other rfl
    refine ⟨⟨trivial, hcondition, allEverywhere_of_tidyAt hthen, hother.tidy⟩, fun hn => ?_⟩
    rintro (hbreaks | hbreaks)
    · exact not_anyBreaks_of_tidyAt hthen hn hbreaks
    · exact hother.enclosed hn hbreaks

/-- A block breaks only if a statement in it does. -/
theorem tidyAt_block {body : List Statement} (h : ∀ s ∈ body, s.TidyAt n) :
    (Statement.block body).TidyAt n :=
  ⟨⟨trivial, allEverywhere_of_tidyAt h⟩, not_anyBreaks_of_tidyAt h⟩

/-- A branch breaks only if one of its blocks does. -/
theorem Tidy.branching (h : g.Tidy) : Gives n n g.branching (·.TidyAt n) := by
  refine h.expression.bind fun condition hcondition => h.bracedBlock.bind fun thenBody hthen => ?_
  refine (gives_takeIf _).bind fun more _ => ?_
  split
  · refine (gives_takeIf _).bind fun chained _ => ?_
    split
    · exact (h.conditional n).bind fun s hs => .pure (tidyAt_branch hcondition hthen
        fun t ht => Option.some.inj ht ▸ hs)
    · exact h.bracedBlock.bind fun body hbody => .pure (tidyAt_branch hcondition hthen
        fun t ht => Option.some.inj ht ▸ tidyAt_block hbody)
  · exact .pure (tidyAt_branch hcondition hthen nofun)

theorem Tidy.groupBody (h : g.Tidy) :
    Gives n n g.groupBody fun body => ∀ s ∈ body, s.TidyAt n := by
  refine .iterate (I := fun read => ∀ s ∈ read, s.TidyAt n) (fun read hread => ?_)
    fun _ hs => absurd hs List.not_mem_nil
  refine gives_peek.bind fun token _ => ?_
  split
  case h_4 =>
    exact (h.statement n).bind fun s hs => .pure (List.forall_mem_cons.2 ⟨hs, hread⟩)
  all_goals exact .pure fun s hs => hread s (List.mem_reverse.1 hs)

theorem Tidy.groupLabels (h : g.Tidy) :
    Gives n n g.groupLabels (Expression.AllEverywhere .tidy) := by
  refine h.expression.bind fun first hfirst => ?_
  refine Gives.imp (Q := fun es => ∀ e ∈ es, Expression.Everywhere .tidy e) ?_
    fun _ => Expression.allEverywhere_iff.2
  refine .iterate (I := fun read => ∀ e ∈ read, Expression.Everywhere .tidy e)
    (fun read hread => ?_) (List.forall_mem_singleton.2 hfirst)
  refine (gives_takeIf _).bind fun more _ => ?_
  split
  · exact h.expression.bind fun e he => .pure (List.forall_mem_cons.2 ⟨he, hread⟩)
  · exact .pure fun e he => hread e (List.mem_reverse.1 he)

/-- What was read of a choice: groups, last one first, and a default body. -/
def TidyGroups (read : List CaseGroup × Option (List Statement)) : Prop :=
  (∀ group ∈ read.1, group.Everywhere .tidy) ∧ Statement.AllEverywhere? .tidy read.2

/-- In a choice the count is one higher, as in a loop. -/
theorem Tidy.choice (h : g.Tidy) : Gives n n g.choice (·.TidyAt n) := by
  refine h.expression.bind fun subject hsubject => (gives_expect _).bind fun _ _ => ?_
  refine (Gives.setCount (· + 1)).bind fun _ _ => ?_
  refine Gives.bind (Q := TidyGroups) (.iterate (I := TidyGroups) (fun read hread => ?_)
    ⟨fun _ hs => absurd hs List.not_mem_nil, trivial⟩) fun read hread => ?_
  · obtain ⟨groups, otherwise⟩ := read
    refine gives_take.bind fun token _ => ?_
    dsimp only
    split
    · exact .pure ⟨fun group hgroup => hread.1 group (List.mem_reverse.1 hgroup), hread.2⟩
    · refine h.groupLabels.bind fun labels hlabels => (gives_expect _).bind fun _ _ => ?_
      refine h.groupBody.bind fun body hbody => .pure ⟨?_, hread.2⟩
      exact List.forall_mem_cons.2 ⟨⟨hlabels, allEverywhere_of_tidyAt hbody⟩, hread.1⟩
    · split
      · exact .failBind
      · exact (gives_expect _).bind fun _ _ => h.groupBody.bind fun body hbody =>
          .pure ⟨hread.1, allEverywhere_of_tidyAt hbody⟩
    · exact .fail
  · obtain ⟨groups, otherwise⟩ := read
    refine (Gives.setCount (· - 1)).bind fun _ _ => ?_
    exact .pure (tidyAt_of_tidy ⟨trivial, hsubject, CaseGroup.allEverywhere_iff.2 hread.1, hread.2⟩
      id)

/-! ## All statements -/

theorem gives_count : Gives n n (get : Parse Parser) fun parser => parser.breakable = n := by
  intro parser a next hn hresult
  cases hresult
  exact ⟨hn, hn⟩

/-- All statements.  A `break` is accepted where the count is not 0. -/
theorem Tidy.anyStatement (h : g.Tidy) : Gives n n g.anyStatement (·.TidyAt n) := by
  refine gives_take.bind fun token _ => ?_
  split
  · exact .pure (tidyAt_of_tidy trivial id)
  · exact h.definition.imp fun s hs =>
      tidyAt_of_tidy hs.1 (Statement.not_breaks_of_isDefinition hs.2)
  · refine (gives_nextIs _).bind fun named _ => ?_
    split
    · exact h.functionRest.bind fun code hcode => .pure (tidyAt_of_tidy ⟨trivial, hcode⟩ id)
    · exact (gives_putBack token).bind fun _ _ => h.bareExpression
  · exact h.returning
  · exact h.block.bind fun body hbody => .pure (tidyAt_block hbody)
  · exact h.loop
  · refine gives_count.bind fun parser hparser => ?_
    extract_lets rest
    split
    · exact .failBind
    · rename_i hcount
      refine (gives_expect _).bind fun _ _ => .pure ⟨trivial, fun hn => ?_⟩
      exact absurd (hparser.trans hn) hcount
  · exact h.branching
  · exact h.choice
  · exact (gives_putBack token).bind fun _ _ => h.bareExpression

/-! ## Whole scripts -/

/-- Every level of the grammar is tidy.  Induction on the levels. -/
theorem tidy_ofFuel (n : Nat) : (ofFuel n).Tidy := by
  induction n with
  | zero => exact ⟨fun _ => .outOfFuel, fun _ => .outOfFuel, fun _ _ => .outOfFuel⟩
  | succ n ih =>
    refine ⟨fun _ => ?_, fun _ => ?_, fun _ tier => ?_⟩
    · exact statement_succ n ▸ ih.anyStatement
    · exact conditional_succ n ▸ ih.branching
    · exact expressionFrom_succ n tier ▸ ih.operation tier

/-- Outside of functions only definitions are accepted. -/
theorem Tidy.script (h : g.Tidy) : Gives n n g.script Program.IsTidy := by
  refine .iterate (I := fun read => ∀ s ∈ read, s.Everywhere .tidy ∧ s.IsDefinition)
    (fun read hread => ?_) fun _ hs => absurd hs List.not_mem_nil
  refine gives_peek.bind fun start _ => ?_
  split
  · exact .pure ⟨Statement.allEverywhere_iff.2 fun s hs => (hread s (List.mem_reverse.1 hs)).1,
      fun s hs => (hread s (List.mem_reverse.1 hs)).2⟩
  · refine (h.statement n).bind fun s hs => ?_
    have htidy := hs.tidy
    split
    case h_4 => exact .fail
    all_goals exact .pure (List.forall_mem_cons.2 ⟨⟨htidy, trivial⟩, hread⟩)

end Grammar

/-- **Scripts that are parsed are tidy.**  Whatever the text: in what is read of it no `break`
    leaves a function, and loops, like the script itself, begin with definitions. -/
theorem Program.isTidy_of_parse {text : String} {program : Program}
    (h : parse text = .ok program) : program.IsTidy := by
  unfold parse Parser.script at h
  split at h
  · rename_i found parser hfound
    cases h
    exact ((Grammar.tidy_ofFuel _).script _ _ _ rfl hfound).2
  · cases h

end Tao
