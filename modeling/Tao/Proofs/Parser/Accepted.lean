/-
  Scripts that are parsed are well formed.

  What a grammar builds from tokens that were read has all that makes a tree well formed, save for
  the places of `break`: those are a matter of counting, and `Program.isTidy_of_parse` tells of
  them.  Names are names because they were read as such, numbers are not negative because too large
  ones are not read, and operators, parameters, keys, labels and branches are checked where a node
  is built.

  One lemma for each rule of the grammar, in the order of the grammar; `sound_ofFuel` ties the knot
  by induction on the levels.  With the texts that a script can be written as, well-formed scripts
  are just those that some text is read as.
-/
import Tao.Proofs.Parser.Builds
import Tao.Proofs.Parser.Canonical
import Tao.Proofs.Parser.Tidy

namespace Tao

open Tao.Parser

/-! ## All but the places of breaks -/

/-- The names of a function are names, and its parameters differ. -/
structure FunctionCode.HasNames (code : FunctionCode) : Prop where
  name : ∀ x ∈ code.name, IsName x
  params : ∀ x ∈ code.params, IsName x
  distinct : code.params.Nodup

/-- The conditions of `Shape.legal`, except that a function may break. -/
def Shape.built : Shape where
  statement := Shape.legal.statement
  expression
    | .function code => code.HasNames
    | e => Shape.legal.expression e

/-- What is built and tidy is legal. -/
theorem Shape.joins_built : Shape.built.Joins .tidy .legal where
  statement _ hbuilt _ := hbuilt
  expression e hbuilt htidy := by
    cases e with
    | function code => exact ⟨hbuilt.name, hbuilt.params, hbuilt.distinct, htidy⟩
    | _ => exact hbuilt

/-- Numbers that are read are not negative. -/
theorem nonneg_of_le_maxNumber {value : Nat} (h : value ≤ maxNumber) : 0 ≤ Int64.ofNat value := by
  have hsmall : value < 2 ^ 63 := by
    have hmax : maxNumber = 2 ^ 63 - 1 := rfl
    omega
  rw [Int64.le_iff_toInt_le, Int64.toInt_ofNat_of_lt hsmall]
  exact Int.natCast_nonneg value

namespace Grammar

/-- Does a grammar build trees that are legal, up to the places of breaks? -/
structure Sound (g : Grammar) : Prop where
  statement : Builds g.statement (·.Everywhere .built)
  conditional : Builds g.conditional fun s => s.Everywhere .built ∧ s.MayFollowElse
  expressionFrom : ∀ tier, Builds (g.expressionFrom tier) (·.Everywhere .built)

variable {g : Grammar}

theorem Sound.expression (h : g.Sound) : Builds g.expression (·.Everywhere .built) :=
  h.expressionFrom .assignment

/-- A clause that is there is an expression. -/
theorem Sound.someExpression (h : g.Sound) :
    Builds (some <$> g.expression) (Expression.Everywhere? .built) :=
  h.expression.map fun _ he => he

/-! ## Blocks -/

theorem Sound.block (h : g.Sound) : Builds g.block (Statement.AllEverywhere .built) := by
  refine Builds.imp (Q := fun body => ∀ s ∈ body, Statement.Everywhere .built s) ?_
    fun _ => Statement.allEverywhere_iff.2
  refine .iterate (I := fun read => ∀ s ∈ read, Statement.Everywhere .built s)
    (fun read hread => ?_) fun _ hs => absurd hs List.not_mem_nil
  refine (builds_takeIf _).bind fun closed _ => ?_
  split
  · exact .pure fun s hs => hread s (List.mem_reverse.1 hs)
  · refine (builds_nextIs _).bind fun ended _ => ?_
    split
    · exact builds_peek.bind fun _ _ => .fail
    · exact h.statement.bind fun s hs => .pure (List.forall_mem_cons.2 ⟨hs, hread⟩)

/-- The count of loops and switches is set aside for the body of a function. -/
theorem Sound.bodyOfFunction (h : g.Sound) :
    Builds g.bodyOfFunction (Statement.AllEverywhere .built) := by
  intro parser body next hclean hresult
  have hblock : Builds
      (afterwards g.block fun after => { after with breakable := parser.breakable })
      (Statement.AllEverywhere .built) := h.block.afterwards fun _ => rfl
  exact hblock { parser with breakable := 0 } body next hclean hresult

/-! ## Expressions -/

theorem Sound.arguments (h : g.Sound) (closing : Kind) : Builds (g.arguments closing)
    (Expression.AllEverywhere .built) := by
  refine Builds.imp (Q := fun es => ∀ e ∈ es, Expression.Everywhere .built e) ?_
    fun _ => Expression.allEverywhere_iff.2
  refine .iterate (I := fun read => ∀ e ∈ read, Expression.Everywhere .built e)
    (fun read hread => ?_) fun _ hs => absurd hs List.not_mem_nil
  refine (builds_takeIf _).bind fun closed _ => ?_
  split
  · exact .pure fun e he => hread e (List.mem_reverse.1 he)
  · refine h.expression.bind fun e he => (builds_takeIf _).bind fun more _ => ?_
    split
    · exact .pure (List.forall_mem_cons.2 ⟨he, hread⟩)
    · exact (builds_expect _).bind fun _ _ => .pure (forall_mem_reverse_cons he hread)

/-- Names that differ. -/
def AreParams (names : List String) : Prop := (∀ x ∈ names, IsName x) ∧ names.Nodup

/-- The names of parameters are names, and they have been compared. -/
theorem builds_distinctNames {params : List Token} (hparams : ∀ param ∈ params, param.Names) :
    Builds (distinctNames params) AreParams := by
  have hgo : ∀ read, AreParams read → Builds (distinctNames.go read params) AreParams := by
    induction params with
    | nil =>
      exact fun read ⟨hnames, hnodup⟩ =>
        .pure ⟨fun x hx => hnames x (List.mem_reverse.1 hx), List.nodup_reverse.2 hnodup⟩
    | cons param rest ih =>
      obtain ⟨hparam, hrest⟩ := List.forall_mem_cons.1 hparams
      rintro read ⟨hnames, hnodup⟩
      unfold distinctNames.go
      dsimp only
      split
      · exact .fail
      · next hnew =>
        have hnew : param.lexeme.contents ∉ read := fun hmem =>
          hnew (List.contains_iff_mem.2 hmem)
        exact ih hrest _ ⟨List.forall_mem_cons.2 ⟨hparam, hnames⟩, hnodup.cons hnew⟩
  exact hgo [] ⟨fun _ hx => absurd hx List.not_mem_nil, .nil⟩

/-- The tokens of parameters have names. -/
theorem builds_parameters (g : Grammar) :
    Builds g.parameters fun params => ∀ param ∈ params, param.Names := by
  refine .iterate (I := fun read => ∀ param ∈ read, param.Names) (fun read hread => ?_)
    fun _ hs => absurd hs List.not_mem_nil
  refine (builds_takeIf _).bind fun closed _ => ?_
  split
  · exact .pure fun param hparam => hread param (List.mem_reverse.1 hparam)
  · refine (builds_expect _).bind fun param hparam => (builds_takeIf _).bind fun more _ => ?_
    have hnames : param.Names := hparam.1.names hparam.2
    split
    · exact .pure (List.forall_mem_cons.2 ⟨hnames, hread⟩)
    · exact (builds_expect _).bind fun _ _ => .pure (forall_mem_reverse_cons hnames hread)

/-- What follows the name of a function. -/
def afterName (g : Grammar) (name : Option String) : Parse FunctionCode := do
  let _ ← expect .leftParen
  let params ← distinctNames (← g.parameters)
  let _ ← expect .leftBrace
  return .mk name params (← g.bodyOfFunction)

/-- What follows the name of a function builds the function of that name. -/
theorem Sound.afterName (h : g.Sound) {name : Option String} (hname : ∀ x ∈ name, IsName x) :
    Builds (g.afterName name) fun code => code.Everywhere .built ∧ code.name = name := by
  refine (builds_expect _).bind fun _ _ => (builds_parameters g).bind fun params hparams => ?_
  refine (builds_distinctNames hparams).bind fun names hnames => ?_
  refine (builds_expect _).bind fun _ _ => ?_
  exact h.bodyOfFunction.bind fun body hbody =>
    .pure ⟨⟨⟨hname, hnames.1, hnames.2⟩, hbody⟩, rfl⟩

/-- The function has a name if one was read. -/
theorem Sound.withName (h : g.Sound) : Builds (some <$> expectName >>= g.afterName) fun code =>
    code.Everywhere .built ∧ code.name.isSome = true := by
  have hnamed : Builds (some <$> expectName) fun name =>
      (∀ x ∈ name, IsName x) ∧ name.isSome = true :=
    builds_expectName.map fun name hname => ⟨fun x hx => Option.some.inj hx ▸ hname, rfl⟩
  exact hnamed.bind fun name hname =>
    (h.afterName hname.1).imp fun _ hcode => ⟨hcode.1, hcode.2 ▸ hname.2⟩

/-- Functions are well formed with a name and without. -/
theorem Sound.functionRest (h : g.Sound) : Builds g.functionRest (·.Everywhere .built) := by
  refine (builds_nextIs _).bind fun named _ => ?_
  split
  · exact h.withName.imp fun _ hcode => hcode.1
  · exact Builds.bind (.pure nofun) fun name hname => (h.afterName hname).imp fun _ hcode => hcode.1

/-- A function whose name comes next has one. -/
theorem Sound.namedFunction (h : g.Sound) :
    Takes (fun parser => parser.Clean ∧ parser.HasNext .identifier) Clean g.functionRest
      fun code => code.Everywhere .built ∧ code.name.isSome = true :=
  Builds.knownNext h.withName

/-- So is a lambda, whose parameters have been read before. -/
theorem Sound.lambda (h : g.Sound) {params : List Token} (hparams : ∀ param ∈ params, param.Names) :
    Builds (g.lambda params) (·.Everywhere .built) := by
  refine (builds_distinctNames hparams).bind fun names hnames => ?_
  refine (builds_takeIf _).bind fun braced _ => ?_
  extract_lets rest
  have hrest : ∀ body, Statement.AllEverywhere .built body →
      Builds (rest body) (·.Everywhere .built) := fun body hbody =>
    .pure ⟨⟨nofun, hnames.1, hnames.2⟩, hbody⟩
  split
  · exact h.bodyOfFunction.bind hrest
  · refine h.expression.bind fun e he => ?_
    exact Builds.bind (.pure ⟨⟨trivial, he⟩, trivial⟩) hrest

/-- What was seen of a lambda was read, and its parameters are names. -/
structure LooksAhead (ahead : Lookahead) : Prop where
  seen : ∀ token ∈ ahead.seen, token.IsRead
  params : ∀ token ∈ ahead.params, token.Names

/-- The parameters that looking ahead finds are tokens with names. -/
theorem builds_lambdaHead (g : Grammar) : Builds g.lambdaHead fun found =>
    ∀ params ∈ found, ∀ param ∈ params, Token.Names param := by
  refine Builds.bind (Q := fun found => LooksAhead found.2)
    (.iterate (I := LooksAhead) (fun ahead hahead => ?_)
      ⟨fun _ h => absurd h List.not_mem_nil, fun _ h => absurd h List.not_mem_nil⟩)
    fun found hfound => ?_
  · refine builds_take.bind fun token htoken => ?_
    have hseen : ∀ t ∈ token :: ahead.seen, t.IsRead := List.forall_mem_cons.2 ⟨htoken, hahead.seen⟩
    dsimp only
    split
    · exact (builds_nextIs _).bind fun _ _ => .pure ⟨hseen, hahead.params⟩
    · next hkind =>
      have hparams : ∀ t ∈ token :: ahead.params, t.Names :=
        List.forall_mem_cons.2 ⟨htoken.names hkind, hahead.params⟩
      split
      · exact .pure ⟨hseen, hparams⟩
      · exact .pure ⟨hseen, hahead.params⟩
    · split <;> exact .pure ⟨hseen, hahead.params⟩
    · exact .pure ⟨hseen, hahead.params⟩
  · obtain ⟨isLambda, ahead⟩ := found
    dsimp only
    split
    · refine builds_take.bind fun _ _ => .pure fun params hparams param hparam => ?_
      obtain rfl := Option.some.inj hparams
      exact hfound.params param (List.mem_reverse.1 hparam)
    · exact (builds_restore hfound.seen).bind fun _ _ => .pure nofun

/-! ## Operands -/

/-- What was read of an object, last entry first: its keys differ, and they are those of its
    entries. -/
structure ReadsObject (read : List Entry × List String) : Prop where
  built : ∀ entry ∈ read.1, Entry.Everywhere .built entry
  keys : read.1.map Entry.key = read.2
  distinct : read.2.Nodup

theorem ReadsObject.cons {read : List Entry × List String} {key : String} {e : Expression}
    (h : ReadsObject read) (hkey : ¬ read.2.contains key = true) (he : e.Everywhere .built) :
    ReadsObject (.mk key e :: read.1, key :: read.2) where
  built := List.forall_mem_cons.2 ⟨he, h.built⟩
  keys := congrArg (key :: ·) h.keys
  distinct := h.distinct.cons fun hmem => hkey (List.contains_iff_mem.2 hmem)

/-- The entries were read in reverse order. -/
theorem ReadsObject.everywhere {read : List Entry × List String} (h : ReadsObject read) :
    (Expression.object read.1.reverse).Everywhere .built := by
  refine ⟨?_, Entry.allEverywhere_iff.2 fun entry hentry =>
    h.built entry (List.mem_reverse.1 hentry)⟩
  show (read.1.reverse.map Entry.key).Nodup
  rw [List.map_reverse, h.keys]
  exact List.nodup_reverse.2 h.distinct

/-- The keys of an object differ, as each is looked for among those before it. -/
theorem Sound.objectRest (h : g.Sound) : Builds g.objectRest (·.Everywhere .built) := by
  refine .iterate (I := ReadsObject) (fun read hread => ?_)
    ⟨fun _ hs => absurd hs List.not_mem_nil, rfl, .nil⟩
  refine (builds_takeIf _).bind fun closed _ => ?_
  split
  · exact .pure hread.everywhere
  · refine builds_take.bind fun token _ => ?_
    split
    case h_3 => exact .fail
    -- a key is a name or a string, and the same follows
    all_goals
      split
      · exact .failBind
      · next hkey =>
        refine (builds_expect _).bind fun _ _ => h.expression.bind fun e he => ?_
        refine (builds_takeIf _).bind fun more _ => ?_
        split
        · exact .pure (hread.cons hkey he)
        · exact (builds_expect _).bind fun _ _ => .pure (hread.cons hkey he).everywhere

/-- Operands: a literal is a token that was read. -/
theorem Sound.primary (h : g.Sound) : Builds g.primary (·.Everywhere .built) := by
  refine builds_take.bind fun token htoken => ?_
  split
  · exact .pure trivial
  · exact .pure trivial
  · exact .pure trivial
  · next value hvalue =>
    exact .pure (nonneg_of_le_maxNumber (htoken.isLegal hvalue nofun))
  · exact .pure trivial
  · next text htext =>
    have hname : IsName text := htoken.isLegal htext nofun
    refine (builds_takeIf _).bind fun arrow _ => ?_
    split
    · refine h.lambda (List.forall_mem_singleton.2 ?_)
      show IsName token.lexeme.contents
      rw [htext]
      exact hname
    · exact .pure hname
  · refine (builds_lambdaHead g).bind fun head hhead => ?_
    split
    · exact h.lambda (hhead _ rfl)
    · exact h.expression.bind fun e he => (builds_expect _).bind fun _ _ => .pure he
  · exact h.functionRest.map fun code hcode => hcode
  · exact h.objectRest
  · exact (h.arguments _).map fun es hes => ⟨trivial, hes⟩
  · exact .fail

theorem Sound.indexOf (h : g.Sound) {target : Expression} (htarget : target.Everywhere .built)
    (opening : Token) : Builds (g.indexOf target opening) (·.Everywhere .built) := by
  unfold Grammar.indexOf
  split
  · exact builds_expectName.bind fun name _ => .pure ⟨trivial, htarget, trivial⟩
  · exact h.expression.bind fun key hkey =>
      (builds_expect _).bind fun _ _ => .pure ⟨trivial, htarget, hkey⟩

/-- Calls, members and indices, any number of them in a row. -/
theorem Sound.construction (h : g.Sound) : Builds g.construction (·.Everywhere .built) := by
  refine h.primary.bind fun first hfirst => ?_
  refine Builds.bind (Q := fun maker => maker.Everywhere .built)
    (.iterate (I := fun maker => maker.Everywhere .built) (fun maker hmaker => ?_) hfirst)
    fun maker hmaker => (builds_takeIf _).bind fun more _ => ?_
  · refine builds_take.bind fun token htoken => ?_
    split
    · exact (h.indexOf hmaker token).bind fun e he => .pure he
    · exact (builds_putBack htoken).bind fun _ _ => .pure hmaker
  · extract_lets rest
    have hrest : ∀ arguments, Expression.AllEverywhere .built arguments →
        Builds (rest arguments) (·.Everywhere .built) := fun arguments harguments =>
      .pure ⟨trivial, hmaker, harguments⟩
    split
    · exact (h.arguments _).bind hrest
    · exact Builds.bind (.pure trivial) hrest

/-- Only prefix operators and steps stand before an operand. -/
theorem Sound.prefixed (h : g.Sound) : Builds g.prefixed (·.Everywhere .built) := by
  refine builds_take.bind fun token htoken => ?_
  split
  case h_8 => exact (builds_putBack htoken).bind fun _ _ => h.primary
  case h_7 => exact h.construction
  all_goals
    next hkind =>
      refine (h.expressionFrom _).bind fun e he => .pure ⟨?_, he⟩
      rw [hkind]
      rfl

/-! ## Operators after an operand -/

theorem Sound.conditionalBranch (h : g.Sound) :
    Builds g.conditionalBranch (·.Everywhere .built) := by
  refine (h.expressionFrom _).bind fun e he => builds_peek.bind fun token _ => ?_
  extract_lets rest
  split
  · exact .failBind
  · exact .pure he

/-- The operator that an assignment abbreviates is a binary one. -/
theorem isBinary_of_assignOperator? {kind operator : Kind}
    (h : kind.assignOperator? = some operator) : operator.isBinary = true := by
  have hall : ∀ kind ∈ Kind.all, ∀ operator ∈ kind.assignOperator?, operator.isBinary = true := by
    decide
  exact hall kind kind.mem_all operator h

/-- What goes on with an operand, and is nothing else, is a binary operator. -/
theorem isBinary_of_afterOperand? {kind : Kind} {tier : Precedence}
    (h : Precedence.afterOperand? kind = some tier) (hassign : kind.assignOperator? = none)
    (hother : kind ∉ [.assign, .question, .increment, .decrement, .leftParen, .leftBracket, .dot]) :
    kind.isBinary = true := by
  have hall : ∀ kind ∈ Kind.all, (Precedence.afterOperand? kind).isSome = true →
      kind.assignOperator? = none →
      kind ∉ [.assign, .question, .increment, .decrement, .leftParen, .leftBracket, .dot] →
      kind.isBinary = true := by
    decide
  exact hall kind kind.mem_all (h ▸ rfl) hassign hother

/-- The operator is one that may stand between operands, as its tier tells. -/
theorem Sound.extend (h : g.Sound) {left : Expression} (hleft : left.Everywhere .built)
    {token : Token} {tier : Precedence} (htier : Precedence.afterOperand? token.kind = some tier) :
    Builds (g.extend left token tier) (·.Everywhere .built) := by
  unfold Grammar.extend
  split
  · next operator hoperator =>
    exact (h.expressionFrom _).bind fun e he =>
      .pure ⟨trivial, hleft, isBinary_of_assignOperator? hoperator, hleft, he⟩
  · next hassign =>
    split
    · exact (h.expressionFrom _).bind fun e he => .pure ⟨trivial, hleft, he⟩
    · refine h.conditionalBranch.bind fun thenValue hthen => (builds_expect _).bind fun _ _ => ?_
      exact h.conditionalBranch.bind fun elseValue helse => .pure ⟨trivial, hleft, hthen, helse⟩
    · next hkind =>
      refine .pure ⟨?_, hleft⟩
      rw [hkind]
      rfl
    · next hkind =>
      refine .pure ⟨?_, hleft⟩
      rw [hkind]
      rfl
    · exact (h.arguments _).bind fun es hes => .pure ⟨trivial, hleft, hes⟩
    · exact h.indexOf hleft token
    · exact h.indexOf hleft token
    · have hbinary : token.kind.isBinary = true :=
        isBinary_of_afterOperand? htier hassign (by simp_all)
      exact (h.expressionFrom _).bind fun e he => .pure ⟨hbinary, hleft, he⟩

theorem Sound.operation (h : g.Sound) (tier : Precedence) :
    Builds (g.operation tier) (·.Everywhere .built) := by
  refine h.prefixed.bind fun first hfirst => ?_
  refine .iterate (I := fun left => left.Everywhere .built) (fun left hleft => ?_) hfirst
  refine builds_peek.bind fun token _ => ?_
  split
  · exact .pure hleft
  · next htier =>
    split
    · exact .pure hleft
    · exact builds_take.bind fun _ _ => (h.extend hleft htier).bind fun e he => .pure he

/-! ## Statements -/

/-- A definition is a `let`, as the clause of a loop has to be. -/
theorem Sound.definition (h : g.Sound) :
    Builds g.definition fun s => s.Everywhere .built ∧ s.IsLet := by
  refine builds_expectName.bind fun name hname => (builds_takeIf _).bind fun more _ => ?_
  extract_lets rest
  have hrest : ∀ initializer, Expression.Everywhere? .built initializer →
      Builds (rest initializer) fun s => s.Everywhere .built ∧ s.IsLet :=
    fun initializer he => (builds_expect _).bind fun _ _ => .pure ⟨⟨hname, he⟩, trivial⟩
  split
  · exact h.someExpression.bind hrest
  · exact Builds.bind (.pure trivial) hrest

theorem Sound.returning (h : g.Sound) : Builds g.returning (·.Everywhere .built) := by
  refine (builds_takeIf _).bind fun empty _ => ?_
  split
  · exact .pure ⟨trivial, trivial⟩
  · exact h.expression.bind fun e he => (builds_expect _).bind fun _ _ => .pure ⟨trivial, he⟩

theorem Sound.bareExpression (h : g.Sound) : Builds g.bareExpression (·.Everywhere .built) :=
  h.expression.bind fun _ he => (builds_expect _).bind fun _ _ => .pure ⟨trivial, he⟩

theorem Sound.loopBody (h : g.Sound) : Builds g.loopBody (Statement.AllEverywhere .built) :=
  (builds_expect _).bind fun _ _ => (Builds.setCount (· + 1)).bind fun _ _ =>
    h.block.afterwards fun _ => rfl

theorem builds_loopParen : Builds loopParen fun _ => True := by
  refine builds_take.bind fun token htoken => ?_
  extract_lets rest
  have hrest : Builds (rest ()) fun _ => True :=
    (builds_putBack htoken).bind fun _ _ => .pure trivial
  split
  · refine builds_peek.bind fun next _ => ?_
    split
    · exact .pure trivial
    · exact hrest
  · exact hrest

/-- An expression that is there unless a token of some kind is next. -/
theorem Sound.clause (h : g.Sound) (closing : Kind) {α : Type} {P : α → Prop}
    {rest : Option Expression → Parse α}
    (hrest : ∀ e, Expression.Everywhere? .built e → Builds (rest e) P) :
    Builds (do
      if ← nextIs closing then
        let e ← pure none
        rest e
      else
        let e ← some <$> g.expression
        rest e) P := by
  refine (builds_nextIs _).bind fun missing _ => ?_
  split
  · exact Builds.bind (.pure trivial) hrest
  · exact h.someExpression.bind hrest

/-- A loop begins with a definition, if with anything. -/
theorem Sound.loop (h : g.Sound) : Builds g.loop (·.Everywhere .built) := by
  refine builds_loopParen.bind fun paren _ => builds_peek.bind fun next _ => ?_
  split
  · refine (builds_takeIf _).bind fun defines _ => ?_
    extract_lets closing rest
    have hrest : ∀ init : Option Statement, (∀ s ∈ init, s.Everywhere .built ∧ s.IsLet) →
        Builds (rest init) (·.Everywhere .built) := fun init hinit => by
      refine h.clause _ fun test htest => (builds_expect _).bind fun _ _ => ?_
      refine h.clause _ fun increment hincrement => ?_
      extract_lets ending
      have hending : Builds (ending ()) (·.Everywhere .built) := by
        refine h.loopBody.bind fun body hbody => .pure ?_
        cases init with
        | none => exact ⟨trivial, trivial, htest, hincrement, hbody⟩
        | some s => exact ⟨(hinit s rfl).2, (hinit s rfl).1, htest, hincrement, hbody⟩
      split
      · exact (builds_expect _).bind fun _ _ => hending
      · exact hending
    split
    · refine Builds.bind (h.definition.map fun s hs t (ht : t ∈ some s) => ?_) hrest
      exact Option.some.inj ht ▸ hs
    · exact (builds_expect _).bind fun _ _ => Builds.bind (.pure nofun) hrest
  · refine h.clause _ fun test htest => ?_
    exact h.loopBody.bind fun body hbody => .pure ⟨trivial, trivial, htest, trivial, hbody⟩

/-! ## Choices -/

theorem Sound.bracedBlock (h : g.Sound) :
    Builds g.bracedBlock (Statement.AllEverywhere .built) :=
  (builds_expect _).bind fun _ _ => h.block

/-- What follows an `else` is a block or another conditional. -/
theorem Sound.branching (h : g.Sound) :
    Builds g.branching fun s => s.Everywhere .built ∧ s.MayFollowElse := by
  refine h.expression.bind fun condition hcondition => h.bracedBlock.bind fun thenBody hthen => ?_
  refine (builds_takeIf _).bind fun more _ => ?_
  split
  · refine (builds_takeIf _).bind fun chained _ => ?_
    split
    · exact h.conditional.bind fun s hs =>
        .pure ⟨⟨hs.2, hcondition, hthen, hs.1⟩, trivial⟩
    · exact h.bracedBlock.bind fun body hbody =>
        .pure ⟨⟨trivial, hcondition, hthen, trivial, hbody⟩, trivial⟩
  · exact .pure ⟨⟨trivial, hcondition, hthen, trivial⟩, trivial⟩

/-- A group ends where the next one begins. -/
theorem Sound.groupBody (h : g.Sound) :
    Builds g.groupBody (Statement.AllEverywhere .built) := by
  refine Builds.imp (Q := fun body => ∀ s ∈ body, Statement.Everywhere .built s) ?_
    fun _ => Statement.allEverywhere_iff.2
  refine .iterate (I := fun read => ∀ s ∈ read, Statement.Everywhere .built s)
    (fun read hread => ?_) fun _ hs => absurd hs List.not_mem_nil
  refine builds_peek.bind fun token _ => ?_
  split
  case h_4 =>
    exact h.statement.bind fun s hs => .pure (List.forall_mem_cons.2 ⟨hs, hread⟩)
  all_goals exact .pure fun s hs => hread s (List.mem_reverse.1 hs)

/-- The labels of a group, of which there is one at least. -/
def AreLabels (labels : List Expression) : Prop :=
  (∀ e ∈ labels, Expression.Everywhere .built e) ∧ labels ≠ []

/-- A case has a label, as the first is read before any comma. -/
theorem Sound.groupLabels (h : g.Sound) : Builds g.groupLabels AreLabels := by
  refine h.expression.bind fun first hfirst => ?_
  refine .iterate (I := AreLabels) (fun read hread => ?_)
    ⟨List.forall_mem_singleton.2 hfirst, List.cons_ne_nil _ _⟩
  refine (builds_takeIf _).bind fun more _ => ?_
  split
  · exact h.expression.bind fun e he =>
      .pure ⟨List.forall_mem_cons.2 ⟨he, hread.1⟩, List.cons_ne_nil _ _⟩
  · exact .pure ⟨fun e he => hread.1 e (List.mem_reverse.1 he),
      fun hnil => hread.2 (List.reverse_eq_nil_iff.1 hnil)⟩

/-- What was read of a choice: groups with labels, last one first, and a default body. -/
structure ReadsChoice (read : List CaseGroup × Option (List Statement)) : Prop where
  groups : ∀ group ∈ read.1, CaseGroup.Everywhere .built group
  labels : ∀ labels body, CaseGroup.mk labels body ∈ read.1 → labels ≠ []
  otherwise : Statement.AllEverywhere? .built read.2

/-- The groups in their order. -/
theorem ReadsChoice.reverse {read : List CaseGroup × Option (List Statement)}
    (h : ReadsChoice read) : ReadsChoice (read.1.reverse, read.2) where
  groups group hgroup := h.groups group (List.mem_reverse.1 hgroup)
  labels labels body hgroup := h.labels labels body (List.mem_reverse.1 hgroup)
  otherwise := h.otherwise

theorem ReadsChoice.cons {read : List CaseGroup × Option (List Statement)} (h : ReadsChoice read)
    {labels : List Expression} {body : List Statement} (hlabels : AreLabels labels)
    (hbody : Statement.AllEverywhere .built body) :
    ReadsChoice (.mk labels body :: read.1, read.2) where
  groups := List.forall_mem_cons.2 ⟨⟨Expression.allEverywhere_iff.2 hlabels.1, hbody⟩, h.groups⟩
  labels labels' body' hgroup := by
    rcases List.mem_cons.1 hgroup with heq | hgroup
    · obtain ⟨rfl, -⟩ := CaseGroup.mk.inj heq
      exact hlabels.2
    · exact h.labels labels' body' hgroup
  otherwise := h.otherwise

theorem Sound.choice (h : g.Sound) : Builds g.choice (·.Everywhere .built) := by
  refine h.expression.bind fun subject hsubject => (builds_expect _).bind fun _ _ => ?_
  refine (Builds.setCount (· + 1)).bind fun _ _ => ?_
  refine Builds.bind (Q := ReadsChoice) (.iterate (I := ReadsChoice) (fun read hread => ?_)
    ⟨fun _ hs => absurd hs List.not_mem_nil, fun _ _ hs => absurd hs List.not_mem_nil, trivial⟩)
    fun read hread => ?_
  · obtain ⟨groups, otherwise⟩ := read
    refine builds_take.bind fun token _ => ?_
    dsimp only
    split
    · exact .pure hread.reverse
    · refine h.groupLabels.bind fun labels hlabels => (builds_expect _).bind fun _ _ => ?_
      exact h.groupBody.bind fun body hbody => .pure (hread.cons hlabels hbody)
    · split
      · exact .failBind
      · exact (builds_expect _).bind fun _ _ => h.groupBody.bind fun body hbody =>
          .pure ⟨hread.groups, hread.labels, hbody⟩
    · exact .fail
  · obtain ⟨groups, otherwise⟩ := read
    refine (Builds.setCount (· - 1)).bind fun _ _ => ?_
    exact .pure
      ⟨hread.labels, hsubject, CaseGroup.allEverywhere_iff.2 hread.groups, hread.otherwise⟩

/-! ## All statements -/

theorem builds_get : Builds (get : Parse Parser) fun _ => True := by
  intro parser a next hclean hresult
  cases hresult
  exact ⟨hclean, trivial⟩

/-- All statements, by the token that they begin with. -/
theorem Sound.anyStatement (h : g.Sound) : Builds g.anyStatement (·.Everywhere .built) := by
  refine builds_take.bind fun token htoken => ?_
  split
  · exact .pure trivial
  · exact h.definition.imp fun s hs => hs.1
  · refine .ifNextIs ?_ ((builds_putBack htoken).bind fun _ _ => h.bareExpression)
    exact h.namedFunction.bind fun code hcode => .pure ⟨hcode.2, hcode.1⟩
  · exact h.returning
  · exact h.block.bind fun body hbody => .pure ⟨trivial, hbody⟩
  · exact h.loop
  · refine builds_get.bind fun parser _ => ?_
    extract_lets rest
    split
    · exact .failBind
    · exact (builds_expect _).bind fun _ _ => .pure trivial
  · exact h.branching.imp fun s hs => hs.1
  · exact h.choice
  · exact (builds_putBack htoken).bind fun _ _ => h.bareExpression

/-! ## Whole scripts -/

/-- Every level of the grammar is sound.  Induction on the levels. -/
theorem sound_ofFuel (n : Nat) : (ofFuel n).Sound := by
  induction n with
  | zero => exact ⟨.outOfFuel, .outOfFuel, fun _ => .outOfFuel⟩
  | succ n ih =>
    refine ⟨?_, ?_, fun tier => ?_⟩
    · exact statement_succ n ▸ ih.anyStatement
    · exact conditional_succ n ▸ ih.branching
    · exact expressionFrom_succ n tier ▸ ih.operation tier

theorem Sound.script (h : g.Sound) : Builds g.script fun program =>
    Statement.AllEverywhere .built program.statements := by
  refine Builds.imp (Q := fun program => ∀ s ∈ program.statements, s.Everywhere .built) ?_
    fun _ => Statement.allEverywhere_iff.2
  refine .iterate (I := fun read => ∀ s ∈ read, Statement.Everywhere .built s)
    (fun read hread => ?_) fun _ hs => absurd hs List.not_mem_nil
  refine builds_peek.bind fun start _ => ?_
  split
  · exact .pure fun s hs => hread s (List.mem_reverse.1 hs)
  · refine h.statement.bind fun s hs => ?_
    split
    case h_4 => exact .fail
    all_goals exact .pure (List.forall_mem_cons.2 ⟨hs, hread⟩)

end Grammar

/-- **Scripts that are parsed are well formed.** -/
theorem Program.wellFormed_of_parse {text : String} {program : Program}
    (h : parse text = .ok program) : program.WellFormed := by
  have htidy := program.isTidy_of_parse h
  refine ⟨?_, htidy.definitions⟩
  unfold parse Parser.script at h
  split at h
  · rename_i found parser hfound
    cases h
    have hclean : (Parser.ofText text).Clean := fun _ ht => absurd ht List.not_mem_nil
    have hbuilt := ((Grammar.sound_ofFuel _).script _ _ _ hclean hfound).2
    exact Statement.allEverywhere_join Shape.joins_built _ hbuilt htidy.tidy
  · cases h

/-- A script is well formed if and only if it is what some text is read as. -/
theorem Program.wellFormed_iff_exists_parse {program : Program} :
    program.WellFormed ↔ ∃ text, parse text = .ok program :=
  ⟨fun h => ⟨program.canonicalText, h.parse_canonical⟩, fun ⟨_, h⟩ => wellFormed_of_parse h⟩

end Tao
