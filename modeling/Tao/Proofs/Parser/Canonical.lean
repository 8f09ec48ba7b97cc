/-
  Canonical texts.

  A script is WELL FORMED if its tree has the shape that parsing gives: names are words that are no
  keywords, operators stand where they may, numbers are not negative, parameters and keys differ,
  every `break` has a loop or a choice of its own function around it, a loop begins with a
  definition if with anything, an `else` leads to a block or to another `if`, a case has labels,
  functions that are statements have names, and outside of functions there are only definitions.

  The CANONICAL TEXT of a script writes its tree in the one way that needs no short form, with a
  blank before every lexeme.
-/
import Tao.Proofs.Parser.Spelled
import Tao.Proofs.Parser.Understands.Script

namespace Tao

/-! ## Well-formed trees -/

/-- The names of a function are names, its parameters differ, and it does not break. -/
structure FunctionCode.IsLegal (code : FunctionCode) : Prop where
  name : ∀ x ∈ code.name, IsName x
  params : ∀ x ∈ code.params, IsName x
  distinct : code.params.Nodup
  noBreak : ¬ Statement.AnyBreaks code.body

/-- What may follow an `else`. -/
def Statement.MayFollowElse : Statement → Prop
  | .block _ | .branch .. => True
  | _ => False

/-- Is this a definition after `let`? -/
def Statement.IsLet : Statement → Prop
  | .define .. => True
  | _ => False

/-- The conditions on the nodes of a tree under which it can be written. -/
def Shape.legal : Shape where
  statement
    | .define x _ => IsName x
    | .function code => code.name.isSome = true
    | .loop (some init) _ _ _ => init.IsLet
    | .branch _ _ (some other) => other.MayFollowElse
    | .choose _ groups _ => ∀ labels body, CaseGroup.mk labels body ∈ groups → labels ≠ []
    | _ => True
  expression
    | .literal (.number n) => 0 ≤ n
    | .name x => IsName x
    | .unary operator _ => operator.isPrefix = true
    | .step operator _ _ => operator.isStep = true
    | .binary operator _ _ => operator.isBinary = true
    | .function code => code.IsLegal
    | .object entries => (entries.map Entry.key).Nodup
    | _ => True

/-- A script that can be written. -/
structure Program.WellFormed (program : Program) : Prop where
  legal : Statement.AllEverywhere .legal program.statements
  definitions : ∀ s ∈ program.statements, s.IsDefinition

/-! ## Canonical lexemes -/

/-- The lexeme of a constant. -/
def Literal.lexeme : Literal → Lexeme
  | .nil => .mark .kwNil
  | .boolean true => .mark .kwTrue
  | .boolean false => .mark .kwFalse
  | .number value => .number value.toNatClampNeg
  | .string value => .string value

/-- Parameters up to and including the closing parenthesis, followed by `rest`. -/
def paramLexemes (rest : List Lexeme) : List String → List Lexeme
  | [] => .mark .rightParen :: rest
  | [x] => .name x :: .mark .rightParen :: rest
  | x :: names => .name x :: .mark .comma :: paramLexemes rest names

mutual

/-- An expression in parentheses, followed by `rest`. -/
def Expression.lexemes (rest : List Lexeme) : Expression → List Lexeme
  | .literal value => .mark .leftParen :: value.lexeme :: .mark .rightParen :: rest
  | .name x => .mark .leftParen :: .name x :: .mark .rightParen :: rest
  | .unary operator e =>
    .mark .leftParen :: .mark operator :: e.lexemes (.mark .rightParen :: rest)
  | .step operator true e =>
    .mark .leftParen :: .mark operator :: e.lexemes (.mark .rightParen :: rest)
  | .step operator false e =>
    .mark .leftParen :: e.lexemes (.mark operator :: .mark .rightParen :: rest)
  | .binary operator left right =>
    .mark .leftParen :: left.lexemes (.mark operator :: right.lexemes (.mark .rightParen :: rest))
  | .conditional e left right =>
    .mark .leftParen :: e.lexemes (.mark .question ::
      left.lexemes (.mark .colon :: right.lexemes (.mark .rightParen :: rest)))
  | .construct maker arguments =>
    .mark .leftParen :: .mark .kwNew :: maker.lexemes (.mark .leftParen ::
      Expression.allLexemes (.mark .rightParen :: rest) .rightParen arguments)
  | .assign target value =>
    .mark .leftParen :: target.lexemes (.mark .assign :: value.lexemes (.mark .rightParen :: rest))
  | .function code =>
    .mark .leftParen :: .mark .kwFunction :: code.lexemes (.mark .rightParen :: rest)
  | .index target key =>
    .mark .leftParen :: target.lexemes (.mark .leftBracket ::
      key.lexemes (.mark .rightBracket :: .mark .rightParen :: rest))
  | .call callee arguments =>
    .mark .leftParen :: callee.lexemes (.mark .leftParen ::
      Expression.allLexemes (.mark .rightParen :: rest) .rightParen arguments)
  | .object entries =>
    .mark .leftParen :: .mark .leftBrace :: Entry.allLexemes (.mark .rightParen :: rest) entries
  | .array elements =>
    .mark .leftParen :: .mark .leftBracket ::
      Expression.allLexemes (.mark .rightParen :: rest) .rightBracket elements

/-- Expressions separated by commas up to and including a closing mark. -/
def Expression.allLexemes (rest : List Lexeme) (closing : Kind) : List Expression → List Lexeme
  | [] => .mark closing :: rest
  | e :: es =>
    e.lexemes (if es.isEmpty then .mark closing :: rest
      else .mark .comma :: Expression.allLexemes rest closing es)

/-- Entries separated by commas up to and including the closing brace. -/
def Entry.allLexemes (rest : List Lexeme) : List Entry → List Lexeme
  | [] => .mark .rightBrace :: rest
  | .mk key value :: entries =>
    .string key :: .mark .colon :: value.lexemes (if entries.isEmpty then .mark .rightBrace :: rest
      else .mark .comma :: Entry.allLexemes rest entries)

/-- A function after its keyword. -/
def FunctionCode.lexemes (rest : List Lexeme) : FunctionCode → List Lexeme
  | .mk name params body =>
    name.toList.map .name ++ .mark .leftParen :: paramLexemes (.mark .leftBrace ::
      Statement.allLexemes (.mark .rightBrace :: rest) body) params

/-- A statement. -/
def Statement.lexemes (rest : List Lexeme) : Statement → List Lexeme
  | .empty => .mark .semicolon :: rest
  | .define x none => .mark .kwLet :: .name x :: .mark .semicolon :: rest
  | .define x (some e) =>
    .mark .kwLet :: .name x :: .mark .assign :: e.lexemes (.mark .semicolon :: rest)
  | .function code => .mark .kwFunction :: code.lexemes rest
  | .giveBack none => .mark .kwReturn :: .mark .semicolon :: rest
  | .giveBack (some e) => .mark .kwReturn :: e.lexemes (.mark .semicolon :: rest)
  | .block body =>
    .mark .leftBrace :: Statement.allLexemes (.mark .rightBrace :: rest) body
  | .expression e => e.lexemes (.mark .semicolon :: rest)
  | .loop init test increment body =>
    .mark .kwFor :: .mark .leftParen :: Statement.initLexemes (Expression.clauseLexemes
      (.mark .semicolon :: Expression.clauseLexemes (.mark .rightParen :: .mark .leftBrace ::
        Statement.allLexemes (.mark .rightBrace :: rest) body) increment) test) init
  | .leave => .mark .kwBreak :: .mark .semicolon :: rest
  | .branch e thenBody otherwise =>
    .mark .kwIf :: e.lexemes (.mark .leftBrace ::
      Statement.allLexemes (.mark .rightBrace :: Statement.elseLexemes rest otherwise) thenBody)
  | .choose e groups otherwise =>
    .mark .kwSwitch :: e.lexemes (.mark .leftBrace ::
      CaseGroup.allLexemes (Statement.defaultLexemes (.mark .rightBrace :: rest) otherwise) groups)

/-- Statements one after another. -/
def Statement.allLexemes (rest : List Lexeme) : List Statement → List Lexeme
  | [] => rest
  | s :: body => s.lexemes (Statement.allLexemes rest body)

/-- The first clause of a loop with its semicolon. -/
def Statement.initLexemes (rest : List Lexeme) : Option Statement → List Lexeme
  | none => .mark .semicolon :: rest
  | some s => s.lexemes rest

/-- Another clause of a loop. -/
def Expression.clauseLexemes (rest : List Lexeme) : Option Expression → List Lexeme
  | none => rest
  | some e => e.lexemes rest

/-- What follows the block of a conditional. -/
def Statement.elseLexemes (rest : List Lexeme) : Option Statement → List Lexeme
  | none => rest
  | some s => .mark .kwElse :: s.lexemes rest

/-- The groups of a choice. -/
def CaseGroup.allLexemes (rest : List Lexeme) : List CaseGroup → List Lexeme
  | [] => rest
  | .mk labels body :: groups =>
    .mark .kwCase :: Expression.allLexemes (Statement.allLexemes
      (CaseGroup.allLexemes rest groups) body) .colon labels

/-- The last group of a choice, if it has no labels. -/
def Statement.defaultLexemes (rest : List Lexeme) : Option (List Statement) → List Lexeme
  | none => rest
  | some body => .mark .kwDefault :: .mark .colon :: Statement.allLexemes rest body

end

/-- The lexemes of a script, written in the one way that needs no short form. -/
def Program.lexemes (program : Program) : List Lexeme :=
  Statement.allLexemes [.mark .eof] program.statements

/-- The text of a script, written that way. -/
def Program.canonicalText (program : Program) : String := String.ofList (withBlanks program.lexemes)

/-! ## Canonical lexemes are a way to write -/

/-- May this follow a statement?  Not so an `else`, which would belong to the statement. -/
def MayFollow (rest : List Lexeme) : Prop := ∃ l o, rest = l :: o ∧ l.kind ≠ .kwElse

/-- In a canonical text every expression stands in parentheses. -/
theorem Expression.exists_lexemes (e : Expression) (rest : List Lexeme) :
    ∃ o, e.lexemes rest = .mark .leftParen :: o := by
  cases e with
  | step operator before e => cases before <;> exact ⟨_, rfl⟩
  | _ => exact ⟨_, rfl⟩

/-- No statement begins with an `else`. -/
theorem Statement.mayFollow_lexemes (s : Statement) (rest : List Lexeme) :
    MayFollow (s.lexemes rest) := by
  cases s with
  | define x e => cases e <;> exact ⟨_, _, rfl, nofun⟩
  | giveBack e => cases e <;> exact ⟨_, _, rfl, nofun⟩
  | expression e =>
    obtain ⟨o, ho⟩ := e.exists_lexemes (.mark .semicolon :: rest)
    exact ⟨_, o, ho, nofun⟩
  | _ => exact ⟨_, _, rfl, nofun⟩

/-- No statement is mistaken for the rest of an `if` before it. -/
theorem Statement.mayFollow_allLexemes {body : List Statement} {rest : List Lexeme}
    (h : MayFollow rest) : MayFollow (Statement.allLexemes rest body) := by
  cases body with
  | nil => exact h
  | cons s body => exact s.mayFollow_lexemes _

/-- Parameters are written with commas between them.  Induction on the names. -/
theorem written_params {names : List String} (h : ∀ x ∈ names, IsName x) (rest : List Lexeme) :
    Written (.params names) (paramLexemes rest names) rest := by
  induction names with
  | nil => exact .noParams
  | cons x names ih =>
    have hx := h x List.mem_cons_self
    cases names with
    | nil => exact .lastParam hx
    | cons y names => exact .param hx (ih fun z hz => h z (List.mem_cons_of_mem _ hz))

/-- Statements up to a closing brace, from how each of them is written. -/
theorem written_block {body : List Statement} {inside : Bool} {rest : List Lexeme}
    (h : ∀ s ∈ body, ∀ rest, MayFollow rest → Written (.statement inside s) (s.lexemes rest) rest) :
    Written (.block inside body) (Statement.allLexemes (.mark .rightBrace :: rest) body) rest := by
  induction body with
  | nil => exact .blockEnd
  | cons s body ih =>
    have hfollow : MayFollow (Statement.allLexemes (.mark .rightBrace :: rest) body) :=
      Statement.mayFollow_allLexemes ⟨_, _, rfl, nofun⟩
    exact .blockStatement (h s List.mem_cons_self _ hfollow)
      (ih fun t ht => h t (List.mem_cons_of_mem _ ht))

/-- Does a group of a choice end here? -/
def EndsGroup (rest : List Lexeme) : Prop := ∃ l o, rest = l :: o ∧ l.kind.endsGroup = true

/-- What ends a group is no `else`, either. -/
theorem EndsGroup.mayFollow {rest : List Lexeme} (h : EndsGroup rest) : MayFollow rest := by
  obtain ⟨l, o, rfl, hl⟩ := h
  refine ⟨l, o, rfl, fun hkind => ?_⟩
  rw [hkind] at hl
  cases hl

/-- The next group ends the one before. -/
theorem CaseGroup.endsGroup_allLexemes {groups : List CaseGroup} {rest : List Lexeme}
    (h : EndsGroup rest) : EndsGroup (CaseGroup.allLexemes rest groups) := by
  cases groups with
  | nil => exact h
  | cons group groups =>
    cases group
    exact ⟨_, _, rfl, rfl⟩

/-- The statements of a group, from how each of them is written. -/
theorem written_groupBody {body : List Statement} {rest : List Lexeme} (hends : EndsGroup rest)
    (h : ∀ s ∈ body, ∀ rest, MayFollow rest → Written (.statement true s) (s.lexemes rest) rest) :
    Written (.groupBody body) (Statement.allLexemes rest body) rest := by
  induction body with
  | nil =>
    obtain ⟨l, o, rfl, hl⟩ := hends
    exact .groupEnd hl
  | cons s body ih =>
    exact .groupStatement
      (h s List.mem_cons_self _ (Statement.mayFollow_allLexemes hends.mayFollow))
      (ih fun t ht => h t (List.mem_cons_of_mem _ ht))

mutual

/-- **Expressions.** Mutual recursion on the tree, from here to `CaseGroup.allWritten`: each part is
    written in the one form that its canonical lexemes follow. -/
theorem Expression.written : ∀ (e : Expression), e.Everywhere .legal → ∀ rest,
    Written (.enclosed e) (e.lexemes rest) rest
  | .literal .nil, _, _ => .enclosed .nil
  | .literal (.boolean true), _, _ => .enclosed .isTrue
  | .literal (.boolean false), _, _ => .enclosed .isFalse
  | .literal (.number n), h, _ => .enclosed (.number n h)
  | .literal (.string _), _, _ => .enclosed .string
  | .name _, h, _ => .enclosed (.name h)
  | .unary _ e, h, _ => .enclosed (.unary h.1 (e.written h.2 _))
  | .step _ true e, h, _ => .enclosed (.stepBefore h.1 (e.written h.2 _))
  | .step _ false e, h, _ => .enclosed (.stepAfter h.1 (e.written h.2 _))
  | .binary _ left right, h, _ =>
    .enclosed (.binary h.1 (left.written h.2.1 _) (right.written h.2.2 _))
  | .conditional e left right, h, _ => .enclosed (.conditional (e.written h.2.1 _)
      (left.written h.2.2.1 _) (right.written h.2.2.2 _))
  | .construct maker arguments, h, _ => .enclosed (.construct (maker.written h.2.1 _)
      (Expression.argumentsWritten arguments h.2.2 _ _))
  | .assign target value, h, _ =>
    .enclosed (.assign (target.written h.2.1 _) (value.written h.2.2 _))
  | .function code, h, _ => .enclosed (.function (code.written h _))
  | .index target key, h, _ => .enclosed (.index (target.written h.2.1 _) (key.written h.2.2 _))
  | .call callee arguments, h, _ => .enclosed (.call (callee.written h.2.1 _)
      (Expression.argumentsWritten arguments h.2.2 _ _))
  | .object entries, h, _ => .enclosed (.object h.1 (Entry.allWritten entries h.2 _))
  | .array elements, h, _ => .enclosed (.array (Expression.argumentsWritten elements h.2 _ _))

theorem Expression.argumentsWritten : ∀ (es : List Expression), Expression.AllEverywhere .legal es →
    ∀ closing rest, Written (.arguments closing es) (Expression.allLexemes rest closing es) rest
  | [], _, _, _ => .noArguments
  | [e], h, _, _ => .lastArgument (e.written h.1 _)
  | e :: e' :: es, h, _, _ =>
    .argument (e.written h.1 _) (Expression.argumentsWritten (e' :: es) h.2 _ _)

theorem Entry.allWritten : ∀ (entries : List Entry), Entry.AllEverywhere .legal entries →
    ∀ rest, Written (.entries entries) (Entry.allLexemes rest entries) rest
  | [], _, _ => .noEntries
  | [.mk _ e], h, _ => .lastEntry .quoted (e.written h.1 _)
  | .mk _ e :: entry :: entries, h, _ =>
    .entry .quoted (e.written h.1 _) (Entry.allWritten (entry :: entries) h.2 _)

theorem Expression.labelsWritten : ∀ (es : List Expression), Expression.AllEverywhere .legal es →
    es ≠ [] → ∀ rest, Written (.labels es) (Expression.allLexemes rest .colon es) rest
  | [], _, hne, _ => absurd rfl hne
  | [e], h, _, _ => .lastLabel (e.written h.1 _)
  | e :: e' :: es, h, _, _ =>
    .label (e.written h.1 _) (Expression.labelsWritten (e' :: es) h.2 (List.cons_ne_nil _ _) _)

theorem Expression.clauseWritten : ∀ (e : Option Expression), Expression.Everywhere? .legal e →
    ∀ rest, Written (.clause e) (Expression.clauseLexemes rest e) rest
  | none, _, _ => .noClause
  | some e, h, _ => .someClause (e.written h _)

/-- A function begins anew with what may break. -/
theorem FunctionCode.written : ∀ (code : FunctionCode), code.Everywhere .legal → ∀ rest,
    Written (.code code) (code.lexemes rest) rest
  | .mk none _ body, h, _ => .anonymous h.1.distinct (written_params h.1.params _)
      (written_block (Statement.eachWritten body h.2 false fun hbreaks =>
        absurd hbreaks h.1.noBreak))
  | .mk (some x) _ body, h, _ => .named (h.1.name x rfl) h.1.distinct
      (written_params h.1.params _) (written_block (Statement.eachWritten body h.2 false
        fun hbreaks => absurd hbreaks h.1.noBreak))

/-- Each statement of a body, whatever comes after it. -/
theorem Statement.eachWritten : ∀ (body : List Statement), Statement.AllEverywhere .legal body →
    ∀ inside, (Statement.AnyBreaks body → inside = true) → ∀ s ∈ body, ∀ rest, MayFollow rest →
    Written (.statement inside s) (s.lexemes rest) rest
  | [], _, _, _ => fun _ hs => absurd hs List.not_mem_nil
  | s :: body, h, inside, hinside => fun t ht rest hrest => by
    rcases List.mem_cons.1 ht with hfirst | ht
    · rw [hfirst]
      exact s.written h.1 inside (fun hbreaks => hinside (.inl hbreaks)) rest hrest
    · exact Statement.eachWritten body h.2 inside (fun hbreaks => hinside (.inr hbreaks)) t ht rest
        hrest

/-- The first clause of a loop is a definition. -/
theorem Statement.initWritten : ∀ (init : Option Statement), Statement.Everywhere? .legal init →
    (∀ s ∈ init, s.IsLet) → ∀ rest, Written (.init init) (Statement.initLexemes rest init) rest
  | none, _, _, _ => .noInit
  | some (.define _ none), h, _, _ => .someInit (.undefined h.1)
  | some (.define _ (some e)), h, _, _ => .someInit (.defined h.1 (e.written h.2 _))
  | some .empty, _, hlet, _ | some (.function _), _, hlet, _ | some (.giveBack _), _, hlet, _
  | some (.block _), _, hlet, _ | some (.expression _), _, hlet, _
  | some (.loop ..), _, hlet, _ | some .leave, _, hlet, _ | some (.branch ..), _, hlet, _
  | some (.choose ..), _, hlet, _ => (hlet _ rfl).elim

/-- **Statements.** A `break` is written only inside of something that it may leave. -/
theorem Statement.written : ∀ (s : Statement), s.Everywhere .legal → ∀ inside,
    (s.Breaks → inside = true) → ∀ rest, MayFollow rest →
    Written (.statement inside s) (s.lexemes rest) rest
  | .empty, _, _, _, _, _ => .empty
  | .define _ none, h, _, _, _, _ => .define (.undefined h.1)
  | .define _ (some e), h, _, _, _, _ => .define (.defined h.1 (e.written h.2 _))
  | .function (.mk (some _) _ _), h, _, _, _, _ => .functionStatement (FunctionCode.written _ h.2 _)
  | .giveBack none, _, _, _, _, _ => .giveNothing
  | .giveBack (some e), h, _, _, _, _ => .giveBack (e.written h.2 _)
  | .block body, h, inside, hinside, _, _ =>
    .block (written_block (Statement.eachWritten body h.2 inside hinside))
  | .expression e, h, _, _, _, _ => .expression (e.written h.2 _)
  | .loop init test increment body, h, _, _, _, _ => by
    have hlet : ∀ s ∈ init, s.IsLet := by
      rintro s ⟨⟩
      exact h.1
    exact .loop (.header (Statement.initWritten init h.2.1 hlet _)
      (Expression.clauseWritten test h.2.2.1 _) (Expression.clauseWritten increment h.2.2.2.1 _))
      (written_block (Statement.eachWritten body h.2.2.2.2 true fun _ => rfl))
  | .leave, _, inside, hinside, _, _ => by
    obtain rfl := hinside trivial
    exact .leave
  | .branch e thenBody otherwise, h, inside, hinside, rest, hrest => by
    have hcondition := e.written h.2.1 (.mark .leftBrace ::
      Statement.allLexemes (.mark .rightBrace :: Statement.elseLexemes rest otherwise) thenBody)
    have hthen : Written (.block inside thenBody) (Statement.allLexemes
        (.mark .rightBrace :: Statement.elseLexemes rest otherwise) thenBody)
        (Statement.elseLexemes rest otherwise) :=
      written_block (Statement.eachWritten thenBody h.2.2.1 inside fun hbreaks =>
        hinside (.inl hbreaks))
    refine .branch ?_
    cases otherwise with
    | none =>
      obtain ⟨l, o, rfl, hl⟩ := hrest
      exact .noElse hcondition hthen hl
    | some other =>
      have hother := other.written h.2.2.2 inside (fun hbreaks => hinside (.inr hbreaks)) rest hrest
      cases other with
      | block body =>
        cases hother with
        | block hbody => exact .elseBlock hcondition hthen hbody
      | branch e' thenBody' otherwise' =>
        cases hother with
        | branch hbranch => exact .elseIf hcondition hthen hbranch
      | _ => exact h.1.elim
  | .choose e groups otherwise, h, _, _, rest, _ =>
    .choose (e.written h.2.1 _) (CaseGroup.allWritten groups h.2.2.1 h.1 otherwise rest
      (Statement.defaultWritten otherwise h.2.2.2 rest))

/-- The default is written after all other groups. -/
theorem Statement.defaultWritten : ∀ (otherwise : Option (List Statement)),
    Statement.AllEverywhere? .legal otherwise → ∀ rest, Written (.groups [] otherwise)
      (Statement.defaultLexemes (.mark .rightBrace :: rest) otherwise) rest
  | none, _, _ => .groupsEnd
  | some body, h, _ => .default (written_groupBody ⟨_, _, rfl, rfl⟩
      (Statement.eachWritten body h true fun _ => rfl)) .groupsEnd

/-- The groups are written in turn. -/
theorem CaseGroup.allWritten : ∀ (groups : List CaseGroup), CaseGroup.AllEverywhere .legal groups →
    (∀ labels body, CaseGroup.mk labels body ∈ groups → labels ≠ []) →
    ∀ otherwise rest, Written (.groups [] otherwise)
      (Statement.defaultLexemes (.mark .rightBrace :: rest) otherwise) rest →
    Written (.groups groups otherwise) (CaseGroup.allLexemes
      (Statement.defaultLexemes (.mark .rightBrace :: rest) otherwise) groups) rest
  | [], _, _, _, _, hlast => hlast
  | .mk labels body :: groups, h, hlabels, otherwise, rest, hlast => by
    have hends : EndsGroup (Statement.defaultLexemes (.mark .rightBrace :: rest) otherwise) := by
      cases otherwise <;> exact ⟨_, _, rfl, rfl⟩
    exact .group (Expression.labelsWritten labels h.1.1 (hlabels labels body List.mem_cons_self) _)
      (written_groupBody (CaseGroup.endsGroup_allLexemes hends)
        (Statement.eachWritten body h.1.2 true fun _ => rfl))
      (CaseGroup.allWritten groups h.2 (fun labels body hmem =>
        hlabels labels body (List.mem_cons_of_mem _ hmem)) otherwise rest hlast)

end

/-! ## Reading what was written -/

/-- A script is written definition by definition. -/
theorem written_script {body : List Statement}
    (hdefinitions : ∀ s ∈ body, s.IsDefinition)
    (h : ∀ s ∈ body, ∀ rest, MayFollow rest → Written (.statement false s) (s.lexemes rest) rest) :
    Written (.script body) (Statement.allLexemes [.mark .eof] body) [] := by
  induction body with
  | nil => exact .scriptEnd
  | cons s body ih =>
    have hfollow : MayFollow (Statement.allLexemes [.mark .eof] body) :=
      Statement.mayFollow_allLexemes ⟨_, _, rfl, nofun⟩
    exact .scriptStatement (hdefinitions s List.mem_cons_self) (h s List.mem_cons_self _ hfollow)
      (ih (fun t ht => hdefinitions t (List.mem_cons_of_mem _ ht))
        fun t ht => h t (List.mem_cons_of_mem _ ht))

/-- The canonical lexemes of a script are a way to write it. -/
theorem Program.WellFormed.written {program : Program} (h : program.WellFormed) :
    Written (.script program.statements) program.lexemes [] := by
  refine written_script h.definitions (Statement.eachWritten _ h.legal false fun hbreaks => ?_)
  obtain ⟨s, hs, hbreaks⟩ := Statement.anyBreaks_iff.1 hbreaks
  exact absurd hbreaks (Statement.not_breaks_of_isDefinition (h.definitions s hs))

/-- A text that spells a script in any way to write it is read as that script. -/
theorem parse_of_written {text : String} {program : Program} {ls : List Lexeme}
    (hw : Written (.script program.statements) ls []) (hs : Spelled ls text.toList) :
    parse text = .ok program := by
  have hlength := hs.length_le
  have hfuel : (Parser.ofText text).fuel = fullStacks (4 * (0 + text.toList.length) + 8) := rfl
  have hlevels : ls.length + 1 + 4 ≤ (Parser.ofText text).fuel := by
    rw [hfuel]
    exact Nat.le_trans (by omega) (le_fullStacks _)
  have hreads := (Grammar.understands_ofFuel (ls.length + 1) _ hlevels).script hw
    (Nat.lt_succ_self _)
  obtain ⟨read, next, hresult, -, -, rfl⟩ := hreads (.ofText text) rfl (hs.offers .start)
  unfold parse Parser.script
  rw [hresult]

/-- Canonical lexemes with blanks between them spell the canonical text. -/
theorem Program.WellFormed.spelled_canonical {program : Program} (h : program.WellFormed) :
    Spelled program.lexemes program.canonicalText.toList := by
  rw [Program.canonicalText, String.toList_ofList]
  exact (h.written.writable rfl).spelled

/-- The canonical text of a script is read as that script. -/
theorem Program.WellFormed.parse_canonical {program : Program} (h : program.WellFormed) :
    parse program.canonicalText = .ok program :=
  parse_of_written h.written h.spelled_canonical

/-- **Parsing undoes writing.**  The canonical text of a well-formed script is read as that script,
    and so is every text that spells the script with short forms at any of its nodes, whatever
    blanks and comments it has between lexemes; the canonical text is one of these. -/
theorem Program.parse_undoes_writing {program : Program} (h : program.WellFormed) :
    parse program.canonicalText = .ok program ∧
      (Written (.script program.statements) program.lexemes [] ∧
        Spelled program.lexemes program.canonicalText.toList) ∧
      ∀ ls text, Written (.script program.statements) ls [] → Spelled ls text.toList →
        parse text = .ok program :=
  ⟨h.parse_canonical, ⟨h.written, h.spelled_canonical⟩, fun _ _ hw hs => parse_of_written hw hs⟩

/-- `function main() { for (; (true);) { break; } return ((1) + (1)); }` -/
def Program.leavingLoop : Program :=
  ⟨[.function (.mk (some "main") [] [
    .loop none (some (.literal (.boolean true))) none [.leave],
    .giveBack (some (.binary .plus (.literal (.number 1)) (.literal (.number 1))))])]⟩

/-- Its `break` stands in a loop, and its names are no keywords. -/
theorem Program.wellFormed_leavingLoop : leavingLoop.WellFormed := by
  have hname : IsName "main" := by decide
  have hcode : FunctionCode.IsLegal (.mk (some "main") [] [
      .loop none (some (.literal (.boolean true))) none [.leave],
      .giveBack (some (.binary .plus (.literal (.number 1)) (.literal (.number 1))))]) := by
    refine ⟨?_, nofun, .nil, ?_⟩
    · rintro x ⟨⟩
      exact hname
    · rintro (h | h | h) <;> exact h
  have hone : (0 : Int64) ≤ 1 := by decide
  have hloop : Statement.Everywhere .legal
      (.loop none (some (.literal (.boolean true))) none [.leave]) :=
    ⟨trivial, trivial, trivial, trivial, trivial, trivial⟩
  refine ⟨⟨⟨rfl, hcode, hloop, ⟨trivial, rfl, hone, hone⟩, trivial⟩, trivial⟩, ?_⟩
  exact List.forall_mem_singleton.2 trivial

/-- It is read, and so is a text with a short form of its loop. -/
theorem Program.parse_undoes_writing_leavingLoop :
    parse leavingLoop.canonicalText = .ok leavingLoop ∧
      parse (" function main ( ) \x7b for ( true ) \x7b break ; \x7d " ++
        "return ( ( 1 ) + ( 1 ) ) ; \x7d ") = .ok leavingLoop := by
  have hread := parse_undoes_writing wellFormed_leavingLoop
  have hname : IsName "main" := by decide
  have hone : ∀ {o}, Written (.enclosed (.literal (.number 1)))
      (.mark .leftParen :: .number 1 :: .mark .rightParen :: o) o :=
    .enclosed (.number 1 (by decide))
  have hwritten : Written (.script leavingLoop.statements)
      [.mark .kwFunction, .name "main", .mark .leftParen, .mark .rightParen, .mark .leftBrace,
        .mark .kwFor, .mark .leftParen, .mark .kwTrue, .mark .rightParen, .mark .leftBrace,
        .mark .kwBreak, .mark .semicolon, .mark .rightBrace,
        .mark .kwReturn, .mark .leftParen, .mark .leftParen, .number 1, .mark .rightParen,
        .mark .plus, .mark .leftParen, .number 1, .mark .rightParen, .mark .rightParen,
        .mark .semicolon, .mark .rightBrace, .mark .eof] [] := by
    refine .scriptStatement trivial (.functionStatement (.named hname .nil .noParams
      (.blockStatement (.loop (.testOnly (.enclosed .isTrue)) (.blockStatement .leave .blockEnd))
        (.blockStatement (.giveBack (.enclosed (.binary rfl hone hone))) .blockEnd)))) .scriptEnd
  refine ⟨hread.1, hread.2.2 _ _ hwritten ?_⟩
  exact (hwritten.writable rfl).spelled

end Tao
