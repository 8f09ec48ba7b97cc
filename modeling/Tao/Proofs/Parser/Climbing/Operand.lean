/-
  Operands, and how they are read.

  An OPERAND is an atom with any number of operators before it and any number of parts after it: a
  step, a member, an index or a call.  What stands in brackets there may be any expression at all,
  that is, any lexemes that the parser reads up to the closing mark (`IsRead`).

  After an operand the parser goes on with a loop over operators, in which a part is a turn like any
  other.  So an operand is never read by itself: what is shown is that an operation that begins with
  it comes to what that loop comes to from there (`Onward`).
-/
import Tao.Proofs.Parser.Climbing.Settles
import Tao.Proofs.Parser.Understands.Expression

namespace Tao.Parser

open Tao.Grammar

variable {n : Nat} {i j o out : List Lexeme} {l : Lexeme} {e left : Expression}
  {es : List Expression} {tier found : Precedence} {P : Expression → Prop} {kind closing : Kind}

/-! ## The loop over operators -/

/-- With `left` read, the loop over operators comes to something that satisfies `P`, however many
    turns are spent. -/
def Onward (n : Nat) (tier : Precedence) (input output : List Lexeme) (P : Expression → Prop)
    (left : Expression) : Prop :=
  ∀ spent, Settles n
    (fun fuel => iterate (fuel - spent) ((ofFuel fuel).operatorTurn tier) left) input output P

/-- A turn of the loop may be spent on what extends the operand. -/
theorem Onward.again
    (hturn : Settles n (fun fuel => (ofFuel fuel).operatorTurn tier left) i j (· = .again e))
    (h : Onward n tier j o P e) : Onward n tier i o P left :=
  fun spent => hturn.iterateAgain (h (spent + 1))

/-- The loop stops at a token that stops it, which is put back. -/
theorem Onward.stop (hstops : tier.stopsAt l.kind = true) :
    Onward n tier (l :: o) (l :: o) (· = e) e := by
  refine fun spent => .iterateDone (a := e) (fun parser hn hoffers => ?_) rfl
  obtain ⟨token, tokens, hnext, rfl, hrest⟩ := hoffers
  exact ⟨_, _, 0, fun fuel _ => operatorTurn_stop (ofFuel fuel) hnext hstops, hn,
    hrest.putBack token, rfl⟩

/-- A turn at an operator that binds tightly enough. -/
theorem settles_operatorTurn (hfound : Precedence.afterOperand? l.kind = some found)
    (htier : tier.rank ≤ found.rank)
    (hextend : ∀ token : Token, token.kind = l.kind →
      Settles n (fun fuel => (ofFuel fuel).extend left token found) j o (· = e)) :
    Settles n (fun fuel => (ofFuel fuel).operatorTurn tier left) (l :: j) o (· = .again e) := by
  refine reads_peekKind.settles.bind fun token hkind => ?_
  rw [hkind, hfound]
  simp only [if_neg (Nat.not_lt.2 htier)]
  exact reads_take.settles.bind fun _ _ => (hextend token hkind).bindEq (.pure rfl)

/-- An operand without an operator before it. -/
theorem settles_prefixed (hfirst : isBefore l.kind = false)
    (h : Settles n (fun fuel => (ofFuel fuel).primary) (l :: i) o P) :
    Settles n (fun fuel => (ofFuel fuel).prefixed) (l :: i) o P := by
  intro parser hn hoffers
  obtain ⟨token, tokens, hnext, rfl, hrest⟩ := hoffers
  obtain ⟨a, next, least, hresult, hall⟩ :=
    h { parser with tokens := tokens.putBack token } hn (hrest.putBack token)
  refine ⟨a, next, least, fun fuel hfuel => ?_, hall⟩
  exact (prefixed_apply (ofFuel fuel) hnext hfirst).trans (hresult fuel hfuel)

/-- An operation is an operand and the loop from there. -/
theorem settles_operation
    (hfirst : Settles n (fun fuel => (ofFuel fuel).prefixed) i j (· = e))
    (h : Onward n tier j o P e) : Settles n (fun fuel => (ofFuel fuel).operation tier) i o P :=
  hfirst.bindEq (h 0)

/-- An expression is an operation, one level further up. -/
theorem settles_expressionFrom
    (h : Settles n (fun fuel => (ofFuel fuel).operation tier) i o P) :
    Settles n (fun fuel => (ofFuel fuel).expressionFrom tier) i o P := by
  refine .above ?_
  simp only [expressionFrom_succ]
  exact h

/-! ## Expressions up to a closing mark -/

/-- The parser reads just this expression where a closing mark follows. -/
def IsRead (closing : Kind) (i : List Lexeme) (e : Expression) : Prop :=
  ∀ n o, Reads n n Parser.expression (i ++ .mark closing :: o) (.mark closing :: o) (· = e)

/-- What is read up to a closing mark settles, as the fuel of an entry point is enough. -/
theorem IsRead.settles (h : IsRead closing i e) :
    Settles n (fun fuel => (ofFuel fuel).expression) (i ++ .mark closing :: o)
      (.mark closing :: o) (· = e) :=
  (steady_expressionFrom .assignment).settles_iff.2 (h n o)

/-- Does no expression begin with such a mark?  An identifier is no mark at all. -/
def beginsNothing : Kind → Bool
  | .rightParen | .rightBracket | .comma | .identifier => true
  | _ => false

/-- The states of a parser whose stream offers `i`. -/
def Offering (n : Nat) (i : List Lexeme) (parser : Parser) : Prop :=
  parser.breakable = n ∧ parser.tokens.Offers i

/-- What is read determines what any run on such a stream gives. -/
theorem Reads.takes {α : Type} {x : Parse α} {P : α → Prop} (h : Reads n n x i o P) :
    Takes (Offering n i) (Offering n o) x P := by
  intro parser a next hoffering hresult
  obtain ⟨b, after, hread, hn, hrest, hb⟩ := h parser hoffering.1 hoffering.2
  rw [hread] at hresult
  cases hresult
  exact ⟨⟨hn, hrest⟩, hb⟩

/-- Nothing is read where nothing begins. -/
theorem refuses_operation (g : Grammar) (tier : Precedence) (h : beginsNothing kind = true) :
    Takes (Offering n (.mark kind :: o)) (Offering n o) (g.operation tier) fun _ => False := by
  have hprimary : Takes (Offering n (.mark kind :: o)) (Offering n o) g.primary fun _ => False := by
    refine reads_take.takes.bind fun token htoken => ?_
    rw [htoken]
    cases kind <;> first | exact .fail | cases h
  have hprefixed : Takes (Offering n (.mark kind :: o)) (Offering n o) g.prefixed
      fun _ => False := by
    rintro parser a next ⟨hn, token, tokens, hnext, hlexeme, hrest⟩ hresult
    have hkind : token.kind = kind := congrArg Lexeme.kind hlexeme
    have hfirst : isBefore token.kind = false := by
      rw [hkind]
      cases kind <;> first | rfl | cases h
    rw [prefixed_apply g hnext hfirst] at hresult
    have hoffers : (tokens.putBack token).Offers (.mark kind :: o) := hlexeme ▸ hrest.putBack token
    exact hprimary { parser with tokens := tokens.putBack token } a next ⟨hn, hoffers⟩ hresult
  exact hprefixed.bind fun _ hnone => hnone.elim

/-- There is a stream that offers what is asked for. -/
theorem exists_offers (i : List Lexeme) : ∃ stream : TokenStream, stream.Offers i := by
  induction i with
  | nil => exact ⟨.ofText "", trivial⟩
  | cons l i ih =>
    obtain ⟨stream, hoffers⟩ := ih
    exact ⟨stream.putBack ⟨l, .start⟩, hoffers.putBack ⟨l, .start⟩⟩

/-- So no expression settles there. -/
theorem not_settles_expression (h : beginsNothing kind = true) :
    ¬ Settles n (fun fuel => (ofFuel fuel).expression) (.mark kind :: i) o P := by
  intro hsettles
  obtain ⟨stream, hoffers⟩ := exists_offers (.mark kind :: i)
  obtain ⟨a, next, least, hresult, -⟩ := hsettles ⟨stream, n⟩ rfl hoffers
  have hlast : (ofFuel (least + 1)).expressionFrom .assignment ⟨stream, n⟩ = .ok a next :=
    hresult (least + 1) (Nat.le_succ least)
  rw [expressionFrom_succ] at hlast
  exact (refuses_operation _ _ h _ _ _ ⟨rfl, hoffers⟩ hlast).2

/-- What two readings of the same lexemes leave is one stream. -/
theorem Settles.agree {α : Type} {x : Nat → Parse α} {Q R : α → Prop} (h : Settles n x i o Q)
    (h' : Settles n x i j R) : ∃ stream : TokenStream, stream.Offers o ∧ stream.Offers j := by
  obtain ⟨stream, hoffers⟩ := exists_offers i
  obtain ⟨a, next, least, hresult, -, hrest, -⟩ := h ⟨stream, n⟩ rfl hoffers
  obtain ⟨b, next', more, hresult', -, hrest', -⟩ := h' ⟨stream, n⟩ rfl hoffers
  have hleft := hresult (max least more) (Nat.le_max_left _ _)
  rw [hresult' _ (Nat.le_max_right _ _)] at hleft
  cases hleft
  exact ⟨next.tokens, hrest, hrest'⟩

/-- A stream offers one first lexeme only. -/
theorem head_of_offers {stream : TokenStream} {k : Lexeme}
    (h : stream.Offers (l :: o)) (h' : stream.Offers (k :: j)) :
    l = k ∧ ∃ next : TokenStream, next.Offers o ∧ next.Offers j := by
  obtain ⟨token, next, hnext, rfl, hrest⟩ := h
  obtain ⟨token', next', hnext', rfl, hrest'⟩ := h'
  rw [hnext] at hnext'
  cases hnext'
  exact ⟨rfl, next, hrest, hrest'⟩

/-- A name is an operand, unless it is the parameter of a lambda. -/
theorem settles_name (x : String) (hl : l.kind ≠ .lambda) :
    Settles n (fun fuel => (ofFuel fuel).primary) (.name x :: l :: o) (l :: o) (· = .name x) := by
  refine reads_take.settles.bind fun token htoken => ?_
  rw [htoken]
  exact (reads_takeIf_not hl).settles.bindEq (.pure rfl)

/-- An expression up to a closing mark begins with something. -/
theorem IsRead.exists_cons (h : IsRead closing i e) (hclosing : beginsNothing closing = true) :
    ∃ first j, i = first :: j ∧ ∀ kind, first = .mark kind → beginsNothing kind = false := by
  have hsettles := h.settles (n := 0) (o := [])
  cases i with
  | nil => exact absurd hsettles (not_settles_expression hclosing)
  | cons first j =>
    refine ⟨first, j, rfl, fun kind hfirst => ?_⟩
    subst hfirst
    rw [← Bool.not_eq_true]
    exact fun hnothing => not_settles_expression hnothing hsettles

/-- A name before a closing parenthesis or a comma is read alone. -/
theorem IsRead.name_alone {x : String} (h : IsRead .rightParen (.name x :: l :: j) e) :
    l.kind ≠ .rightParen ∧ l.kind ≠ .comma := by
  have hread : ∀ o, Precedence.assignment.stopsAt l.kind = true →
      l = .mark .rightParen ∧ ∃ next : TokenStream,
        next.Offers (j ++ .mark .rightParen :: o) ∧ next.Offers o := by
    intro o hstops
    have hname := settles_expressionFrom (settles_operation
      (settles_prefixed rfl (settles_name x (Precedence.ne_lambda_of_stopsAt hstops)))
      (Onward.stop (n := 0) (o := j ++ .mark .rightParen :: o) hstops))
    obtain ⟨stream, hoffers, hoffers'⟩ := hname.agree (h.settles (o := o))
    exact head_of_offers hoffers hoffers'
  constructor
  · intro hkind
    have hstops : Precedence.assignment.stopsAt l.kind = true := by rw [hkind]; rfl
    -- what follows the parenthesis may be anything, so it is not what stands after the name
    have hnext : ∀ k, (j ++ [Lexeme.mark .rightParen]).head? = some k := by
      intro k
      obtain ⟨-, next, hoffers, hoffers'⟩ := hread [k] hstops
      cases j with
      | nil => exact congrArg some (head_of_offers hoffers hoffers').1
      | cons _ j => exact congrArg some (head_of_offers hoffers hoffers').1
    have heof := hnext (.mark .eof)
    rw [hnext (.mark .comma)] at heof
    exact absurd heof (by decide)
  · intro hkind
    have hstops : Precedence.assignment.stopsAt l.kind = true := by rw [hkind]; rfl
    rw [(hread [] hstops).1] at hkind
    exact absurd hkind (by decide)

/-- No lambda begins where an expression in parentheses does. -/
theorem IsRead.noHead (h : IsRead .rightParen i e) (hl : l.kind ≠ .lambda) :
    NoHead (i ++ .mark .rightParen :: l :: o) := by
  obtain ⟨first, j, rfl, hfirst⟩ := h.exists_cons rfl
  cases first with
  | name x =>
    cases j with
    | nil => exact .named x (.closed hl)
    | cons second j => exact .named x (.other h.name_alone.1 h.name_alone.2)
  | mark kind =>
    have hnothing := hfirst kind rfl
    refine .other ?_ ?_
    · rintro rfl
      cases hnothing
    · rintro rfl
      cases hnothing
  | _ => exact .other nofun nofun

/-! ## Arguments -/

/-- The arguments of a call, up to and including the closing parenthesis; a comma may stand after
    the last one. -/
inductive AreArguments : List Lexeme → List Expression → Prop where
  | none : AreArguments [.mark .rightParen] []
  | last {i : List Lexeme} {e : Expression} : IsRead .rightParen i e →
      AreArguments (i ++ [.mark .rightParen]) [e]
  | more {i j : List Lexeme} {e : Expression} {es : List Expression} : IsRead .comma i e →
      AreArguments j es → AreArguments (i ++ .mark .comma :: j) (e :: es)

/-- One turn of reading arguments. -/
def argumentsTurn (g : Grammar) (closing : Kind) (read : List Expression) :
    Parse (Turn (List Expression) (List Expression)) := do
  if ← takeIf closing then
    return .done read.reverse
  let argument ← g.expression
  if ← takeIf .comma then
    return .again (argument :: read)
  let _ ← expect closing
  return .done (argument :: read).reverse

/-- Arguments are read turn by turn. -/
theorem arguments_eq (g : Grammar) (closing : Kind) :
    g.arguments closing = iterate g.bound (argumentsTurn g closing) [] := rfl

/-- Induction on the arguments. -/
theorem AreArguments.settles (h : AreArguments i es) :
    Settles n (fun fuel => (ofFuel fuel).arguments .rightParen) (i ++ o) o (· = es) := by
  -- no argument begins with the parenthesis that closes them
  have hopen : ∀ {closing i e}, IsRead closing i e → beginsNothing closing = true →
      ∃ first j, i = first :: j ∧ first.kind ≠ .rightParen := by
    intro closing i e hread hclosing
    obtain ⟨first, j, rfl, hfirst⟩ := hread.exists_cons hclosing
    refine ⟨first, j, rfl, fun hkind => ?_⟩
    cases first with
    | mark kind =>
      obtain rfl : kind = .rightParen := hkind
      cases hfirst _ rfl
    | _ => cases hkind
  -- the induction takes turns away, so it is for any number of turns that were spent before
  have hloop : ∀ read spent, Settles n
      (fun fuel => iterate (fuel - spent) (argumentsTurn (ofFuel fuel) .rightParen) read)
      (i ++ o) o (· = read.reverse ++ es) := by
    induction h with
    | none =>
      intro read spent
      refine .iterateDone (a := read.reverse) ?_ (List.append_nil _).symm
      exact (reads_takeIf rfl).settles.bindEq (.pure rfl)
    | @last i e hread =>
      intro read spent
      obtain ⟨first, j, rfl, hfirst⟩ := hopen hread rfl
      refine .iterateDone (a := (e :: read).reverse) ?_ List.reverse_cons
      rw [List.append_assoc]
      refine (reads_takeIf_not hfirst).settles.bindEq (hread.settles.bindEq ?_)
      refine (reads_takeIf_not (by decide)).settles.bindEq ?_
      exact (reads_expectMark .rightParen).settles.bind fun _ _ => .pure rfl
    | @more i j e es hread _ ih =>
      intro read spent
      obtain ⟨first, k, rfl, hfirst⟩ := hopen hread rfl
      have hmoved : read.reverse ++ e :: es = (e :: read).reverse ++ es := by
        rw [List.reverse_cons, ← List.append_cons]
      rw [hmoved, List.append_assoc]
      refine .iterateAgain (t := e :: read) ?_ (ih (e :: read) (spent + 1))
      refine (reads_takeIf_not hfirst).settles.bindEq (hread.settles.bindEq ?_)
      exact (reads_takeIf rfl).settles.bindEq (.pure rfl)
  simp only [arguments_eq]
  exact hloop [] 0

/-! ## Operands -/

/-- A constant, a name, an expression in parentheses, or another literal: a function, an object or
    an array, any that the parser reads whatever follows. -/
inductive IsAtom : List Lexeme → Expression → Prop where
  | nil : IsAtom [.mark .kwNil] (.literal .nil)
  | isTrue : IsAtom [.mark .kwTrue] (.literal (.boolean true))
  | isFalse : IsAtom [.mark .kwFalse] (.literal (.boolean false))
  | number (value : Nat) : IsAtom [.number value] (.literal (.number (Int64.ofNat value)))
  | string (text : String) : IsAtom [.string text] (.literal (.string text))
  | name (x : String) : IsAtom [.name x] (.name x)
  | enclosed {i : List Lexeme} {e : Expression} : IsRead .rightParen i e →
      IsAtom (.mark .leftParen :: (i ++ [.mark .rightParen])) e
  | compound {opening : Kind} {i : List Lexeme} {e : Expression} :
      opening ∈ [.kwFunction, .leftBrace, .leftBracket] →
      (∀ n o, Reads n n Parser.primary (.mark opening :: i ++ o) o (· = e)) →
      IsAtom (.mark opening :: i) e

/-- What stands after an operand and belongs to it. -/
inductive IsPart (target : Expression) : List Lexeme → Expression → Prop where
  | step {operator : Kind} : operator.isStep = true →
      IsPart target [.mark operator] (.step operator false target)
  | member (x : String) :
      IsPart target [.mark .dot, .name x] (.index target (.literal (.string x)))
  | index {i : List Lexeme} {key : Expression} : IsRead .rightBracket i key →
      IsPart target (.mark .leftBracket :: (i ++ [.mark .rightBracket])) (.index target key)
  | call {i : List Lexeme} {es : List Expression} : AreArguments i es →
      IsPart target (.mark .leftParen :: i) (.call target es)

/-- An atom with all its parts. -/
inductive IsPostfixed : List Lexeme → Expression → Prop where
  | atom {i : List Lexeme} {e : Expression} : IsAtom i e → IsPostfixed i e
  | part {i j : List Lexeme} {target e : Expression} : IsPostfixed i target → IsPart target j e →
      IsPostfixed (i ++ j) e

/-- An atom with all its parts, and the operators before them. -/
inductive IsOperand : List Lexeme → Expression → Prop where
  | postfixed {i : List Lexeme} {e : Expression} : IsPostfixed i e → IsOperand i e
  | unary {operator : Kind} {i : List Lexeme} {e : Expression} : operator.isPrefix = true →
      IsOperand i e → IsOperand (.mark operator :: i) (.unary operator e)
  | step {operator : Kind} {i : List Lexeme} {e : Expression} : operator.isStep = true →
      IsOperand i e → IsOperand (.mark operator :: i) (.step operator true e)

/-- Atoms are read by the token that they begin with. -/
theorem IsAtom.settles (h : IsAtom i e) (hl : l.kind ≠ .lambda) :
    Settles n (fun fuel => (ofFuel fuel).primary) (i ++ l :: o) (l :: o) (· = e) := by
  cases h with
  | name x => exact settles_name x hl
  | @enclosed i _ hread =>
    rw [List.cons_append, List.append_assoc]
    refine reads_take.settles.bind fun token htoken => ?_
    rw [htoken]
    have hhead : ∀ fuel, 2 ≤ fuel → Reads n n (ofFuel fuel).lambdaHead
        (i ++ .mark .rightParen :: l :: o) (i ++ .mark .rightParen :: l :: o) (· = none) :=
      fun fuel hfuel => reads_noLambdaHead (ofFuel fuel) hfuel (hread.noHead hl)
    refine (steady_lambdaHead.settles hhead).bindEq ?_
    refine hread.settles.bindEq ?_
    exact (reads_expectMark .rightParen).settles.bind fun _ _ => .pure rfl
  | compound _ hread => exact steady_primary.settles_iff.2 (hread n (l :: o))
  | _ =>
    refine reads_take.settles.bind fun token htoken => ?_
    rw [htoken]
    exact .pure rfl

/-- No atom begins with an operator that stands before an operand. -/
theorem IsAtom.exists_cons (h : IsAtom i e) :
    ∃ first j, i = first :: j ∧ isBefore first.kind = false := by
  cases h with
  | @compound opening i _ hopening _ =>
    refine ⟨_, i, rfl, ?_⟩
    have hkinds : ∀ kind ∈ [.kwFunction, .leftBrace, .leftBracket], isBefore kind = false := by
      decide
    exact hkinds opening hopening
  | _ => exact ⟨_, _, rfl, rfl⟩

/-- A part is a turn of the loop over operators, wherever prefix operators read their operand. -/
theorem IsPart.settles (h : IsPart left i e) (htier : tier.rank ≤ Precedence.stepBefore.rank) :
    Settles n (fun fuel => (ofFuel fuel).operatorTurn tier left) (i ++ o) o (· = .again e) := by
  have hrank : ∀ {found : Precedence}, Precedence.stepBefore.rank ≤ found.rank →
      tier.rank ≤ found.rank := Nat.le_trans htier
  cases h with
  | @step operator hoperator =>
    have hfound : Precedence.afterOperand? operator = some .stepAfter := by
      cases operator <;> first | rfl | cases hoperator
    refine settles_operatorTurn hfound (hrank (by decide)) fun token hkind => ?_
    unfold Grammar.extend
    rw [hkind]
    cases operator <;> first | exact .pure rfl | cases hoperator
  | member x =>
    have hfound : Precedence.afterOperand? .dot = some .indexing := rfl
    refine settles_operatorTurn hfound (hrank (by decide)) fun token hkind => ?_
    unfold Grammar.extend Grammar.indexOf
    rw [hkind]
    exact (reads_expectName x).settles.bindEq (.pure rfl)
  | @index i key hread =>
    rw [List.cons_append, List.append_assoc]
    have hfound : Precedence.afterOperand? .leftBracket = some .indexing := rfl
    refine settles_operatorTurn hfound (hrank (by decide)) fun token hkind => ?_
    unfold Grammar.extend Grammar.indexOf
    rw [hkind]
    refine hread.settles.bindEq ?_
    exact (reads_expectMark .rightBracket).settles.bind fun _ _ => .pure rfl
  | @call i es harguments =>
    have hfound : Precedence.afterOperand? .leftParen = some .indexing := rfl
    refine settles_operatorTurn hfound (hrank (by decide)) fun token hkind => ?_
    unfold Grammar.extend
    rw [hkind]
    exact harguments.settles.bindEq (.pure rfl)

/-- No part begins with an arrow. -/
theorem IsPart.exists_cons (h : IsPart left i e) :
    ∃ first j, i = first :: j ∧ first.kind ≠ .lambda := by
  cases h with
  | @step operator hoperator =>
    refine ⟨_, _, rfl, ?_⟩
    rintro rfl
    cases hoperator
  | _ => exact ⟨_, _, rfl, by decide⟩

/-- What an operation that begins with an atom and its parts comes to.  Induction on the parts, last
    one first: each is one more turn of the loop. -/
theorem IsPostfixed.settles (h : IsPostfixed i e)
    (htier : tier.rank ≤ Precedence.stepBefore.rank) (hl : l.kind ≠ .lambda)
    (honward : Onward n tier (l :: o) out P e) :
    Settles n (fun fuel => (ofFuel fuel).operation tier) (i ++ l :: o) out P := by
  induction h generalizing l o with
  | @atom i e hatom =>
    have hprimary := hatom.settles (n := n) (o := o) hl
    obtain ⟨first, j, rfl, hfirst⟩ := hatom.exists_cons
    exact settles_operation (settles_prefixed hfirst hprimary) honward
  | @part i j target e _ hpart ih =>
    have hturn := hpart.settles (n := n) (o := l :: o) htier
    obtain ⟨first, j, rfl, hfirst⟩ := hpart.exists_cons
    rw [List.append_assoc]
    exact ih hfirst (.again hturn honward)

/-- What an operation that begins with an operand comes to.  Each operator before the operand reads
    what is after it from a tier that leaves it the parts and nothing else. -/
theorem IsOperand.settles (h : IsOperand i e) (htier : tier.rank ≤ Precedence.stepBefore.rank)
    (hstops : Precedence.stepBefore.stopsAt l.kind = true)
    (honward : Onward n tier (l :: o) out P e) :
    Settles n (fun fuel => (ofFuel fuel).operation tier) (i ++ l :: o) out P := by
  induction h generalizing tier out P with
  | postfixed h => exact h.settles htier (Precedence.ne_lambda_of_stopsAt hstops) honward
  | @unary operator i e hoperator _ ih =>
    have hinner := settles_expressionFrom (ih (Nat.le_refl _) (.stop hstops))
    refine settles_operation ((reads_takeMark _).settles.bind fun token hkind => ?_) honward
    rw [hkind]
    cases operator <;> first | exact hinner.bindEq (.pure rfl) | cases hoperator
  | @step operator i e hoperator _ ih =>
    have hinner := settles_expressionFrom (ih (Nat.le_refl _) (.stop hstops))
    refine settles_operation ((reads_takeMark _).settles.bind fun token hkind => ?_) honward
    rw [hkind]
    cases operator <;> first | exact hinner.bindEq (.pure rfl) | cases hoperator

/-- An operand: its lexemes, and the tree of them. -/
structure Operand where
  lexemes : List Lexeme
  value : Expression
  isOperand : IsOperand lexemes value

/-- A name by itself. -/
def Operand.name (x : String) : Operand := ⟨[.name x], .name x, .postfixed (.atom (.name x))⟩

/-- A number by itself. -/
def Operand.number (value : Nat) : Operand :=
  ⟨[.number value], .literal (.number (Int64.ofNat value)), .postfixed (.atom (.number value))⟩

end Tao.Parser
