/-
  Expressions that are written are read.

  One lemma for each rule of the grammar, in the order of the grammar.  An expression in
  parentheses is told from a lambda by reading ahead: after an opening parenthesis the parser takes
  the parameters of a lambda if there is one, and nothing otherwise.  There is one only where one is
  written, as no expression in parentheses is followed by an arrow.
-/
import Tao.Parser.Expression
import Tao.Proofs.Parser.Understands.Basic

namespace Tao.Grammar

open Tao.Parser

variable {g : Grammar} {size n : Nat} {i j o : List Lexeme} {l : Lexeme} {e : Expression}
  {es : List Expression} {body : List Statement} {names : List String} {tier : Precedence}
  {tokens : List Token}

/-! ## Arguments -/

/-- A list of arguments is read up to its closing mark. -/
theorem Understands.arguments (h : g.Understands size) {closing : Kind}
    (hclosing : closing = .rightParen ∨ closing = .rightBracket)
    (hw : Written (.arguments closing es) i o) (hsize : i.length ≤ size) :
    Reads n n (g.arguments closing) i o (· = es) := by
  have hopen : (Lexeme.mark .leftParen).kind ≠ closing := by
    rcases hclosing with rfl | rfl <;> decide
  have hcomma : (Lexeme.mark closing).kind ≠ .comma := by
    rcases hclosing with rfl | rfl <;> decide
  have hstops : Precedence.assignment.stopsAt closing = true := by
    rcases hclosing with rfl | rfl <;> rfl
  have hbound := h.bound
  -- what was read and what is still to come are together all arguments
  refine Reads.iterate (W := fun read i => ∃ rest, Written (.arguments closing rest) i o ∧
    i.length ≤ size ∧ read.reverse ++ rest = es) ?_ ⟨es, hw, hsize, rfl⟩ (by omega)
  rintro read i ⟨rest, hw, hsize, hall⟩
  cases hw with
  | noArguments =>
    refine .inl ((reads_takeIf rfl).bindEq (.pure ⟨_, rfl, ?_⟩))
    rw [← hall, List.append_nil]
  | lastArgument he =>
    obtain ⟨j, rfl, -⟩ := exists_of_enclosed he
    refine .inl ((reads_takeIf_not hopen).bindEq ((h.enclosed he hstops hsize).bindEq ?_))
    refine (reads_takeIf_not hcomma).bindEq ?_
    refine (reads_expectMark closing).bind fun _ _ => .pure ⟨_, rfl, ?_⟩
    rw [List.reverse_cons, hall]
  | @argument _ _ j _ rest _ he hrest =>
    have hlength := he.length_le
    simp only [Phrase.least, List.length_cons] at hlength
    obtain ⟨i, rfl, -⟩ := exists_of_enclosed he
    refine .inr ⟨j, by omega, ?_⟩
    refine (reads_takeIf_not hopen).bindEq ((h.enclosed he rfl hsize).bindEq ?_)
    refine (reads_takeIf rfl).bindEq (.pure ⟨_, rfl, rest, hrest, by omega, ?_⟩)
    rw [List.reverse_cons, ← List.append_cons, hall]

/-! ## Functions -/

/-- What tokens are called. -/
def contentsOf (tokens : List Token) : List String := tokens.map (·.lexeme.contents)

/-- The names read so far, in order. -/
theorem contentsOf_read {read : List Token} {token : Token} {x : String}
    (h : token.lexeme = .name x) :
    contentsOf (token :: read).reverse = contentsOf read.reverse ++ [x] := by
  unfold contentsOf
  rw [List.reverse_cons, List.map_append, List.map_singleton, h]
  rfl

/-- Names that differ are accepted.  Induction on the tokens. -/
theorem reads_distinctNames (hnames : (contentsOf tokens).Nodup) :
    Reads n n (distinctNames tokens) o o (· = contentsOf tokens) := by
  have hgo : ∀ (tokens : List Token) (read : List String),
      (read.reverse ++ contentsOf tokens).Nodup →
      Reads n n (distinctNames.go read tokens) o o (· = read.reverse ++ contentsOf tokens) := by
    intro tokens
    induction tokens with
    | nil => exact fun read _ => .pure (List.append_nil _).symm
    | cons token rest ih =>
      intro read hnodup
      have hnew : read.contains token.lexeme.contents = false := by
        have hmem : token.lexeme.contents ∉ read := by
          intro hmem
          have hdisjoint := (List.nodup_append.1 hnodup).2.2
          exact hdisjoint _ (List.mem_reverse.2 hmem) _ List.mem_cons_self rfl
        simpa using hmem
      have hmoved : (token.lexeme.contents :: read).reverse ++ contentsOf rest =
          read.reverse ++ contentsOf (token :: rest) := by
        rw [List.reverse_cons, List.append_assoc]
        rfl
      unfold distinctNames.go
      dsimp only
      rw [hnew, ← hmoved]
      exact ih _ (hmoved ▸ hnodup)
  exact hgo tokens [] hnames

theorem Understands.parameters (h : g.Understands size) (hw : Written (.params names) i o)
    (hsize : i.length ≤ size) : Reads n n g.parameters i o (contentsOf · = names) := by
  have hname : ∀ {x}, (Lexeme.name x).kind ≠ .rightParen := by rintro x ⟨⟩
  have hclosing : (Lexeme.mark .rightParen).kind ≠ .comma := by decide
  have hbound := h.bound
  refine Reads.iterate (W := fun read i => ∃ rest, Written (.params rest) i o ∧
    contentsOf read.reverse ++ rest = names) ?_ ⟨names, hw, rfl⟩ (by omega)
  rintro read i ⟨rest, hw, hall⟩
  cases hw with
  | noParams =>
    refine .inl ((reads_takeIf rfl).bindEq (.pure ⟨_, rfl, ?_⟩))
    rw [← hall, List.append_nil]
  | lastParam =>
    refine .inl ((reads_takeIf_not hname).bindEq ((reads_expect rfl).bind fun token htoken => ?_))
    refine (reads_takeIf_not hclosing).bindEq ?_
    refine (reads_expectMark .rightParen).bind fun _ _ => .pure ⟨_, rfl, ?_⟩
    rw [← hall, contentsOf_read htoken]
  | @param x rest i _ _ hrest =>
    refine .inr ⟨i, by simp only [List.length_cons]; omega, ?_⟩
    refine (reads_takeIf_not hname).bindEq ((reads_expect rfl).bind fun token htoken => ?_)
    refine (reads_takeIf rfl).bindEq (.pure ⟨_, rfl, rest, hrest, ?_⟩)
    rw [contentsOf_read htoken, ← List.append_cons, hall]

/-- A function is read with a name and without. -/
theorem Understands.functionRest (h : g.Understands size) {code : FunctionCode}
    (hw : Written (.code code) i o) (hsize : i.length ≤ size) :
    Reads n n g.functionRest i o (· = code) := by
  -- with a name and without one, the rest is the same
  have hrest : ∀ {name names i j body}, names.Nodup →
      Written (.params names) i (.mark .leftBrace :: j) →
      Written (.block false body) j o → i.length < size →
      Reads n n (do
        let _ ← expect .leftParen
        let params ← distinctNames (← g.parameters)
        let _ ← expect .leftBrace
        return FunctionCode.mk name params (← g.bodyOfFunction)) (.mark .leftParen :: i) o
        (· = .mk name names body) := by
    intro name names i j body hnames hparams hbody hsize
    have hlength := hparams.length_le
    simp only [Phrase.least, List.length_cons] at hlength
    refine (reads_expectMark .leftParen).bind fun _ _ => ?_
    refine (h.parameters hparams (by omega)).bind fun tokens htokens => ?_
    refine (reads_distinctNames (htokens ▸ hnames)).bindEq ?_
    refine (reads_expectMark .leftBrace).bind fun _ _ => ?_
    refine (h.bodyOfFunction hbody (by omega)).bindEq (.pure ?_)
    rw [htokens]
  unfold Grammar.functionRest
  cases hw with
  | named _ hnames hparams hbody =>
    simp only [List.length_cons] at hsize
    refine (reads_nextIs .identifier).bindEq ?_
    refine (reads_expectName _).map.bindEq ?_
    exact hrest hnames hparams hbody (by omega)
  | anonymous hnames hparams hbody =>
    simp only [List.length_cons] at hsize
    refine (reads_nextIs .identifier).bindEq ?_
    exact hrest hnames hparams hbody hsize

/-! ## Lambdas -/

/-- What was looked at is offered again. -/
theorem reads_putBackAll (tokens : List Token) :
    Reads n n (tokens.forM putBack) o ((tokens.map (·.lexeme)).reverse ++ o) fun _ => True := by
  induction tokens generalizing o with
  | nil => exact .pure trivial
  | cons token rest ih =>
    rw [List.map_cons, List.reverse_cons, List.append_assoc]
    exact (reads_putBack rfl).bind fun _ _ => ih

/-- What reading ahead has before it in a lambda with these parameters: the remaining ones where a
    name may come, and else what follows the name before. -/
def Lookahead.Before (names : List String) (o : List Lexeme) (ahead : Lookahead)
    (i : List Lexeme) : Prop :=
  if ahead.wantName then
    ∃ rest, Written (.params rest) i o ∧ contentsOf ahead.params.reverse ++ rest = names
  else
    i = .mark .rightParen :: o ∧ contentsOf ahead.params.reverse = names ∨
      ∃ j rest, i = .mark .comma :: j ∧ Written (.params rest) j o ∧
        contentsOf ahead.params.reverse ++ rest = names

/-- Reading ahead for a lambda takes its parameters. -/
theorem Understands.lambdaHead (h : g.Understands size)
    (hw : Written (.params names) i (.mark .lambda :: o)) (hsize : i.length ≤ size) :
    Reads n n g.lambdaHead i o fun result =>
      ∃ tokens, result = some tokens ∧ contentsOf tokens = names := by
  have hbound := h.bound
  refine Reads.bind (j := .mark .lambda :: o)
    (Q := fun result => result.1 = true ∧ contentsOf result.2.params.reverse = names)
    (Reads.iterate (W := Lookahead.Before names (.mark .lambda :: o)) ?_ ⟨names, hw, rfl⟩
      (by omega)) ?_
  · rintro ⟨seen, params, wantName⟩ i hbefore
    -- where a name may come more parameters may, and else only what follows a parameter
    cases wantName with
    | true =>
      obtain ⟨rest, hw, hall⟩ := hbefore
      cases hw with
      | noParams =>
        refine .inl ((reads_takeMark _).bind fun token hkind => ?_)
        rw [hkind]
        refine (reads_nextIs .lambda).bindEq (.pure ⟨_, rfl, rfl, ?_⟩)
        rw [← hall, List.append_nil]
      | lastParam =>
        refine .inr ⟨_, Nat.lt_succ_self _, reads_take.bind fun token htoken => ?_⟩
        have hkind : token.kind = .identifier := congrArg Lexeme.kind htoken
        rw [hkind]
        refine .pure ⟨_, rfl, .inl ⟨rfl, ?_⟩⟩
        rw [← hall, contentsOf_read htoken]
      | @param x rest i _ _ hrest =>
        refine .inr ⟨_, Nat.lt_succ_self _, reads_take.bind fun token htoken => ?_⟩
        have hkind : token.kind = .identifier := congrArg Lexeme.kind htoken
        rw [hkind]
        refine .pure ⟨_, rfl, .inr ⟨i, rest, rfl, hrest, ?_⟩⟩
        rw [contentsOf_read htoken, ← List.append_cons, hall]
    | false =>
      rcases hbefore with ⟨rfl, hall⟩ | ⟨j, rest, rfl, hrest, hall⟩
      · refine .inl ((reads_takeMark _).bind fun token hkind => ?_)
        rw [hkind]
        exact (reads_nextIs .lambda).bindEq (.pure ⟨_, rfl, rfl, hall⟩)
      · refine .inr ⟨_, Nat.lt_succ_self _, (reads_takeMark _).bind fun token hkind => ?_⟩
        rw [hkind]
        exact .pure ⟨_, rfl, rest, hrest, hall⟩
  · rintro ⟨isLambda, ahead⟩ ⟨rfl, hparams⟩
    exact reads_take.bind fun _ _ => .pure ⟨_, rfl, hparams⟩

/-- Does no expression begin with this? -/
def beginsNone : Kind → Bool
  | .rightParen | .comma | .semicolon | .kwLet => true
  | _ => false

/-- How an expression begins that has a closing parenthesis after it: with what no head of a lambda
    begins with, or with a name that is all of it or the head of a lambda without parentheses. -/
theorem begins_of_bare (hw : Written (.bare e) i (.mark .rightParen :: o)) :
    (∃ first j, i = first :: j ∧ beginsNone first.kind = false ∧ first.kind ≠ .identifier) ∨
    (∃ x, i = .name x :: .mark .rightParen :: o) ∨ ∃ x j, i = .name x :: .mark .lambda :: j := by
  -- what is enclosed begins with its parenthesis, and an operator before its operand with its mark
  have enclosed : ∀ {e o}, Written (.enclosed e) i o →
      ∃ first j, i = first :: j ∧ beginsNone first.kind = false ∧ first.kind ≠ .identifier := by
    intro e o he
    obtain ⟨j, rfl, -⟩ := exists_of_enclosed he
    exact ⟨_, _, rfl, rfl, by decide⟩
  have head : ∀ {names o}, Written (.head names) i o →
      (∃ first j, i = first :: j ∧ beginsNone first.kind = false ∧ first.kind ≠ .identifier) ∨
        ∃ x j, i = .name x :: .mark .lambda :: j := by
    intro names o hhead
    cases hhead with
    | bareHead => exact .inr ⟨_, _, rfl⟩
    | head => exact .inl ⟨_, _, rfl, rfl, by decide⟩
  have operator : ∀ {operator : Kind} {j}, operator.isPrefix = true ∨ operator.isStep = true →
      ∃ first k, Lexeme.mark operator :: j = first :: k ∧ beginsNone first.kind = false ∧
        first.kind ≠ .identifier := by
    rintro operator j hoperator
    refine ⟨_, _, rfl, ?_, ?_⟩
    · cases operator <;> first | rfl | cases hoperator <;> contradiction
    · rintro ⟨⟩
      cases hoperator <;> contradiction
  cases hw with
  | name => exact .inr (.inl ⟨_, rfl⟩)
  | lambda _ hhead => exact (head hhead).imp_right .inr
  | lambdaBlock _ hhead => exact (head hhead).imp_right .inr
  | unary hoperator => exact .inl (operator (.inl hoperator))
  | stepBefore hoperator => exact .inl (operator (.inr hoperator))
  | stepAfter _ he => exact .inl (enclosed he)
  | binary _ he => exact .inl (enclosed he)
  | conditional he => exact .inl (enclosed he)
  | assign he => exact .inl (enclosed he)
  | operatorAssign _ he => exact .inl (enclosed he)
  | index he => exact .inl (enclosed he)
  | member _ he => exact .inl (enclosed he)
  | call he => exact .inl (enclosed he)
  | _ => exact .inl ⟨_, _, rfl, rfl, by rintro ⟨⟩⟩

/-- Every expression begins with a token that can begin one. -/
theorem exists_of_bare (hw : Written (.bare e) i (.mark .rightParen :: o)) :
    ∃ first j, i = first :: j ∧ beginsNone first.kind = false := by
  rcases begins_of_bare hw with ⟨first, j, rfl, hbegins, -⟩ | ⟨x, rfl⟩ | ⟨x, j, rfl⟩
  · exact ⟨first, j, rfl, hbegins⟩
  · exact ⟨_, _, rfl, rfl⟩
  · exact ⟨_, _, rfl, rfl⟩

/-- What shows after a name that it is no parameter of a lambda: the closing parenthesis with no
    arrow after it, or something other than that and a comma. -/
inductive NoParam : List Lexeme → Prop where
  | closed {l : Lexeme} {o : List Lexeme} : l.kind ≠ .lambda →
      NoParam (.mark .rightParen :: l :: o)
  | other {l : Lexeme} {o : List Lexeme} : l.kind ≠ .rightParen → l.kind ≠ .comma →
      NoParam (l :: o)

/-- What shows after an opening parenthesis that no lambda begins there. -/
inductive NoHead : List Lexeme → Prop where
  | other {l : Lexeme} {o : List Lexeme} : l.kind ≠ .rightParen → l.kind ≠ .identifier →
      NoHead (l :: o)
  | named {o : List Lexeme} (x : String) : NoParam o → NoHead (.name x :: o)

/-- Reading ahead takes nothing where no lambda begins. -/
theorem reads_noLambdaHead (g : Grammar) (hbound : 2 ≤ g.bound) (h : NoHead i) :
    Reads n n g.lambdaHead i i (· = none) := by
  obtain ⟨fuel, hfuel⟩ : ∃ fuel, g.bound = fuel + 2 := ⟨g.bound - 2, by omega⟩
  -- A loop that ends without a lambda is followed by handing back all it has seen.
  have hback : ∀ {turn : Lookahead → Parse (Turn Lookahead (Bool × Lookahead))} {j},
      Reads n n (iterate (fuel + 2) turn ⟨[], [], true⟩) i j
        (fun result => result.1 = false ∧ (result.2.seen.map (·.lexeme)).reverse ++ j = i) →
      Reads n n (do
        let result ← iterate (fuel + 2) turn ⟨[], [], true⟩
        if result.1 then
          let _ ← take
          return some result.2.params.reverse
        else
          result.2.seen.forM putBack
          return none) i i (· = none) := by
    intro turn j hloop
    refine hloop.bind fun result hresult => ?_
    obtain ⟨hnone, hseen⟩ := hresult
    have hputBack := reads_putBackAll (n := n) (o := j) result.2.seen
    rw [hseen] at hputBack
    rw [hnone, if_neg Bool.false_ne_true]
    exact hputBack.bind fun _ _ => .pure rfl
  unfold Grammar.lambdaHead
  rw [hfuel]
  cases h with
  | @other first j hclosed hname =>
    refine hback (j := j) (.iterateDone (reads_take.bind fun token htoken => ?_))
    have hkind : token.kind = first.kind := congrArg Lexeme.kind htoken
    have hseen : [token].map (·.lexeme) ++ j = first :: j := congrArg (· :: j) htoken
    rw [hkind]
    split
    · exact absurd ‹_› hclosed
    · exact absurd ‹_› hname
    · exact .pure ⟨_, rfl, rfl, hseen⟩
    · exact .pure ⟨_, rfl, rfl, hseen⟩
  | @named o x hparam =>
    -- A name may be a parameter; what comes after it shows that there is no lambda.
    obtain ⟨second, j, rfl⟩ : ∃ second j, o = second :: j := by
      cases hparam <;> exact ⟨_, _, rfl⟩
    refine hback (j := j) (.iterateAgain (j := second :: j)
      (I := fun next => next.seen.map (·.lexeme) = [.name x] ∧ next.wantName = false)
      (reads_take.bind fun token htoken => ?_)
      fun next hnext => .iterateDone (reads_take.bind fun token htoken => ?_))
    · have hkind : token.kind = .identifier := congrArg Lexeme.kind htoken
      rw [hkind]
      exact .pure ⟨_, rfl, congrArg (· :: []) htoken, rfl⟩
    · have hkind : token.kind = second.kind := congrArg Lexeme.kind htoken
      have hseen : ((token :: next.seen).map (·.lexeme)).reverse ++ j = .name x :: second :: j := by
        rw [List.map_cons, hnext.1, htoken]
        rfl
      rw [hkind, hnext.2]
      cases hparam with
      | closed hl =>
        refine (reads_nextIs .lambda).bindEq ?_
        rw [decide_eq_false hl]
        exact .pure ⟨_, rfl, rfl, hseen⟩
      | other hclosed hcomma =>
        split
        · exact absurd ‹_› hclosed
        · exact .pure ⟨_, rfl, rfl, hseen⟩
        · exact absurd ‹_› hcomma
        · exact .pure ⟨_, rfl, rfl, hseen⟩

/-- Reading ahead takes nothing unless a lambda is written. -/
theorem Understands.noLambdaHead (h : g.Understands size)
    (hw : Written (.bare e) i (.mark .rightParen :: l :: o)) (hl : l.kind ≠ .lambda) :
    Reads n n g.lambdaHead i i (· = none) := by
  have hbound := h.bound
  refine reads_noLambdaHead g (by omega) ?_
  rcases begins_of_bare hw with ⟨first, j, rfl, hfirst, hname⟩ | ⟨x, rfl⟩ | ⟨x, j, rfl⟩
  · refine .other (fun hclosed => ?_) hname
    rw [hclosed] at hfirst
    cases hfirst
  · exact .named x (.closed hl)
  · exact .named x (.other nofun nofun)

/-- The body of a lambda may be an expression. -/
theorem Understands.lambda (h : g.Understands size) (hnames : names.Nodup)
    (htokens : contentsOf tokens = names) (hw : Written (.enclosed e) i (l :: o))
    (hstops : Precedence.assignment.stopsAt l.kind = true) (hsize : i.length ≤ size) :
    Reads n n (g.lambda tokens) i (l :: o)
      (· = .function (.mk none names [.giveBack (some e)])) := by
  have hopen : (Lexeme.mark .leftParen).kind ≠ .leftBrace := by decide
  have henclosed := h.enclosed (n := n) hw hstops hsize
  obtain ⟨j, rfl, -⟩ := exists_of_enclosed hw
  refine (reads_distinctNames (htokens ▸ hnames)).bindEq ?_
  refine (reads_takeIf_not hopen).bindEq ?_
  rw [htokens]
  exact henclosed.bindEq (.pure rfl)

/-- The body of a lambda may be a block, too. -/
theorem Understands.lambdaBlock (h : g.Understands size) (hnames : names.Nodup)
    (htokens : contentsOf tokens = names) (hw : Written (.block false body) i o)
    (hsize : i.length < size) :
    Reads n n (g.lambda tokens) (.mark .leftBrace :: i) o
      (· = .function (.mk none names body)) := by
  refine (reads_distinctNames (htokens ▸ hnames)).bindEq ?_
  refine (reads_takeIf rfl).bindEq ?_
  rw [htokens]
  exact (h.bodyOfFunction hw hsize).bindEq (.pure rfl)

/-! ## Operands -/

/-- Entries are read in order, each under a new key. -/
theorem Understands.objectRest (h : g.Understands size) {entries : List Entry}
    (hw : Written (.entries entries) i o) (hkeys : (entries.map Entry.key).Nodup)
    (hsize : i.length ≤ size) : Reads n n g.objectRest i o (· = .object entries) := by
  have hclosing : (Lexeme.mark .rightBrace).kind ≠ .comma := by decide
  have hnew : ∀ {keys : List String} {x e rest},
      (keys.reverse ++ (Entry.mk x e :: rest).map Entry.key).Nodup → keys.contains x = false := by
    intro keys x e rest hnodup
    have hmem : x ∉ keys := by
      intro hmem
      have hdisjoint := (List.nodup_append.1 hnodup).2.2
      exact hdisjoint _ (List.mem_reverse.2 hmem) _ List.mem_cons_self rfl
    simpa using hmem
  have hbound := h.bound
  refine Reads.iterate (W := fun read i => ∃ rest, Written (.entries rest) i o ∧ i.length ≤ size ∧
    (read.2.reverse ++ rest.map Entry.key).Nodup ∧ read.1.reverse ++ rest = entries) ?_
    ⟨entries, hw, hsize, hkeys, rfl⟩ (by omega)
  rintro ⟨before, keys⟩ i ⟨rest, hw, hsize, hkeys, hall⟩
  cases hw with
  | noEntries =>
    refine .inl ((reads_takeIf rfl).bindEq (.pure ⟨_, rfl, ?_⟩))
    rw [← hall, List.append_nil]
  | @lastEntry e i _ x l hl he =>
    simp only [List.length_cons] at hsize
    have hclosed : l.kind ≠ .rightBrace := by cases hl <;> rintro ⟨⟩
    refine .inl ((reads_takeIf_not hclosed).bindEq (reads_take.bind fun token htoken => ?_))
    -- A name as a key is read as the same name quoted.
    cases hl
    all_goals
      rw [htoken]
      dsimp only
      rw [hnew hkeys]
      refine (reads_expectMark .colon).bind fun _ _ => ?_
      refine (h.enclosed he rfl (by omega)).bindEq ((reads_takeIf_not hclosing).bindEq ?_)
      refine (reads_expectMark .rightBrace).bind fun _ _ => .pure ⟨_, rfl, ?_⟩
      rw [List.reverse_cons, hall]
  | @entry e i j rest _ x l hl he hrest =>
    have hlength := he.length_le
    simp only [Phrase.least, List.length_cons] at hlength hsize
    have hclosed : l.kind ≠ .rightBrace := by cases hl <;> rintro ⟨⟩
    have hmoved : ((x :: keys).reverse ++ rest.map Entry.key).Nodup := by
      rw [List.reverse_cons, List.append_assoc]
      exact hkeys
    have hread : (Entry.mk x e :: before).reverse ++ rest = entries := by
      rw [List.reverse_cons, ← List.append_cons, hall]
    refine .inr ⟨j, by simp only [List.length_cons]; omega, ?_⟩
    refine (reads_takeIf_not hclosed).bindEq (reads_take.bind fun token htoken => ?_)
    cases hl
    all_goals
      rw [htoken]
      dsimp only
      rw [hnew hkeys]
      refine (reads_expectMark .colon).bind fun _ _ => ?_
      refine (h.enclosed he rfl (by omega)).bindEq ((reads_takeIf rfl).bindEq ?_)
      exact .pure ⟨_, rfl, rest, hrest, by omega, hmoved, hread⟩

/-- An expression in parentheses is an operand. -/
theorem Understands.primaryEnclosed (h : g.Understands size) (hw : Written (.enclosed e) i (l :: o))
    (hl : l.kind ≠ .lambda) (hsize : i.length ≤ size + 1) :
    Reads n n g.primary i (l :: o) (· = e) := by
  obtain ⟨j, rfl, hbare⟩ := exists_of_enclosed hw
  simp only [List.length_cons] at hsize
  refine reads_take.bind fun token htoken => ?_
  rw [htoken]
  refine (h.noLambdaHead hbare hl).bindEq ?_
  refine (h.bare hbare (by omega)).bindEq ?_
  exact (reads_expectMark .rightParen).bind fun _ _ => .pure rfl

theorem Understands.indexOf (h : g.Understands size) (target : Expression) {opening : Token}
    (hopening : opening.kind = .leftBracket)
    (hw : Written (.enclosed e) i (.mark .rightBracket :: o)) (hsize : i.length ≤ size) :
    Reads n n (g.indexOf target opening) i o (· = .index target e) := by
  unfold Grammar.indexOf
  rw [hopening]
  refine (h.enclosed hw rfl hsize).bindEq ?_
  exact (reads_expectMark .rightBracket).bind fun _ _ => .pure rfl

theorem reads_memberOf (g : Grammar) (target : Expression) {opening : Token} (x : String)
    (hopening : opening.kind = .dot) :
    Reads n n (g.indexOf target opening) (.name x :: o) o
      (· = .index target (.literal (.string x))) := by
  unfold Grammar.indexOf
  rw [hopening]
  exact (reads_expectName x).bindEq (.pure rfl)

/-- A construction with arguments, or one without that is all of an expression in parentheses. -/
theorem Understands.construction (h : g.Understands size) (hw : Written (.enclosed e) i (l :: j))
    (harguments : l = .mark .leftParen ∧ Written (.arguments .rightParen es) j o ∨
      l = .mark .rightParen ∧ es = [] ∧ o = l :: j) (hsize : i.length ≤ size) :
    Reads n n g.construction i o (· = .construct e es) := by
  have hbound := h.bound
  have hlength := hw.length_le
  simp only [Phrase.least, List.length_cons] at hlength
  have hnext : l.kind = .leftParen ∨ l.kind = .rightParen :=
    harguments.imp (congrArg Lexeme.kind ·.1) (congrArg Lexeme.kind ·.1)
  have hlambda : l.kind ≠ .lambda := by
    rcases hnext with hnext | hnext <;> rw [hnext] <;> decide
  obtain ⟨fuel, hfuel⟩ : ∃ fuel, g.bound = fuel + 1 := ⟨g.bound - 1, by omega⟩
  unfold Grammar.construction
  rw [hfuel]
  refine (h.primaryEnclosed hw hlambda (by omega)).bindEq ?_
  refine Reads.bindEq (j := l :: j) (a := e)
    (.iterateDone (reads_take.bind fun token htoken => ?_)) ?_
  · have hkind : token.kind = l.kind := congrArg Lexeme.kind htoken
    rw [hkind]
    rcases hnext with hnext | hnext <;> rw [hnext] <;>
      exact (reads_putBack htoken).bind fun _ _ => .pure ⟨_, rfl, rfl⟩
  · rcases harguments with ⟨rfl, harguments⟩ | ⟨rfl, rfl, rfl⟩
    · refine (reads_takeIf rfl).bindEq ?_
      exact (h.arguments (.inl rfl) harguments (by omega)).bindEq (.pure rfl)
    · have hclosed : (Lexeme.mark .rightParen).kind ≠ .leftParen := by decide
      exact (reads_takeIf_not hclosed).bindEq (.pure rfl)

/-- May a token stand before an operand? -/
def isBefore (kind : Kind) : Bool := kind.isPrefix || kind.isStep || kind = .kwNew

/-- Where no operator comes first, an operand without one is read. -/
theorem prefixed_apply (g : Grammar) {parser : Parser} {token : Token} {tokens : TokenStream}
    (hnext : parser.tokens.next = (.ok token, tokens)) (hfirst : isBefore token.kind = false) :
    g.prefixed parser = g.primary { parser with tokens := tokens.putBack token } := by
  unfold Grammar.prefixed
  rw [EStateM.bind_apply]
  unfold take
  rw [hnext]
  dsimp only
  generalize token.kind = kind at hfirst ⊢
  cases kind <;> first | rfl | cases hfirst

/-- An operand with nothing before it. -/
theorem reads_prefixed {first : Lexeme} (hfirst : isBefore first.kind = false)
    (hprimary : Reads n n g.primary (first :: i) o (· = e)) :
    Reads n n g.prefixed (first :: i) o (· = e) := by
  intro parser hn hoffers
  obtain ⟨token, tokens, hnext, rfl, hrest⟩ := hoffers
  rw [prefixed_apply g hnext hfirst]
  exact hprimary _ hn (hrest.putBack token)

/-- An expression in parentheses is such an operand. -/
theorem Understands.prefixedEnclosed (h : g.Understands size)
    (hw : Written (.enclosed e) i (l :: o)) (hl : l.kind ≠ .lambda) (hsize : i.length ≤ size + 1) :
    Reads n n g.prefixed i (l :: o) (· = e) := by
  have hprimary := h.primaryEnclosed (n := n) hw hl hsize
  obtain ⟨j, rfl, -⟩ := exists_of_enclosed hw
  exact reads_prefixed rfl hprimary

/-- An operand with an operator before it. -/
theorem Understands.prefixedUnary (h : g.Understands size) {operator : Kind}
    (hoperator : operator.isPrefix = true) (hw : Written (.enclosed e) i (l :: o))
    (hstops : Precedence.stepBefore.stopsAt l.kind = true) (hsize : i.length ≤ size) :
    Reads n n g.prefixed (.mark operator :: i) (l :: o) (· = .unary operator e) := by
  refine (reads_takeMark _).bind fun token hkind => ?_
  have hoperand := h.operand (n := n) hw hstops hsize
  rw [hkind]
  cases operator <;> first | exact hoperand.bindEq (.pure rfl) | cases hoperator

/-- An operand with a step before it. -/
theorem Understands.prefixedStep (h : g.Understands size) {operator : Kind}
    (hoperator : operator.isStep = true) (hw : Written (.enclosed e) i (l :: o))
    (hstops : Precedence.stepBefore.stopsAt l.kind = true) (hsize : i.length ≤ size) :
    Reads n n g.prefixed (.mark operator :: i) (l :: o) (· = .step operator true e) := by
  refine (reads_takeMark _).bind fun token hkind => ?_
  have hoperand := h.operand (n := n) hw hstops hsize
  rw [hkind]
  cases operator <;> first | exact hoperand.bindEq (.pure rfl) | cases hoperator

/-! ## Operators after an operand -/

/-- A branch of a conditional that is not one itself. -/
theorem Understands.conditionalBranch (h : g.Understands size)
    (hw : Written (.enclosed e) i (l :: o)) (hstops : Precedence.logicalOr.stopsAt l.kind = true)
    (hl : l.kind ≠ .question) (hsize : i.length ≤ size) :
    Reads n n g.conditionalBranch i (l :: o) (· = e) := by
  refine (h.operand hw hstops hsize).bindEq (reads_peek.bind fun token htoken => ?_)
  have hkind : token.kind ≠ .question := fun hkind =>
    hl ((congrArg Lexeme.kind htoken).symm.trans hkind)
  rw [if_neg hkind]
  exact .pure rfl

/-- One turn of reading what binds at least as tightly as `tier`: an operator after `left`, or the
    end. -/
def operatorTurn (g : Grammar) (tier : Precedence) (left : Expression) :
    Parse (Turn Expression Expression) := do
  let token ← peek
  match Precedence.afterOperand? token.kind with
  | none => return .done left
  | some found =>
    if found.rank < tier.rank then
      return .done left
    else
      let _ ← take
      return .again (← g.extend left token found)

/-- An operation is an operand and a loop over operators. -/
theorem operation_eq (g : Grammar) (tier : Precedence) :
    g.operation tier = g.prefixed >>= iterate g.bound (g.operatorTurn tier) := rfl

/-- Where an operand ends. -/
theorem operatorTurn_stop (g : Grammar) {parser : Parser} {token : Token} {tokens : TokenStream}
    (hnext : parser.tokens.next = (.ok token, tokens)) (hstops : tier.stopsAt token.kind = true) :
    g.operatorTurn tier e parser =
      .ok (.done e) { parser with tokens := tokens.putBack token } := by
  unfold operatorTurn
  rw [EStateM.bind_apply, peek_of_next hnext]
  unfold Precedence.stopsAt at hstops
  dsimp only
  cases hfound : Precedence.afterOperand? token.kind with
  | none => rfl
  | some found =>
    rw [hfound, Bool.and_eq_true, decide_eq_true_eq] at hstops
    dsimp only
    rw [if_pos hstops.2]
    rfl

/-- The loop ends before what stops it. -/
theorem reads_stop (g : Grammar) (hstops : tier.stopsAt l.kind = true) :
    Reads n n (g.operatorTurn tier e) (l :: o) (l :: o) fun t => ∃ a, t = .done a ∧ a = e := by
  intro parser hn hoffers
  obtain ⟨token, tokens, hnext, rfl, hrest⟩ := hoffers
  exact ⟨_, _, operatorTurn_stop g hnext hstops, hn, hrest.putBack token, e, rfl, rfl⟩

/-- An operand alone. -/
theorem Understands.operationDone (h : g.Understands size)
    (hoperand : Reads n n g.prefixed i (l :: o) (· = e)) (hstops : tier.stopsAt l.kind = true) :
    Reads n n (g.operation tier) i (l :: o) (· = e) := by
  have hbound := h.bound
  obtain ⟨fuel, hfuel⟩ : ∃ fuel, g.bound = fuel + 1 := ⟨g.bound - 1, by omega⟩
  rw [operation_eq, hfuel]
  exact hoperand.bindEq (.iterateDone (reads_stop g hstops))

/-- An operand with one operator after it. -/
theorem Understands.operationExtended (h : g.Understands size) {left : Expression}
    {found : Precedence} {k : Lexeme} (hoperand : Reads n n g.prefixed i (l :: j) (· = left))
    (hfound : Precedence.afterOperand? l.kind = some found) (htier : tier.rank ≤ found.rank)
    (hextend : ∀ token : Token, token.lexeme = l →
      Reads n n (g.extend left token found) j (k :: o) (· = e))
    (hstops : tier.stopsAt k.kind = true) :
    Reads n n (g.operation tier) i (k :: o) (· = e) := by
  have hbound := h.bound
  obtain ⟨fuel, hfuel⟩ : ∃ fuel, g.bound = fuel + 2 := ⟨g.bound - 2, by omega⟩
  rw [operation_eq, hfuel]
  refine hoperand.bindEq (.iterateAgainEq (j := k :: o) (t := e)
    (reads_peek.bind fun token htoken => ?_) (.iterateDone (reads_stop g hstops)))
  have hkind : token.kind = l.kind := congrArg Lexeme.kind htoken
  rw [hkind, hfound]
  dsimp only
  rw [if_neg (Nat.not_lt.2 htier)]
  exact reads_take.bind fun _ _ => (hextend token htoken).bindEq (.pure rfl)

/-! ## Expressions -/

/-- A closing parenthesis stops every loop. -/
theorem stopsAt_rightParen (tier : Precedence) : tier.stopsAt .rightParen = true := rfl

/-- No operator binds looser than assignment. -/
theorem assignment_rank_le (tier : Precedence) : Precedence.assignment.rank ≤ tier.rank := by
  cases tier <;> decide

/-- An operand in parentheses with one operator after it, all in parentheses. -/
theorem Understands.enclosedExtended (h : g.Understands size) {left : Expression}
    {operator : Kind} (hw : Written (.enclosed left) i (.mark operator :: j))
    (hoperator : operator ≠ .lambda)
    (hfound : (Precedence.afterOperand? operator).isSome = true)
    (hextend : ∀ (token : Token) (found : Precedence), token.kind = operator →
      Reads n n (g.extend left token found) j (.mark .rightParen :: o) (· = e))
    (hsize : i.length ≤ size + 1) :
    Reads n n (g.operation .assignment) i (.mark .rightParen :: o) (· = e) := by
  obtain ⟨found, hfound⟩ := Option.isSome_iff_exists.1 hfound
  exact h.operationExtended (h.prefixedEnclosed hw hoperator hsize) hfound
    (assignment_rank_le found)
    (fun token htoken => hextend token found (congrArg Lexeme.kind htoken)) rfl

/-- An assignment with an operator is read as what it is short for. -/
theorem Understands.operatorAssign (h : g.Understands size) {target value : Expression}
    {assignment operator : Kind} (hassignment : assignment.assignOperator? = some operator)
    (hw : Written (.enclosed target) i (.mark assignment :: j))
    (hvalue : Written (.enclosed value) j (.mark .rightParen :: o)) (hsize : i.length ≤ size + 1) :
    Reads n n (g.operation .assignment) i (.mark .rightParen :: o)
      (· = .assign target (.binary operator target value)) := by
  have hlength := hw.length_le
  simp only [Phrase.least, List.length_cons] at hlength
  refine h.enclosedExtended hw ?_ ?_ (fun token found hkind => ?_) hsize
  · rintro rfl
    cases hassignment
  · cases assignment <;> first | rfl | cases hassignment
  · unfold Grammar.extend
    rw [hkind, hassignment]
    exact (h.operand hvalue rfl (by omega)).bindEq (.pure rfl)

/-- What a binary operator after an operand makes of it. -/
theorem extend_binary (g : Grammar) (left : Expression) {token : Token} (found : Precedence)
    (h : token.kind.isBinary = true) :
    g.extend left token found = do
      return .binary token.kind left
        (← g.expressionFrom (Precedence.ofRightOperand token.kind found)) := by
  unfold Grammar.extend
  generalize token.kind = kind at h ⊢
  cases kind <;> first | rfl | cases h

/-- A binary operator between operands in parentheses. -/
theorem Understands.binary (h : g.Understands size) {left right : Expression} {operator : Kind}
    (hoperator : operator.isBinary = true)
    (hw : Written (.enclosed left) i (.mark operator :: j))
    (hright : Written (.enclosed right) j (.mark .rightParen :: o)) (hsize : i.length ≤ size + 1) :
    Reads n n (g.operation .assignment) i (.mark .rightParen :: o)
      (· = .binary operator left right) := by
  have hlength := hw.length_le
  simp only [Phrase.least, List.length_cons] at hlength
  refine h.enclosedExtended hw ?_ ?_ (fun token found hkind => ?_) hsize
  · rintro rfl
    cases hoperator
  · cases operator <;> first | rfl | cases hoperator
  · have hread : ∀ tier, Reads n n (g.expressionFrom tier) j (.mark .rightParen :: o) (· = right) :=
      fun tier => h.operand hright (stopsAt_rightParen tier) (by omega)
    rw [extend_binary g left found (hkind ▸ hoperator), hkind]
    exact (hread _).bindEq (.pure rfl)

/-- A step after its operand. -/
theorem Understands.stepAfter (h : g.Understands size) {operator : Kind}
    (hoperator : operator.isStep = true)
    (hw : Written (.enclosed e) i (.mark operator :: .mark .rightParen :: o))
    (hsize : i.length ≤ size + 1) :
    Reads n n (g.operation .assignment) i (.mark .rightParen :: o)
      (· = .step operator false e) := by
  refine h.enclosedExtended hw ?_ ?_ (fun token found hkind => ?_) hsize
  · rintro rfl
    cases hoperator
  · cases operator <;> first | rfl | cases hoperator
  · unfold Grammar.extend
    rw [hkind]
    cases operator <;> first | exact .pure rfl | cases hoperator

/-- The head of a lambda begins with nothing that stands before an operand. -/
theorem exists_of_head (hw : Written (.head names) i o) :
    ∃ first j, i = first :: j ∧ isBefore first.kind = false := by
  cases hw with
  | bareHead => exact ⟨_, _, rfl, rfl⟩
  | head => exact ⟨_, _, rfl, rfl⟩

/-- A lambda. -/
theorem Understands.primaryLambda (h : g.Understands size) {k : List Lexeme}
    (hw : Written (.head names) i j)
    (hbody : ∀ tokens, contentsOf tokens = names → Reads n n (g.lambda tokens) j k (· = e))
    (hsize : i.length ≤ size + 1) : Reads n n g.primary i k (· = e) := by
  cases hw with
  | bareHead =>
    refine reads_take.bind fun token htoken => ?_
    rw [htoken]
    refine (reads_takeIf rfl).bindEq ?_
    exact hbody [token] (congrArg (fun l => [Lexeme.contents l]) htoken)
  | head hparams =>
    simp only [List.length_cons] at hsize
    refine reads_take.bind fun token htoken => ?_
    rw [htoken]
    refine (h.lambdaHead hparams (by omega)).bind fun result hresult => ?_
    obtain ⟨tokens, rfl, htokens⟩ := hresult
    exact hbody tokens htokens

/-- An expression, one level above what it consists of. -/
theorem Understands.expressionAbove (h : g.Understands size)
    (hw : Written (.bare e) i (.mark .rightParen :: o)) (hsize : i.length ≤ size + 1) :
    Reads n n (g.operation .assignment) i (.mark .rightParen :: o) (· = e) := by
  -- What is an operand by itself.
  have alone : ∀ {first i}, isBefore first.kind = false →
      Reads n n g.primary (first :: i) (.mark .rightParen :: o) (· = e) →
      Reads n n (g.operation .assignment) (first :: i) (.mark .rightParen :: o) (· = e) :=
    fun hfirst hprimary => h.operationDone (reads_prefixed hfirst hprimary) rfl
  cases hw with
  | nil => exact alone rfl (reads_take.bind fun token htoken => htoken ▸ .pure rfl)
  | isTrue => exact alone rfl (reads_take.bind fun token htoken => htoken ▸ .pure rfl)
  | isFalse => exact alone rfl (reads_take.bind fun token htoken => htoken ▸ .pure rfl)
  | number n hn =>
    refine alone rfl (reads_take.bind fun token htoken => ?_)
    rw [htoken]
    refine .pure ?_
    rw [Int64.ofNat_toNatClampNeg n hn]
  | string => exact alone rfl (reads_take.bind fun token htoken => htoken ▸ .pure rfl)
  | name =>
    refine alone rfl (reads_take.bind fun token htoken => ?_)
    rw [htoken]
    have hnext : (Lexeme.mark .rightParen).kind ≠ .lambda := by decide
    exact (reads_takeIf_not hnext).bindEq (.pure rfl)
  | unary hoperator he =>
    simp only [List.length_cons] at hsize
    exact h.operationDone (h.prefixedUnary hoperator he rfl (by omega)) rfl
  | stepBefore hoperator he =>
    simp only [List.length_cons] at hsize
    exact h.operationDone (h.prefixedStep hoperator he rfl (by omega)) rfl
  | stepAfter hoperator he => exact h.stepAfter hoperator he hsize
  | binary hoperator hleft hright => exact h.binary hoperator hleft hright hsize
  | conditional he hleft hright =>
    have hlength := he.length_le
    have hleftLength := hleft.length_le
    simp only [Phrase.least, List.length_cons] at hlength hleftLength
    refine h.enclosedExtended he (by decide) rfl (fun token found hkind => ?_) hsize
    unfold Grammar.extend
    rw [hkind]
    refine (h.conditionalBranch hleft rfl (by decide) (by omega)).bindEq ?_
    refine (reads_expectMark .colon).bind fun _ _ => ?_
    exact (h.conditionalBranch hright rfl (by decide) (by omega)).bindEq (.pure rfl)
  | construct he harguments =>
    simp only [List.length_cons] at hsize
    refine h.operationDone ((reads_takeMark _).bind fun token hkind => ?_) rfl
    rw [hkind]
    exact h.construction he (.inl ⟨rfl, harguments⟩) (by omega)
  | bareConstruct he =>
    simp only [List.length_cons] at hsize
    refine h.operationDone ((reads_takeMark _).bind fun token hkind => ?_) rfl
    rw [hkind]
    exact h.construction he (.inr ⟨rfl, rfl, rfl⟩) (by omega)
  | assign he hvalue =>
    have hlength := he.length_le
    simp only [Phrase.least, List.length_cons] at hlength
    refine h.enclosedExtended he (by decide) rfl (fun token found hkind => ?_) hsize
    unfold Grammar.extend
    rw [hkind]
    exact (h.operand hvalue rfl (by omega)).bindEq (.pure rfl)
  | operatorAssign hassignment he hvalue => exact h.operatorAssign hassignment he hvalue hsize
  | function hcode =>
    simp only [List.length_cons] at hsize
    refine alone rfl (reads_take.bind fun token htoken => ?_)
    rw [htoken]
    exact (h.functionRest hcode (by omega)).bindEq (.pure rfl)
  | lambda hnames hhead he =>
    have hlength := hhead.length_le
    have hprimary := h.primaryLambda (n := n) hhead (fun tokens htokens =>
      h.lambda hnames htokens he rfl (by simp only [Phrase.least] at hlength; omega)) hsize
    obtain ⟨first, j, rfl, hfirst⟩ := exists_of_head hhead
    exact alone hfirst hprimary
  | lambdaBlock hnames hhead hbody =>
    have hlength := hhead.length_le
    simp only [Phrase.least, List.length_cons] at hlength
    have hprimary := h.primaryLambda (n := n) hhead (fun tokens htokens =>
      h.lambdaBlock hnames htokens hbody (by omega)) hsize
    obtain ⟨first, j, rfl, hfirst⟩ := exists_of_head hhead
    exact alone hfirst hprimary
  | index he hkey =>
    have hlength := he.length_le
    simp only [Phrase.least, List.length_cons] at hlength
    refine h.enclosedExtended he (by decide) rfl (fun token found hkind => ?_) hsize
    unfold Grammar.extend
    rw [hkind]
    exact h.indexOf _ hkind hkey (by omega)
  | member _ he =>
    refine h.enclosedExtended he (by decide) rfl (fun token found hkind => ?_) hsize
    unfold Grammar.extend
    rw [hkind]
    exact reads_memberOf g _ _ hkind
  | call he harguments =>
    have hlength := he.length_le
    simp only [Phrase.least, List.length_cons] at hlength
    refine h.enclosedExtended he (by decide) rfl (fun token found hkind => ?_) hsize
    unfold Grammar.extend
    rw [hkind]
    exact (h.arguments (.inl rfl) harguments (by omega)).bindEq (.pure rfl)
  | object hkeys hentries =>
    simp only [List.length_cons] at hsize
    refine alone rfl (reads_take.bind fun token htoken => ?_)
    rw [htoken]
    exact h.objectRest hentries hkeys (by omega)
  | array helements =>
    simp only [List.length_cons] at hsize
    refine alone rfl (reads_take.bind fun token htoken => ?_)
    rw [htoken]
    exact (h.arguments (.inr rfl) helements (by omega)).bindEq (.pure rfl)

end Tao.Grammar
