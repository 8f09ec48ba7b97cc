/-
  Statements that are written are read.

  One lemma for each rule of the grammar, in the order of the grammar.  The parenthesis around the
  clauses of a loop is told from one around its test by what comes next: no expression begins with
  what the first clause begins with.
-/
import Tao.Parser.Statement
import Tao.Proofs.Parser.Understands.Expression

namespace Tao.Grammar

open Tao.Parser

variable {β : Type} {g : Grammar} {size n m : Nat} {i j k o : List Lexeme} {l : Lexeme}
  {e : Expression} {es : List Expression} {s : Statement} {inside : Bool}
  {body thenBody : List Statement} {init otherwise : Option Statement}
  {test increment : Option Expression} {P : β → Prop}

/-! ## Definitions and returns -/

theorem Understands.definition (h : g.Understands size) (hw : Written (.definition s) i o)
    (hsize : i.length ≤ size) : Reads n n g.definition i o (· = s) := by
  unfold Grammar.definition
  cases hw with
  | undefined =>
    have hnext : (Lexeme.mark .semicolon).kind ≠ .assign := by decide
    refine (reads_expectName _).bindEq ((reads_takeIf_not hnext).bindEq ?_)
    exact (reads_expectMark .semicolon).bind fun _ _ => .pure rfl
  | defined _ he =>
    simp only [List.length_cons] at hsize
    refine (reads_expectName _).bindEq ((reads_takeIf rfl).bindEq ?_)
    refine ((h.enclosed he rfl (by omega)).map (g := some)).bindEq ?_
    exact (reads_expectMark .semicolon).bind fun _ _ => .pure rfl

theorem reads_returning (g : Grammar) :
    Reads n n g.returning (.mark .semicolon :: o) o (· = .giveBack none) :=
  (reads_takeIf rfl).bindEq (.pure rfl)

theorem Understands.returning (h : g.Understands size)
    (hw : Written (.enclosed e) i (.mark .semicolon :: o)) (hsize : i.length ≤ size) :
    Reads n n g.returning i o (· = .giveBack (some e)) := by
  have hvalue := h.enclosed (n := n) hw rfl hsize
  have hopen : (Lexeme.mark .leftParen).kind ≠ .semicolon := by decide
  obtain ⟨j, rfl, -⟩ := exists_of_enclosed hw
  refine (reads_takeIf_not hopen).bindEq (hvalue.bindEq ?_)
  exact (reads_expectMark .semicolon).bind fun _ _ => .pure rfl

theorem Understands.bareExpression (h : g.Understands size)
    (hw : Written (.enclosed e) i (.mark .semicolon :: o)) (hsize : i.length ≤ size) :
    Reads n n g.bareExpression i o (· = .expression e) := by
  refine (h.enclosed hw rfl hsize).bindEq ?_
  exact (reads_expectMark .semicolon).bind fun _ _ => .pure rfl

/-! ## Loops -/

/-- The body of a loop, where a `break` is in place. -/
theorem Understands.loopBody (h : g.Understands size) (hw : Written (.block true body) i o)
    (hsize : i.length < size) : Reads n n g.loopBody (.mark .leftBrace :: i) o (· = body) := by
  refine (reads_expectMark .leftBrace).bind fun _ _ => ?_
  refine (Reads.setCount (· + 1)).bind fun _ _ => ?_
  exact (h.block hw (fun _ => Nat.succ_ne_zero n) hsize).afterwards (· - 1)

/-- Before the clauses of a loop a parenthesis is taken. -/
theorem reads_loopParen (hl : l.kind = .kwLet ∨ l.kind = .semicolon) :
    Reads n n loopParen (.mark .leftParen :: l :: o) (l :: o) (· = true) := by
  unfold loopParen
  refine (reads_takeMark _).bind fun token hkind => ?_
  rw [if_pos hkind]
  refine reads_peekKind.bind fun next hnextKind => ?_
  rw [hnextKind]
  rcases hl with hl | hl <;> rw [hl] <;> exact .pure rfl

/-- Before a test it is left. -/
theorem reads_loopParen_test (hlet : l.kind ≠ .kwLet) (hsemicolon : l.kind ≠ .semicolon) :
    Reads n n loopParen (.mark .leftParen :: l :: o) (.mark .leftParen :: l :: o) (· = false) := by
  unfold loopParen
  refine reads_take.bind fun token htoken => ?_
  have hkind : token.kind = .leftParen := congrArg Lexeme.kind htoken
  rw [if_pos hkind]
  refine reads_peekKind.bind fun next hnextKind => ?_
  rw [hnextKind, decide_eq_false hlet, decide_eq_false hsemicolon]
  exact (reads_putBack htoken).bind fun _ _ => .pure rfl

/-- Where no parenthesis comes, none is taken. -/
theorem reads_loopParen_not (hl : l.kind ≠ .leftParen) :
    Reads n n loopParen (l :: o) (l :: o) (· = false) := by
  unfold loopParen
  refine reads_take.bind fun token htoken => ?_
  have hkind : token.kind ≠ .leftParen :=
    fun hkind => hl ((congrArg Lexeme.kind htoken).symm.trans hkind)
  rw [if_neg hkind]
  exact (reads_putBack htoken).bind fun _ _ => .pure rfl

/-- The first clause, and whatever follows. -/
theorem Understands.firstClause (h : g.Understands size) (hw : Written (.init init) i j)
    (hsize : i.length ≤ size) {f : Option Statement → Parse β} (hrest : Reads n m (f init) j k P) :
    Reads n m (do
      if ← takeIf .kwLet then
        let init ← some <$> g.definition
        f init
      else
        let _ ← expect .semicolon
        let init ← pure none
        f init) i k P := by
  cases hw with
  | noInit =>
    have hnext : (Lexeme.mark .semicolon).kind ≠ .kwLet := by decide
    refine (reads_takeIf_not hnext).bindEq ?_
    exact (reads_expectMark .semicolon).bind fun _ _ => hrest
  | someInit hdefinition =>
    simp only [List.length_cons] at hsize
    refine (reads_takeIf rfl).bindEq ?_
    exact ((h.definition hdefinition (by omega)).map (g := some)).bindEq hrest

/-- Another clause up to what closes it, and whatever follows. -/
theorem Understands.clause (h : g.Understands size) {closing : Kind}
    (hclosing : closing = .semicolon ∨ closing = .rightParen ∨ closing = .leftBrace)
    (hw : Written (.clause test) i (.mark closing :: j)) (hsize : i.length ≤ size)
    {f : Option Expression → Parse β} (hrest : Reads n m (f test) (.mark closing :: j) k P) :
    Reads n m (do
      if ← nextIs closing then
        let test ← pure none
        f test
      else
        let test ← some <$> g.expression
        f test) i k P := by
  cases hw with
  | noClause =>
    refine (reads_nextIs closing).bindEq ?_
    have hkind : (Lexeme.mark closing).kind = closing := rfl
    rw [decide_eq_true hkind]
    exact hrest
  | someClause he =>
    have hstops : Precedence.assignment.stopsAt closing = true := by
      rcases hclosing with rfl | rfl | rfl <;> rfl
    have hopen : (Lexeme.mark .leftParen).kind ≠ closing := by
      rcases hclosing with rfl | rfl | rfl <;> decide
    have hvalue := h.enclosed (n := n) he hstops hsize
    obtain ⟨i, rfl, -⟩ := exists_of_enclosed he
    refine (reads_nextIs closing).bindEq ?_
    rw [decide_eq_false hopen]
    exact (hvalue.map (g := some)).bindEq hrest

/-- The first clause begins with `let` or is a semicolon alone. -/
theorem exists_of_init (hw : Written (.init init) i o) :
    ∃ l j, i = l :: j ∧ (l.kind = .kwLet ∨ l.kind = .semicolon) := by
  cases hw with
  | noInit => exact ⟨_, _, rfl, .inr rfl⟩
  | someInit => exact ⟨_, _, rfl, .inl rfl⟩

/-- A loop, by the form that it is written in. -/
theorem Understands.loop (h : g.Understands size)
    (hw : Written (.header init test increment) i (.mark .leftBrace :: j))
    (hbody : Written (.block true body) j o) (hsize : i.length ≤ size) :
    Reads n n g.loop i o (· = .loop init test increment body) := by
  have hlength := hw.length_le
  simp only [Phrase.least, List.length_cons] at hlength
  -- whatever the header, the body comes after it
  have hend : ∀ {init test increment}, Reads n n (do
      return Statement.loop init test increment (← g.loopBody)) (.mark .leftBrace :: j) o
      (· = .loop init test increment body) :=
    (h.loopBody hbody (by omega)).bindEq (.pure rfl)
  unfold Grammar.loop
  cases hw with
  | header hinit htest hincrement =>
    have hinitLength := hinit.length_le
    have htestLength := htest.length_le
    simp only [Phrase.least, List.length_cons] at hinitLength htestLength hsize
    obtain ⟨l, i, rfl, hl⟩ := exists_of_init hinit
    refine (reads_loopParen hl).bindEq (reads_peek.bind fun next hnext => ?_)
    refine h.firstClause hinit (by omega) (h.clause (.inl rfl) htest (by omega) ?_)
    refine (reads_expectMark .semicolon).bind fun _ _ => ?_
    refine h.clause (.inr (.inl rfl)) hincrement (by omega) ?_
    exact (reads_expectMark .rightParen).bind fun _ _ => hend
  | bareHeader hinit htest hincrement =>
    -- that it begins with `let` or a semicolon tells such a header from a test
    have hinitLength := hinit.length_le
    have htestLength := htest.length_le
    simp only [Phrase.least, List.length_cons] at hinitLength htestLength
    obtain ⟨l, i, rfl, hl⟩ := exists_of_init hinit
    have hopen : l.kind ≠ .leftParen := by
      intro hkind
      rw [hkind] at hl
      rcases hl with hl | hl <;> cases hl
    refine (reads_loopParen_not hopen).bindEq (reads_peekKind.bind fun next hkind => ?_)
    have hclauses : (decide (l.kind = .kwLet) || decide (l.kind = .semicolon)) = true := by
      rwa [Bool.or_eq_true, decide_eq_true_eq, decide_eq_true_eq]
    rw [Bool.false_or, hkind, hclauses]
    refine h.firstClause hinit hsize (h.clause (.inl rfl) htest (by omega) ?_)
    refine (reads_expectMark .semicolon).bind fun _ _ => ?_
    exact h.clause (.inr (.inr rfl)) hincrement (by omega) hend
  | testOnly he =>
    -- a parenthesis here belongs to the test, as no clause begins behind it
    obtain ⟨i, rfl, hbare⟩ := exists_of_enclosed he
    obtain ⟨first, i, rfl, hfirst⟩ := exists_of_bare hbare
    have hlet : first.kind ≠ .kwLet := by
      intro hkind
      rw [hkind] at hfirst
      cases hfirst
    have hsemicolon : first.kind ≠ .semicolon := by
      intro hkind
      rw [hkind] at hfirst
      cases hfirst
    refine (reads_loopParen_test hlet hsemicolon).bindEq (reads_peekKind.bind fun next hkind => ?_)
    rw [hkind]
    exact h.clause (.inr (.inr rfl)) (.someClause he) hsize hend
  | forever =>
    have hopen : (Lexeme.mark .leftBrace).kind ≠ .leftParen := by decide
    refine (reads_loopParen_not hopen).bindEq (reads_peekKind.bind fun next hkind => ?_)
    rw [hkind]
    exact h.clause (.inr (.inr rfl)) .noClause hsize hend

/-! ## Choices -/

theorem Understands.bracedBlock (h : g.Understands size) (hw : Written (.block inside body) i o)
    (hinside : inside = true → n ≠ 0) (hsize : i.length < size) :
    Reads n n g.bracedBlock (.mark .leftBrace :: i) o (· = body) :=
  (reads_expectMark .leftBrace).bind fun _ _ => h.block hw hinside hsize

/-- A conditional, one level above what it consists of. -/
theorem Understands.branching (h : g.Understands size)
    (hw : Written (.conditional inside e thenBody otherwise) i (l :: o))
    (hinside : inside = true → n ≠ 0) (hsize : i.length ≤ size) :
    Reads n n g.branching i (l :: o) (· = .branch e thenBody otherwise) := by
  cases hw with
  | noElse he hthen hl =>
    have hlength := he.length_le
    simp only [Phrase.least, List.length_cons] at hlength
    refine (h.enclosed he rfl hsize).bindEq ?_
    refine (h.bracedBlock hthen hinside (by omega)).bindEq ?_
    exact (reads_takeIf_not hl).bindEq (.pure rfl)
  | elseBlock he hthen helse =>
    have hlength := he.length_le
    have hthenLength := hthen.length_le
    simp only [Phrase.least, List.length_cons] at hlength hthenLength
    have hnext : (Lexeme.mark .leftBrace).kind ≠ .kwIf := by decide
    refine (h.enclosed he rfl hsize).bindEq ?_
    refine (h.bracedBlock hthen hinside (by omega)).bindEq ?_
    refine (reads_takeIf rfl).bindEq ((reads_takeIf_not hnext).bindEq ?_)
    exact (h.bracedBlock helse hinside (by omega)).bindEq (.pure rfl)
  | elseIf he hthen helse =>
    have hlength := he.length_le
    have hthenLength := hthen.length_le
    simp only [Phrase.least, List.length_cons] at hlength hthenLength
    refine (h.enclosed he rfl hsize).bindEq ?_
    refine (h.bracedBlock hthen hinside (by omega)).bindEq ?_
    refine (reads_takeIf rfl).bindEq ((reads_takeIf rfl).bindEq ?_)
    exact (h.conditional helse hinside (by omega)).bindEq (.pure rfl)

/-- After a group there is always something more. -/
theorem exists_of_groupBody (h : Written (.groupBody body) i o) : ∃ l j, i = l :: j := by
  cases h with
  | groupEnd => exact ⟨_, _, rfl⟩
  | groupStatement hs =>
    obtain ⟨l, j, rfl, -⟩ := exists_of_statement hs
    exact ⟨l, j, rfl⟩

/-- The statements of a group, up to what ends it. -/
theorem Understands.groupBody (h : g.Understands size) (hw : Written (.groupBody body) i o)
    (hinside : n ≠ 0) (hsize : i.length < size) :
    Reads n n g.groupBody i o (· = body) := by
  have hbound := h.bound
  -- what was read and what is still to come are together the whole body
  refine Reads.iterate (W := fun read i => ∃ rest, Written (.groupBody rest) i o ∧
    i.length < size ∧ read.reverse ++ rest = body) ?_ ⟨body, hw, hsize, rfl⟩ (by omega)
  rintro read i ⟨rest, hw, hsize, hall⟩
  cases hw with
  | @groupEnd l _ hl =>
    refine .inl (reads_peekKind.bind fun token hkind => ?_)
    have hends : l.kind = .kwCase ∨ l.kind = .kwDefault ∨ l.kind = .rightBrace := by
      revert hl
      cases l.kind <;> decide
    rw [List.append_nil] at hall
    rw [hkind]
    rcases hends with hends | hends | hends <;> rw [hends] <;> exact .pure ⟨_, rfl, hall⟩
  | @groupStatement s _ j rest _ hs hrest =>
    have hlength := hs.length_le
    simp only [Phrase.least] at hlength
    obtain ⟨l, j, rfl⟩ := exists_of_groupBody hrest
    obtain ⟨first, _, rfl, hends, -⟩ := exists_of_statement hs
    refine .inr ⟨l :: j, by omega, reads_peekKind.bind fun token hkind => ?_⟩
    have hread : (s :: read).reverse ++ rest = body := by
      rw [List.reverse_cons, ← List.append_cons, hall]
    rw [hkind]
    split
    case h_4 =>
      exact (h.statement hs (fun _ => hinside) hsize).bindEq
        (.pure ⟨_, rfl, rest, hrest, by omega, hread⟩)
    all_goals
      rw [‹first.kind = _›] at hends
      cases hends

/-- A label is followed by a colon, or by a comma and further labels. -/
theorem exists_of_labels (h : Written (.labels es) i o) :
    ∃ e rest l j, es = e :: rest ∧ Written (.enclosed e) i (l :: j) ∧
      (l = .mark .colon ∧ j = o ∧ rest = [] ∨ l = .mark .comma ∧ Written (.labels rest) j o) := by
  cases h with
  | lastLabel he => exact ⟨_, _, _, _, rfl, he, .inl ⟨rfl, rfl, rfl⟩⟩
  | label he hrest => exact ⟨_, _, _, _, rfl, he, .inr ⟨rfl, hrest⟩⟩

/-- The labels of a group, up to the colon. -/
theorem Understands.groupLabels (h : g.Understands size) (hw : Written (.labels es) i o)
    (hsize : i.length ≤ size) : Reads n n g.groupLabels i (.mark .colon :: o) (· = es) := by
  have hcolon : (Lexeme.mark .colon).kind ≠ .comma := by decide
  have hstops : ∀ {l : Lexeme} {j rest}, (l = .mark .colon ∧ j = o ∧ rest = [] ∨
      l = .mark .comma ∧ Written (.labels rest) j o) →
      Precedence.assignment.stopsAt l.kind = true := by
    rintro l j rest (⟨rfl, -⟩ | ⟨rfl, -⟩) <;> rfl
  obtain ⟨first, rest, l, j, rfl, he, hmore⟩ := exists_of_labels hw
  have hbound := h.bound
  have hlength := he.length_le
  simp only [Phrase.least, List.length_cons] at hlength
  refine (h.enclosed he (hstops hmore) hsize).bindEq ?_
  refine Reads.iterate (W := fun read i => ∃ rest' l j, i = l :: j ∧
      (l = .mark .colon ∧ j = o ∧ rest' = [] ∨ l = .mark .comma ∧ Written (.labels rest') j o) ∧
      j.length ≤ size ∧ read.reverse ++ rest' = first :: rest)
    ?_ ⟨rest, l, j, rfl, hmore, by omega, rfl⟩ (by simp only [List.length_cons]; omega)
  rintro read _ ⟨rest', l, j, rfl, ⟨rfl, rfl, rfl⟩ | ⟨rfl, hrest⟩, hsize, hall⟩
  · refine .inl ((reads_takeIf_not hcolon).bindEq (.pure ⟨_, rfl, ?_⟩))
    rw [← hall, List.append_nil]
  · obtain ⟨e, rest', l, k, rfl, he, hmore⟩ := exists_of_labels hrest
    have hlength := he.length_le
    simp only [Phrase.least, List.length_cons] at hlength
    refine .inr ⟨l :: k, by simp only [List.length_cons]; omega, ?_⟩
    refine (reads_takeIf rfl).bindEq ((h.enclosed he (hstops hmore) hsize).bindEq ?_)
    refine .pure ⟨_, rfl, rest', l, k, rfl, hmore, by omega, ?_⟩
    rw [List.reverse_cons, ← List.append_cons, hall]

/-- A choice, group by group, with the default where it is written. -/
theorem Understands.choice (h : g.Understands size) {groups : List CaseGroup}
    {other : Option (List Statement)} (hw : Written (.enclosed e) i (.mark .leftBrace :: j))
    (hgroups : Written (.groups groups other) j o) (hsize : i.length ≤ size) :
    Reads n n g.choice i o (· = .choose e groups other) := by
  have hbound := h.bound
  have hlength := hw.length_le
  simp only [Phrase.least, List.length_cons] at hlength
  refine (h.enclosed hw rfl hsize).bindEq ((reads_expectMark .leftBrace).bind fun _ _ => ?_)
  refine (Reads.setCount (· + 1)).bind fun _ _ => ?_
  -- inside of the braces the count is one higher; a default was read, or one may come, not both
  refine Reads.bindEq (m := n + 1) (j := o) (a := (groups, other))
    (Reads.iterate (W := fun read i => ∃ rest restOther, Written (.groups rest restOther) i o ∧
      i.length < size ∧ (read.2 = none ∨ restOther = none) ∧
      (read.1.reverse ++ rest, read.2.or restOther) = (groups, other))
      ?_ ⟨groups, other, hgroups, by omega, .inl rfl, rfl⟩ (by omega))
    ((Reads.setCount (· - 1)).bind fun _ _ => .pure rfl)
  rintro ⟨before, otherwise⟩ i ⟨rest, restOther, hw, hsize, hother, hall⟩
  cases hw with
  | groupsEnd =>
    refine .inl ((reads_takeMark _).bind fun token hkind => ?_)
    rw [hkind]
    rw [List.append_nil, Option.or_none] at hall
    exact .pure ⟨_, rfl, hall⟩
  | @group es i j body k rest _ _ hlabels hbody hrest =>
    have hlabelsLength := hlabels.length_le
    have hbodyLength := hbody.length_le
    simp only [Phrase.least, List.length_cons] at hlabelsLength hbodyLength hsize
    have hread : ((CaseGroup.mk es body :: before).reverse ++ rest, otherwise.or restOther) =
        (groups, other) := by
      rw [List.reverse_cons, ← List.append_cons, hall]
    refine .inr ⟨k, by simp only [List.length_cons]; omega, ?_⟩
    refine (reads_takeMark _).bind fun token hkind => ?_
    rw [hkind]
    refine (h.groupLabels hlabels (by omega)).bindEq ((reads_expectMark .colon).bind fun _ _ => ?_)
    refine (h.groupBody hbody (Nat.succ_ne_zero n) (by omega)).bindEq ?_
    exact .pure ⟨_, rfl, rest, restOther, hrest, by omega, hother, hread⟩
  | @default body i j rest _ hbody hrest =>
    have hbodyLength := hbody.length_le
    simp only [Phrase.least, List.length_cons] at hbodyLength hsize
    obtain rfl : otherwise = none := hother.resolve_right (Option.some_ne_none _)
    refine .inr ⟨j, by simp only [List.length_cons]; omega, ?_⟩
    refine (reads_takeMark _).bind fun token hkind => ?_
    rw [hkind]
    refine (reads_expectMark .colon).bind fun _ _ => ?_
    refine (h.groupBody hbody (Nat.succ_ne_zero n) (by omega)).bindEq ?_
    exact .pure ⟨_, rfl, rest, none, hrest, by omega, .inr rfl, hall⟩

/-! ## All statements -/

theorem reads_breakable : Reads n n get o o (·.breakable = n) :=
  fun parser hn hoffers => ⟨parser, parser, rfl, hn, hoffers, hn⟩

/-- A statement, one level above what it consists of. -/
theorem Understands.anyStatement (h : g.Understands size)
    (hw : Written (.statement inside s) i (l :: o)) (hinside : inside = true → n ≠ 0)
    (hsize : i.length ≤ size) : Reads n n g.anyStatement i (l :: o) (· = s) := by
  unfold Grammar.anyStatement
  -- The first token tells what comes.
  cases hw with
  | empty =>
    refine (reads_takeMark _).bind fun token hkind => ?_
    rw [hkind]
    exact .pure rfl
  | define hdefinition =>
    simp only [List.length_cons] at hsize
    refine (reads_takeMark _).bind fun token hkind => ?_
    rw [hkind]
    exact h.definition hdefinition (by omega)
  | functionStatement hcode =>
    simp only [List.length_cons] at hsize
    have hrest := h.functionRest (n := n) hcode (by omega)
    cases hcode with
    | named =>
      refine (reads_takeMark _).bind fun token hkind => ?_
      rw [hkind]
      refine (reads_nextIs .identifier).bindEq ?_
      exact hrest.bindEq (.pure rfl)
  | giveNothing =>
    refine (reads_takeMark _).bind fun token hkind => ?_
    rw [hkind]
    exact reads_returning g
  | giveBack he =>
    simp only [List.length_cons] at hsize
    refine (reads_takeMark _).bind fun token hkind => ?_
    rw [hkind]
    exact h.returning he (by omega)
  | block hbody =>
    simp only [List.length_cons] at hsize
    refine (reads_takeMark _).bind fun token hkind => ?_
    rw [hkind]
    exact (h.block hbody hinside (by omega)).bindEq (.pure rfl)
  | expression he =>
    have hrest := h.bareExpression (n := n) he hsize
    obtain ⟨j, rfl, -⟩ := exists_of_enclosed he
    refine reads_take.bind fun token htoken => ?_
    have hkind : token.kind = .leftParen := congrArg Lexeme.kind htoken
    rw [hkind]
    exact (reads_putBack htoken).bind fun _ _ => hrest
  | leave =>
    refine (reads_takeMark _).bind fun token hkind => ?_
    rw [hkind]
    refine reads_breakable.bind fun parser hparser => ?_
    have hbreakable : parser.breakable ≠ 0 := hparser ▸ hinside rfl
    rw [if_neg hbreakable]
    exact (reads_expectMark .semicolon).bind fun _ _ => .pure rfl
  | branch hconditional =>
    simp only [List.length_cons] at hsize
    refine (reads_takeMark _).bind fun token hkind => ?_
    rw [hkind]
    exact h.branching hconditional hinside (by omega)
  | loop hheader hbody =>
    simp only [List.length_cons] at hsize
    refine (reads_takeMark _).bind fun token hkind => ?_
    rw [hkind]
    exact h.loop hheader hbody (by omega)
  | choose he hgroups =>
    simp only [List.length_cons] at hsize
    refine (reads_takeMark _).bind fun token hkind => ?_
    rw [hkind]
    exact h.choice he hgroups (by omega)

end Tao.Grammar
