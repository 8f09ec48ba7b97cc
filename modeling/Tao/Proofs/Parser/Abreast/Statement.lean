/-
  Statements abreast.

  Grammars that are joined go abreast in all their statements, and a level above them is joined as
  well.  So two grammars of levels are joined if the right one has at least as many levels:
  `joins_ofFuel`.

  A definition ends with a semicolon or with a brace, which both have taken: that is how a statement
  outside of every function is known to end where both are together.
-/
import Tao.Proofs.Parser.Abreast.Expression

namespace Tao

open Tao.Parser

namespace Bond.Joins

variable {B : Bond} {g g' : Grammar} {m : Mode} {left : Nat}

/-- A definition ends with a semicolon, so both are together after it. -/
theorem definition (h : B.Joins g g') (hleft : 2 * left + 2 ≤ g.bound) :
    B.Abreast m left g.definition g'.definition (.closed left) := by
  refine Abreast.expectName.bind ?_
  rintro m named name _ ⟨rfl, hnamed⟩
  refine (Abreast.takeIf (by decide)).bind ?_
  rintro m found equals _ ⟨rfl, hfound, -⟩
  extract_lets rest
  have hrest : ∀ m before e, before < left →
      B.Abreast m before (rest e) (rest e) (.closed left) := by
    intro m before e hbefore
    refine (Abreast.expect (by decide)).bind ?_
    rintro m last t t' ⟨hmatches, hkind, hlast⟩
    exact .pure ⟨rfl, by omega, hmatches.together (hkind ▸ rfl)⟩
  split
  · refine Abreast.bind (Q := .below found) (.map (h.expression (by omega)) ?_) ?_
    · rintro m after e _ ⟨rfl, hafter⟩
      exact ⟨rfl, hafter⟩
    · rintro m after e _ ⟨rfl, hafter⟩
      exact hrest m after e (by omega)
  · refine Abreast.bind (Q := .atMost found) (.pure ⟨rfl, Nat.le_refl _⟩) ?_
    rintro m after e _ ⟨rfl, hafter⟩
    exact hrest m after e (by omega)

/-- So they are after a `return`. -/
theorem returning (h : B.Joins g g') (hleft : 2 * left + 2 ≤ g.bound) :
    B.Abreast m left g.returning g'.returning (.statement left) := by
  refine (Abreast.takeIf (by decide)).bind ?_
  rintro m found empty _ ⟨rfl, hfound, hempty⟩
  split
  · next hyes =>
    obtain ⟨hless, -⟩ := hempty hyes
    exact .pure ⟨rfl, hless, nofun⟩
  · refine (h.expression (by omega)).bind ?_
    rintro m after e _ ⟨rfl, hafter⟩
    refine (Abreast.expect (by decide)).bind ?_
    rintro m last _ _ ⟨-, -, hlast⟩
    exact .pure ⟨rfl, by omega, nofun⟩

/-- So they are after an expression that is a statement. -/
theorem bareExpression (h : B.Joins g g') (hleft : 2 * left + 1 ≤ g.bound) :
    B.Abreast m left g.bareExpression g'.bareExpression (.statement left) := by
  refine (h.expression hleft).bind ?_
  rintro m after e _ ⟨rfl, hafter⟩
  refine (Abreast.expect (by decide)).bind ?_
  rintro m last _ _ ⟨-, -, hlast⟩
  exact .pure ⟨rfl, by omega, nofun⟩

/-! ## Loops -/

theorem bracedBlock (h : B.Joins g g') (hleft : 2 * left + 2 ≤ g.bound) :
    B.Abreast m left g.bracedBlock g'.bracedBlock (.below left) := by
  refine (Abreast.expect (by decide)).bind ?_
  rintro m opened _ _ ⟨-, -, hopened⟩
  refine (h.block (by omega)).imp ?_
  rintro m last body _ ⟨rfl, hlast, -⟩
  exact ⟨rfl, by omega⟩

/-- In the body of a loop the count is raised on both sides. -/
theorem loopBody (h : B.Joins g g') (hleft : 2 * left + 2 ≤ g.bound) :
    B.Abreast m left g.loopBody g'.loopBody (.below left) := by
  refine (Abreast.expect (by decide)).bind ?_
  rintro m opened _ _ ⟨-, -, hopened⟩
  refine (Abreast.setCount (· + 1)).bind ?_
  rintro m inside _ _ ⟨-, hinside⟩
  refine Abreast.imp (Q := .closed inside) ?_ ?_
  · intro p p' hat hp
    refine Abreast.afterwards (h.block (by omega) p p' hat hp) (fun _ => rfl) (fun _ => rfl) ?_
    intro _ p p' hcount
    exact congrArg (· - 1) hcount
  · rintro m last body _ ⟨rfl, hlast, -⟩
    exact ⟨rfl, by omega⟩

/-- The parenthesis of a loop is taken or put back. -/
theorem loopParen : B.Abreast m left Grammar.loopParen Grammar.loopParen (.atMost left) := by
  refine Abreast.take.bind ?_
  rintro m after t t' htaken
  have hcount := htaken.2
  have hmatches := htaken.1
  rw [hmatches.kind]
  extract_lets rest rest'
  have hrest : ∀ m before, before ≤ after → B.Matches m t t' →
      B.Abreast m before (rest ()) (rest' ()) (.atMost left) := by
    intro m before hbefore hmatches
    refine (Abreast.putBack hmatches).bind ?_
    rintro m back _ _ ⟨-, hback⟩
    exact .pure ⟨rfl, by omega⟩
  split
  · next hkind =>
    refine Abreast.peek.bind ?_
    rintro m back u u' ⟨hu, hback⟩
    rw [hu.kind]
    split
    · exact .pure ⟨rfl, by omega⟩
    · exact hrest m back hback (.ofToken hmatches.token hkind nofun rfl m)
  · exact hrest m after (Nat.le_refl _) hmatches

/-- An expression that is there unless a token of some kind is next. -/
theorem clause (h : B.Joins g g') (closing : Kind) {α : Type} {Q : Claim α}
    {rest rest' : Option Expression → Parse α} (hleft : 2 * left + 1 ≤ g.bound)
    (hrest : ∀ m after e, after ≤ left → B.Abreast m after (rest e) (rest' e) Q) :
    B.Abreast m left
      (do
        if ← nextIs closing then
          let e ← pure none
          rest e
        else
          let e ← some <$> g.expression
          rest e)
      (do
        if ← nextIs closing then
          let e ← pure none
          rest' e
        else
          let e ← some <$> g'.expression
          rest' e) Q := by
  refine (Abreast.nextIs _).bind ?_
  rintro m seen missing _ ⟨rfl, hseen⟩
  split
  · refine Abreast.bind (Q := .atMost seen) (.pure ⟨rfl, Nat.le_refl _⟩) ?_
    rintro m after e _ ⟨rfl, hafter⟩
    exact hrest m after e (by omega)
  · refine Abreast.bind (Q := .below seen) (.map (h.expression (by omega)) ?_) ?_
    · rintro m after e _ ⟨rfl, hafter⟩
      exact ⟨rfl, hafter⟩
    · rintro m after e _ ⟨rfl, hafter⟩
      exact hrest m after e (by omega)

/-- A loop, by the clauses that it has. -/
theorem loop (h : B.Joins g g') (hleft : 2 * left + 2 ≤ g.bound) :
    B.Abreast m left g.loop g'.loop (.statement left) := by
  have hbody : ∀ {m before} init test increment, before ≤ left →
      B.Abreast m before (g.loopBody >>= fun body => pure (.loop init test increment body))
        (g'.loopBody >>= fun body => pure (.loop init test increment body)) (.statement left) := by
    intro m before init test increment hbefore
    refine (h.loopBody (by omega)).bind ?_
    rintro m last body _ ⟨rfl, hlast⟩
    exact .pure ⟨rfl, by omega, nofun⟩
  refine loopParen.bind ?_
  rintro m opened paren _ ⟨rfl, hopened⟩
  refine Abreast.peek.bind ?_
  rintro m seen t t' ⟨hmatches, hseen⟩
  rw [hmatches.kind]
  split
  -- clauses
  · refine (Abreast.takeIf (by decide)).bind ?_
    rintro m found defines _ ⟨rfl, hfound, -⟩
    extract_lets closing rest rest'
    have hrest : ∀ m before init, before ≤ left →
        B.Abreast m before (rest init) (rest' init) (.statement left) := by
      intro m before init hbefore
      refine h.clause _ (by omega) fun m tested test htested => ?_
      refine (Abreast.expect (by decide)).bind ?_
      rintro m next _ _ ⟨-, -, hnext⟩
      refine h.clause _ (by omega) fun m stepped increment hstepped => ?_
      split
      · refine (Abreast.expect (by decide)).bind ?_
        rintro m last _ _ ⟨-, -, hlast⟩
        exact hbody init test increment (by omega)
      · exact hbody init test increment (by omega)
    split
    · refine Abreast.bind (Q := .below found) (.map (h.definition (by omega)) ?_) ?_
      · rintro m after s _ ⟨rfl, hafter, -⟩
        exact ⟨rfl, hafter⟩
      · rintro m after init _ ⟨rfl, hafter⟩
        exact hrest m after init (by omega)
    · refine (Abreast.expect (by decide)).bind ?_
      rintro m next _ _ ⟨-, -, hnext⟩
      refine Abreast.bind (Q := .atMost next) (.pure ⟨rfl, Nat.le_refl _⟩) ?_
      rintro m after init _ ⟨rfl, hafter⟩
      exact hrest m after init (by omega)
  -- a test alone
  · refine h.clause _ (by omega) fun m tested test htested => ?_
    exact hbody none test none (by omega)

/-! ## Choices -/

/-- An `if` with its `else`, which may be followed by another `if`. -/
theorem branching (h : B.Joins g g') (hleft : 2 * left + 1 ≤ g.bound) :
    B.Abreast m left g.branching g'.branching (.statement left) := by
  refine (h.expression hleft).bind ?_
  rintro m tested condition _ ⟨rfl, htested⟩
  refine (h.bracedBlock (by omega)).bind ?_
  rintro m done thenBody _ ⟨rfl, hdone⟩
  refine (Abreast.takeIf (by decide)).bind ?_
  rintro m found more _ ⟨rfl, hfound, -⟩
  split
  · refine (Abreast.takeIf (by decide)).bind ?_
    rintro m next chained _ ⟨rfl, hnext, -⟩
    split
    · refine (h.conditional m next (by omega)).bind ?_
      rintro m last s _ ⟨rfl, hlast, -⟩
      exact .pure ⟨rfl, by omega, nofun⟩
    · refine (h.bracedBlock (by omega)).bind ?_
      rintro m last body _ ⟨rfl, hlast⟩
      exact .pure ⟨rfl, by omega, nofun⟩
  · exact .pure ⟨rfl, by omega, nofun⟩

/-- The statements of a group, up to a token that is put back. -/
theorem groupBody (h : B.Joins g g') (hleft : 2 * left + 2 ≤ g.bound) :
    B.Abreast m left g.groupBody g'.groupBody (.atMost left) := by
  refine .iterate (I := .atMost left) ?_ ⟨rfl, Nat.le_refl _⟩ (by omega) h.bound
  rintro m rest read _ ⟨rfl, hrest⟩
  refine Abreast.peek.bind ?_
  rintro m seen t t' ⟨hmatches, hseen⟩
  rw [hmatches.kind]
  split
  case h_4 =>
    refine (h.statement m seen (by omega)).bind ?_
    rintro m after s _ ⟨rfl, hafter, -⟩
    exact .pure ⟨by omega, rfl, by omega⟩
  all_goals exact .pure ⟨rfl, by omega⟩

/-- Its labels, with commas between them. -/
theorem groupLabels (h : B.Joins g g') (hleft : 2 * left + 2 ≤ g.bound) :
    B.Abreast m left g.groupLabels g'.groupLabels (.below left) := by
  refine (h.expression (by omega)).bind ?_
  rintro m first e _ ⟨rfl, hfirst⟩
  refine .iterate (I := .atMost first) ?_ ⟨rfl, Nat.le_refl _⟩ (by omega) h.bound
  rintro m rest read _ ⟨rfl, hrest⟩
  refine (Abreast.takeIf (by decide)).bind ?_
  rintro m found more _ ⟨rfl, hfound, hmore⟩
  split
  · refine (h.expression (by omega)).bind ?_
    rintro m after e _ ⟨rfl, hafter⟩
    exact .pure ⟨by omega, rfl, by omega⟩
  · exact .pure ⟨rfl, by omega⟩

/-- A choice, group by group.  The default may be met once. -/
theorem choice (h : B.Joins g g') (hleft : 2 * left + 2 ≤ g.bound) :
    B.Abreast m left g.choice g'.choice (.statement left) := by
  refine (h.expression (by omega)).bind ?_
  rintro m named subject _ ⟨rfl, hnamed⟩
  refine (Abreast.expect (by decide)).bind ?_
  rintro m opened _ _ ⟨-, -, hopened⟩
  refine (Abreast.setCount (· + 1)).bind ?_
  rintro m inside _ _ ⟨-, hinside⟩
  refine Abreast.bind (Q := .below inside) (.iterate (I := .atMost inside) ?_
    ⟨rfl, Nat.le_refl _⟩ (by omega) h.bound) ?_
  · rintro m rest ⟨groups, otherwise⟩ _ ⟨rfl, hrest⟩
    refine Abreast.take.bind ?_
    rintro m after t t' htaken
    have hmatches := htaken.1
    rw [hmatches.kind]
    dsimp only
    split
    -- the closing brace
    · next hkind =>
      have hafter := less_of_kind htaken hkind nofun
      exact .pure ⟨rfl, by omega⟩
    -- a group
    · next hkind =>
      have hafter := less_of_kind htaken hkind nofun
      refine (h.groupLabels (by omega)).bind ?_
      rintro m next labels _ ⟨rfl, hnext⟩
      refine (Abreast.expect (by decide)).bind ?_
      rintro m colon _ _ ⟨-, -, hcolon⟩
      refine (h.groupBody (by omega)).bind ?_
      rintro m last body _ ⟨rfl, hlast⟩
      exact .pure ⟨by omega, rfl, by omega⟩
    -- the default
    · next hkind =>
      have hafter := less_of_kind htaken hkind nofun
      split
      · exact .failBind (B.error_of_token hmatches.token _)
      · refine (Abreast.expect (by decide)).bind ?_
        rintro m colon _ _ ⟨-, -, hcolon⟩
        refine (h.groupBody (by omega)).bind ?_
        rintro m last body _ ⟨rfl, hlast⟩
        exact .pure ⟨by omega, rfl, by omega⟩
    · exact .unexpected hmatches _
  · rintro m last ⟨groups, otherwise⟩ _ ⟨rfl, hlast⟩
    refine (Abreast.setCount (· - 1)).bind ?_
    rintro m after _ _ ⟨-, hafter⟩
    exact .pure ⟨rfl, by omega, nofun⟩

/-! ## All statements -/

/-- Both have counted the same loops and switches. -/
theorem getCount : B.Abreast m left (get : Parse Parser) get
    fun _ after p p' => p.breakable = p'.breakable ∧ after ≤ left := by
  intro p p' hat hp
  subst hp
  cases m with
  | together => exact .inl ⟨rfl, p', p', rfl, hat, hat.2, Nat.le_refl _⟩
  | alone => exact .inr ⟨hat, p, rfl, Nat.le_refl _⟩

/-- All statements, by the token that they begin with. -/
theorem anyStatement (h : B.Joins g g') (hleft : 2 * left + 1 ≤ g.bound) :
    B.Abreast m left g.anyStatement g'.anyStatement (.statement left) := by
  refine Abreast.take.bind ?_
  rintro m after t t' htaken
  have hmatches := htaken.1
  have hcount := htaken.2
  -- What follows a token leaves less than before it.
  have hlater : ∀ {m} {x x' : Parse Statement}, after < left →
      B.Abreast m after x x' (.statement after) → B.Abreast m after x x' (.statement left) := by
    intro m x x' hafter hx
    refine hx.imp ?_
    rintro m last s _ ⟨rfl, hlast, htogether⟩
    exact ⟨rfl, by omega, htogether⟩
  have hexpression : ∀ {m before}, before ≤ after → B.Matches m t t' →
      B.Abreast m before (putBack t >>= fun _ => g.bareExpression)
        (putBack t' >>= fun _ => g'.bareExpression) (.statement left) := by
    intro m before hbefore hmatches
    refine (Abreast.putBack hmatches).bind ?_
    rintro _ back _ _ ⟨rfl, hback⟩
    refine (h.bareExpression (by omega)).imp ?_
    rintro m last s _ ⟨rfl, hlast, htogether⟩
    exact ⟨rfl, by omega, htogether⟩
  rw [hmatches.kind]
  split
  · next hkind =>
    exact .pure ⟨rfl, less_of_kind htaken hkind nofun, fun _ => hmatches.together (hkind ▸ rfl)⟩
  · next hkind =>
    have hafter := less_of_kind htaken hkind nofun
    refine (h.definition (by omega)).imp ?_
    rintro m last s _ ⟨rfl, hlast, htogether⟩
    exact ⟨rfl, by omega, fun _ => htogether⟩
  · next hkind =>
    have hafter := less_of_kind htaken hkind nofun
    refine (Abreast.nextIs _).bind ?_
    rintro m seen named _ ⟨rfl, hseen⟩
    split
    · refine (h.functionRest (by omega)).bind ?_
      rintro m last code _ ⟨rfl, hlast, htogether⟩
      exact .pure ⟨rfl, by omega, fun _ => htogether⟩
    · exact hexpression hseen (.ofToken hmatches.token hkind nofun rfl m)
  · next hkind =>
    have hafter := less_of_kind htaken hkind nofun
    exact hlater hafter (h.returning (by omega))
  · next hkind =>
    have hafter := less_of_kind htaken hkind nofun
    refine (h.block (by omega)).bind ?_
    rintro m last body _ ⟨rfl, hlast, -⟩
    exact .pure ⟨rfl, by omega, nofun⟩
  · next hkind =>
    have hafter := less_of_kind htaken hkind nofun
    exact hlater hafter (h.loop (by omega))
  · next hkind =>
    have hafter := less_of_kind htaken hkind nofun
    refine getCount.bind ?_
    rintro m same p p' ⟨hbreakable, hsame⟩
    rw [← hbreakable]
    extract_lets rest
    split
    · exact .failBind (B.error_of_token hmatches.token _)
    · refine (Abreast.expect (by decide)).bind ?_
      rintro m last _ _ ⟨-, -, hlast⟩
      exact .pure ⟨rfl, by omega, nofun⟩
  · next hkind =>
    have hafter := less_of_kind htaken hkind nofun
    exact hlater hafter (h.branching (by omega))
  · next hkind =>
    have hafter := less_of_kind htaken hkind nofun
    exact hlater hafter (h.choice (by omega))
  · exact hexpression (Nat.le_refl _) hmatches

end Bond.Joins

/-! ## Levels -/

/-- Grammars of levels are joined if the right one has at least as many.  Induction on the levels of
    the left one, which must not run out. -/
theorem Bond.joins_ofFuel (B : Bond) {n n' : Nat} (hle : n ≤ n') :
    B.Joins (Grammar.ofFuel n) (Grammar.ofFuel n') := by
  induction n generalizing n' with
  | zero =>
    have hnone : ∀ {k : Nat}, ¬ k + 1 ≤ (Grammar.ofFuel 0).bound := Nat.not_succ_le_zero _
    exact ⟨hle, fun _ _ h => absurd h hnone, fun _ _ h => absurd h hnone,
      fun _ _ _ h => absurd h hnone⟩
  | succ n ih =>
    obtain ⟨n', rfl⟩ : ∃ k, n' = k + 1 := ⟨n' - 1, by omega⟩
    have hjoins := ih (Nat.le_of_succ_le_succ hle)
    constructor
    · exact hle
    · intro m left hleft
      rw [Grammar.statement_succ, Grammar.statement_succ]
      exact hjoins.anyStatement (Nat.le_of_succ_le_succ hleft)
    · intro m left hleft
      rw [Grammar.conditional_succ, Grammar.conditional_succ]
      exact hjoins.branching (Nat.le_of_succ_le_succ hleft)
    · intro m left tier hleft
      rw [Grammar.expressionFrom_succ, Grammar.expressionFrom_succ]
      exact hjoins.operation tier (Nat.le_of_succ_le_succ hleft)

end Tao
