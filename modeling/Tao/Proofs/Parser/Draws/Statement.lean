/-
  The price of statements and scripts.

  One lemma for each rule, as for expressions; `thrifty_ofFuel` ties the knot by induction on the
  levels.  What is left of a stream pays for a whole script, apart from five tokens, however it
  ends.
-/
import Tao.Proofs.Parser.Abreast.Script
import Tao.Proofs.Parser.Draws.Expression

namespace Tao

open Tao.Parser

namespace Grammar

variable {g : Grammar} {left credit : Nat}

/-- A definition takes its name for good. -/
theorem Thrifty.definition (h : g.Thrifty) (spare : Nat) (hspare : 2 ≤ spare)
    (hcredit : price left + spare ≤ credit) :
    Affords left credit g.definition (Paid left spare) := by
  refine (Affords.expectName (by omega)).bind ?_
  rintro named saved name ⟨hspent, hnamed, hgain⟩
  refine (Affords.takeIf (by decide) (by omega)).bind ?_
  rintro found saved equals ⟨⟨hspent, hfound, hprice⟩, -⟩
  extract_lets rest
  have hrest : ∀ {before saved} e, before < left → price before + (spare + 1) ≤ saved →
      Affords before saved (rest e) (Paid left spare) := by
    intro before saved e hbefore hpaid
    refine (Affords.expect (by decide) (by omega)).bind ?_
    rintro last saved _ ⟨hspent, hlast, hgain⟩
    exact .pure ⟨by omega, by omega⟩
  split
  · refine Affords.bind (Q := Paid found (spare + 4))
      (.map (h.expression spare hspare (by omega)) fun _ _ _ he => he) ?_
    rintro after saved e ⟨hafter, hpaid⟩
    exact hrest e (by omega) (by omega)
  · refine Affords.bind (Q := Kept found (spare + 1)) (.pure ⟨Nat.le_refl _, by omega⟩) ?_
    rintro after saved e ⟨hafter, hpaid⟩
    exact hrest e (by omega) hpaid

/-- A `return` takes at least its semicolon. -/
theorem Thrifty.returning (h : g.Thrifty) (spare : Nat) (hspare : 3 ≤ spare)
    (hcredit : price left + spare ≤ credit) :
    Affords left credit g.returning (Paid left spare) := by
  refine (Affords.takeIf (by decide) (by omega)).bind ?_
  rintro found saved empty ⟨⟨hspent, hfound, hprice⟩, hempty⟩
  split
  · next hyes =>
    obtain ⟨hless, hgain⟩ := hempty hyes
    exact .pure ⟨hless, by omega⟩
  · refine (h.expression (spare - 1) (by omega) (by omega)).bind ?_
    rintro after saved e ⟨hafter, hpaid⟩
    refine (Affords.expect (by decide) (by omega)).bind ?_
    rintro last saved _ ⟨hspent, hlast, hgain⟩
    exact .pure ⟨by omega, by omega⟩

/-- The semicolon is saved besides what the expression saves by itself. -/
theorem Thrifty.bareExpression (h : g.Thrifty) (spare : Nat) (hspare : 2 ≤ spare)
    (hcredit : price left + spare ≤ credit) :
    Affords left credit g.bareExpression (Paid left (spare + 8)) := by
  refine (h.expression spare hspare hcredit).bind ?_
  rintro after saved e ⟨hafter, hpaid⟩
  refine (Affords.expect (by decide) (by omega)).bind ?_
  rintro last saved _ ⟨hspent, hlast, hgain⟩
  exact .pure ⟨by omega, by omega⟩

/-! ## Loops -/

theorem Thrifty.bracedBlock (h : g.Thrifty) (spare : Nat) (hspare : 1 ≤ spare)
    (hcredit : price left + spare ≤ credit) :
    Affords left credit g.bracedBlock (Paid left (spare + 4)) := by
  refine (Affords.expect (by decide) (by omega)).bind ?_
  rintro opened saved _ ⟨hspent, hopened, hgain⟩
  exact (h.block (spare + 8) (by omega) (by omega)).rebase (by omega) (by omega)

/-- The body of a loop has a brace to save on. -/
theorem Thrifty.loopBody (h : g.Thrifty) (spare : Nat) (hspare : 1 ≤ spare)
    (hcredit : price left + spare ≤ credit) :
    Affords left credit g.loopBody (Paid left (spare + 4)) := by
  refine (Affords.expect (by decide) (by omega)).bind ?_
  rintro opened saved _ ⟨hspent, hopened, hgain⟩
  refine (Affords.setCount (· + 1)).bind ?_
  rintro _ _ _ ⟨rfl, rfl⟩
  exact ((h.block (spare + 8) (by omega) (by omega)).withCount id
    fun _ count => count - 1).rebase (by omega) (by omega)

/-- The parenthesis of a loop costs two looks, whether it is kept or put back. -/
theorem affords_loopParen (hcredit : 2 ≤ credit) :
    Affords left credit loopParen
      fun after saved _ => after ≤ left ∧ price after ≤ price left ∧ credit ≤ saved + 2 := by
  refine (Affords.take (by omega)).bind fun after saved token htaken => ?_
  obtain ⟨hspent, hcount, hprice⟩ := htaken
  extract_lets rest
  have hrest : ∀ {before saved}, before ≤ after → credit ≤ saved + 2 →
      Affords before saved (rest ())
        fun after saved _ => after ≤ left ∧ price after ≤ price left ∧ credit ≤ saved + 2 := by
    intro before saved hbefore hsaved
    refine (Affords.putBack token).bind ?_
    rintro back _ _ ⟨rfl, hback⟩
    exact .pure ⟨by omega, price_mono (by omega), hsaved⟩
  split
  · refine (Affords.peek (by omega)).bind ?_
    rintro back saved next ⟨hspent, hback, hprice⟩
    split
    · exact .pure ⟨by omega, by omega, by omega⟩
    · exact hrest hback (by omega)
  · exact hrest (Nat.le_refl _) (by omega)

/-- An expression that is there unless a token of some kind is next. -/
theorem Thrifty.clause (h : g.Thrifty) (closing : Kind) {α : Type} {Q : Nat → Nat → α → Prop}
    {rest : Option Expression → Parse α} (spare : Nat) (hspare : 3 ≤ spare)
    (hcredit : price left + spare ≤ credit)
    (hrest : ∀ after saved e, Kept left (spare - 1) after saved e → Affords after saved (rest e) Q) :
    Affords left credit
      (do
        if ← nextIs closing then
          let e ← pure none
          rest e
        else
          let e ← some <$> g.expression
          rest e) Q := by
  refine (Affords.nextIs _ (by omega)).bind ?_
  rintro seen saved missing ⟨hspent, hseen, hprice⟩
  split
  · exact Affords.bind (.pure ⟨hseen, by omega⟩) hrest
  · refine Affords.bind (Q := Paid seen (spare + 3))
      (.map (h.expression (spare - 1) (by omega) (by omega)) fun _ _ _ he => ⟨he.1, ?_⟩) ?_
    · have hpaid := he.2
      omega
    · rintro after saved e ⟨hafter, hpaid⟩
      exact hrest after saved e ⟨by omega, by omega⟩

/-- The looks at the clauses are paid for by the body. -/
theorem Thrifty.loop (h : g.Thrifty) (spare : Nat) (hcredit : price left + (spare + 8) ≤ credit) :
    Affords left credit g.loop (Paid left spare) := by
  have hbody : ∀ {before credit} init test increment, before ≤ left →
      price before + (spare + 1) ≤ credit →
      Affords before credit (g.loopBody >>= fun body => pure (Statement.loop init test increment body))
        (Paid left spare) := by
    intro before credit init test increment hbefore hcredit
    refine (h.loopBody (spare + 1) (by omega) hcredit).bind ?_
    rintro last saved body ⟨hlast, hpaid⟩
    exact .pure ⟨by omega, by omega⟩
  refine (affords_loopParen (by omega)).bind ?_
  rintro opened saved paren ⟨hopened, hprice, hsaved⟩
  refine (Affords.peek (by omega)).bind ?_
  rintro seen saved token ⟨hspent, hseen, hprice⟩
  split
  -- clauses
  · refine (Affords.takeIf (by decide) (by omega)).bind ?_
    rintro found saved defines ⟨⟨hspent, hfound, hprice⟩, hdefines⟩
    extract_lets closing rest
    have hrest : ∀ {before credit} init, before ≤ left → price before + (spare + 4) ≤ credit →
        Affords before credit (rest init) (Paid left spare) := by
      intro before credit init hbefore hcredit
      refine h.clause _ (spare + 4) (by omega) hcredit fun tested saved test htested => ?_
      obtain ⟨htested, hpaid⟩ := htested
      refine (Affords.expect (by decide) (by omega)).bind ?_
      rintro next saved _ ⟨hspent, hnext, hgain⟩
      refine h.clause _ (spare + 4) (by omega) (by omega) fun stepped saved increment hstepped => ?_
      obtain ⟨hstepped, hpaid⟩ := hstepped
      split
      · refine (Affords.expect (by decide) (by omega)).bind ?_
        rintro last saved _ ⟨hspent, hlast, hgain⟩
        exact hbody init test increment (by omega) (by omega)
      · exact hbody init test increment (by omega) (by omega)
    split
    · next hyes =>
      obtain ⟨hless, hgain⟩ := hdefines hyes
      refine Affords.bind (Q := Paid found (spare + 4))
        (.map (h.definition (spare + 4) (by omega) (by omega)) fun _ _ _ hs => hs) ?_
      rintro after saved init ⟨hafter, hpaid⟩
      exact hrest init (by omega) hpaid
    · refine (Affords.expect (by decide) (by omega)).bind ?_
      rintro next saved _ ⟨hspent, hnext, hgain⟩
      refine Affords.bind (Q := Kept next (spare + 4)) (.pure ⟨Nat.le_refl _, by omega⟩) ?_
      rintro after saved init ⟨hafter, hpaid⟩
      exact hrest init (by omega) hpaid
  -- a test alone
  · refine h.clause _ (spare + 5) (by omega) (by omega) fun tested saved test htested => ?_
    obtain ⟨htested, hpaid⟩ := htested
    exact hbody none test none (by omega) (by omega)

/-! ## Choices -/

/-- An `else` is taken for good where there is one. -/
theorem Thrifty.branching (h : g.Thrifty) (spare : Nat) (hspare : 2 ≤ spare)
    (hcredit : price left + spare ≤ credit) :
    Affords left credit g.branching (Paid left (spare + 4)) := by
  refine (h.expression spare hspare hcredit).bind ?_
  rintro tested saved condition ⟨htested, hpaid⟩
  refine (h.bracedBlock (spare + 4) (by omega) hpaid).bind ?_
  rintro done saved thenBody ⟨hdone, hpaid⟩
  refine (Affords.takeIf (by decide) (by omega)).bind ?_
  rintro found saved more ⟨⟨hspent, hfound, hprice⟩, hmore⟩
  split
  · refine (Affords.takeIf (by decide) (by omega)).bind ?_
    rintro next saved chained ⟨⟨hspent, hnext, hprice⟩, -⟩
    split
    · refine (h.conditional (spare + 4) (by omega) (by omega)).bind ?_
      rintro last saved s ⟨hlast, hpaid⟩
      exact .pure ⟨by omega, by omega⟩
    · refine (h.bracedBlock (spare + 4) (by omega) (by omega)).bind ?_
      rintro last saved body ⟨hlast, hpaid⟩
      exact .pure ⟨by omega, by omega⟩
  · exact .pure ⟨by omega, by omega⟩

/-- The token that ends a group is looked at and left. -/
theorem Thrifty.groupBody (h : g.Thrifty) (spare : Nat) (hspare : 5 ≤ spare)
    (hcredit : price left + spare ≤ credit) :
    Affords left credit g.groupBody (Kept left (spare - 1)) := by
  refine .iterate (I := Kept left spare) ?_ ⟨Nat.le_refl _, hcredit⟩
  rintro rest credit read ⟨hrest, hcredit⟩
  refine (Affords.peek (by omega)).bind ?_
  rintro seen saved token ⟨hspent, hseen, hprice⟩
  split
  case h_4 =>
    refine (h.statement (spare - 1) (by omega) (by omega)).bind ?_
    rintro after saved s ⟨hafter, hpaid⟩
    exact .pure ⟨by omega, by omega⟩
  all_goals exact .pure ⟨by omega, by omega⟩

/-- Each label pays for the look at the next comma. -/
theorem Thrifty.groupLabels (h : g.Thrifty) (spare : Nat) (hspare : 2 ≤ spare)
    (hcredit : price left + spare ≤ credit) :
    Affords left credit g.groupLabels (Paid left spare) := by
  refine (h.expression spare hspare hcredit).bind ?_
  rintro first saved e ⟨hfirst, hpaid⟩
  refine .iterate (I := Kept first (spare + 4)) ?_ ⟨Nat.le_refl _, hpaid⟩
  rintro rest credit read ⟨hrest, hcredit⟩
  refine (Affords.takeIf (by decide) (by omega)).bind ?_
  rintro found saved more ⟨⟨hspent, hfound, hprice⟩, hmore⟩
  split
  · refine (h.expression (spare + 3) (by omega) (by omega)).bind ?_
    rintro after saved e ⟨hafter, hpaid⟩
    exact .pure ⟨by omega, by omega⟩
  · exact .pure ⟨by omega, by omega⟩

/-- Each group pays for the look at the next one. -/
theorem Thrifty.choice (h : g.Thrifty) (spare : Nat) (hspare : 2 ≤ spare)
    (hcredit : price left + spare ≤ credit) :
    Affords left credit g.choice (Paid left spare) := by
  refine (h.expression spare hspare hcredit).bind ?_
  rintro named saved subject ⟨hnamed, hpaid⟩
  refine (Affords.expect (by decide) (by omega)).bind ?_
  rintro opened saved _ ⟨hspent, hopened, hgain⟩
  refine (Affords.setCount (· + 1)).bind ?_
  rintro inside _ _ ⟨rfl, rfl⟩
  refine Affords.bind (Q := Paid inside spare) (.iterate (I := Kept inside spare) ?_
    ⟨Nat.le_refl _, by omega⟩) ?_
  · rintro rest credit ⟨groups, otherwise⟩ ⟨hrest, hcredit⟩
    refine (Affords.take (by omega)).bind fun after saved token htaken => ?_
    have hspent := htaken.1
    let Groups := List CaseGroup × Option (List Statement)
    -- a group and the default have a body in common
    have hgroup : ∀ {before credit}, before ≤ rest → price before + (spare + 8) ≤ credit →
        ∀ wrap : List Statement → Groups,
        Affords before credit
          (expect .colon >>= fun _ => g.groupBody >>= fun body =>
            pure (Turn.again (wrap body) : Turn Groups Groups))
          (TurnAffords (Kept inside spare) (Paid inside spare)) := by
      intro before credit hbefore hcredit wrap
      refine (Affords.expect (by decide) (by omega)).bind ?_
      rintro colon saved _ ⟨hspent, hcolon, hgain⟩
      refine (h.groupBody (spare + 8) (by omega) (by omega)).bind ?_
      rintro last saved body ⟨hlast, hpaid⟩
      exact .pure ⟨by omega, by omega⟩
    dsimp only
    split
    · next hkind =>
      obtain ⟨hless, hgain⟩ := htaken.saves hkind nofun
      exact .pure ⟨by omega, by omega⟩
    · next hkind =>
      obtain ⟨hless, hgain⟩ := htaken.saves hkind nofun
      refine (h.groupLabels (spare + 8) (by omega) (by omega)).bind ?_
      rintro next saved labels ⟨hnext, hpaid⟩
      exact hgroup (by omega) hpaid _
    · next hkind =>
      obtain ⟨hless, hgain⟩ := htaken.saves hkind nofun
      split
      · exact .failBind
      · exact hgroup (by omega) (by omega) _
    · exact .fail
  · rintro last saved ⟨groups, otherwise⟩ ⟨hlast, hpaid⟩
    refine (Affords.setCount (· - 1)).bind ?_
    rintro _ _ _ ⟨rfl, rfl⟩
    exact .pure ⟨by omega, by omega⟩

/-! ## All statements -/

/-- All statements, by the token that they begin with. -/
theorem Thrifty.anyStatement (h : g.Thrifty) (spare : Nat) (hspare : 4 ≤ spare)
    (hcredit : price left + spare ≤ credit) :
    Affords left credit g.anyStatement (Paid left (spare + 4)) := by
  refine (Affords.take (by omega)).bind fun after saved token htaken => ?_
  have hspent := htaken.1
  have hcount := htaken.2.1
  -- a token that is taken for good pays for what follows it
  have hpays : ∀ {kind : Kind}, token.kind = kind → kind ≠ .eof →
      after < left ∧ price after + (spare + 15) ≤ saved := by
    intro kind hkind heof
    obtain ⟨hless, hgain⟩ := htaken.saves hkind heof
    exact ⟨hless, by omega⟩
  have hlater : ∀ {x : Parse Statement}, after < left →
      Affords after saved x (Paid after (spare + 4)) →
      Affords after saved x (Paid left (spare + 4)) :=
    fun hless hx => hx.rebase (Nat.le_of_lt hless) (Nat.le_refl _)
  have hexpression : ∀ {before saved}, before ≤ after → credit ≤ saved + 2 →
      Affords before saved (putBack token >>= fun _ => g.bareExpression)
        (Paid left (spare + 4)) := by
    intro before saved hbefore hsaved
    refine (Affords.putBack token).bind ?_
    rintro back _ _ ⟨rfl, hback⟩
    have hprice : price back ≤ price left := price_mono (by omega)
    exact (h.bareExpression (spare - 2) (by omega) (by omega)).rebase (by omega) (by omega)
  split
  · next hkind =>
    obtain ⟨hless, hpaid⟩ := hpays hkind nofun
    exact .pure ⟨hless, by omega⟩
  · next hkind =>
    obtain ⟨hless, hpaid⟩ := hpays hkind nofun
    exact hlater hless (h.definition (spare + 4) (by omega) (by omega))
  · next hkind =>
    obtain ⟨hless, hpaid⟩ := hpays hkind nofun
    refine (Affords.nextIs _ (by omega)).bind ?_
    rintro seen saved named ⟨hspent, hseen, hprice⟩
    split
    · refine (h.functionRest (spare + 4) (by omega) (by omega)).bind ?_
      rintro last saved code ⟨hlast, hpaid⟩
      exact .pure ⟨by omega, hpaid⟩
    · exact hexpression hseen (by omega)
  · next hkind =>
    obtain ⟨hless, hpaid⟩ := hpays hkind nofun
    exact hlater hless (h.returning (spare + 4) (by omega) (by omega))
  · next hkind =>
    obtain ⟨hless, hpaid⟩ := hpays hkind nofun
    refine (h.block (spare + 4) (by omega) (by omega)).bind ?_
    rintro last saved body ⟨hlast, hpaid⟩
    exact .pure ⟨by omega, by omega⟩
  · next hkind =>
    obtain ⟨hless, hpaid⟩ := hpays hkind nofun
    exact hlater hless (h.loop (spare + 4) (by omega))
  · next hkind =>
    obtain ⟨hless, hpaid⟩ := hpays hkind nofun
    refine .getCount (fun p q hcount => by rw [hcount]) fun p => ?_
    extract_lets rest
    split
    · exact .failBind
    · refine (Affords.expect (by decide) (by omega)).bind ?_
      rintro last saved _ ⟨hspent, hlast, hgain⟩
      exact .pure ⟨by omega, by omega⟩
  · next hkind =>
    obtain ⟨hless, hpaid⟩ := hpays hkind nofun
    exact hlater hless (h.branching spare (by omega) (by omega))
  · next hkind =>
    obtain ⟨hless, hpaid⟩ := hpays hkind nofun
    exact hlater hless (h.choice (spare + 4) (by omega) (by omega))
  · exact hexpression (Nat.le_refl _) (by omega)

/-! ## Levels -/

/-- Grammars of levels are thrifty: to be out of levels costs nothing.  Induction on the levels. -/
theorem thrifty_ofFuel (n : Nat) : (ofFuel n).Thrifty := by
  induction n with
  | zero =>
    refine ⟨fun _ _ _ => ?_, fun _ _ _ => ?_, fun _ _ _ _ => ?_⟩
    all_goals exact Affords.outOfFuel
  | succ n ih =>
    constructor
    · intro left credit spare hspare hcredit
      rw [statement_succ]
      exact ih.anyStatement spare hspare hcredit
    · intro left credit spare hspare hcredit
      rw [conditional_succ]
      exact ih.branching spare hspare hcredit
    · intro left credit spare tier hspare hcredit
      rw [expressionFrom_succ]
      exact ih.operation tier spare hspare hcredit

theorem Thrifty.script (h : g.Thrifty) (hcredit : price left + 5 ≤ credit) :
    Affords left credit g.script fun _ _ _ => True := by
  refine .iterate (I := Kept left 5) ?_ ⟨Nat.le_refl _, hcredit⟩
  rintro rest credit read ⟨hrest, hcredit⟩
  refine (Affords.peek (by omega)).bind ?_
  rintro seen saved start ⟨hspent, hseen, hprice⟩
  split
  · exact .pure trivial
  · refine (h.statement 4 (Nat.le_refl _) (by omega)).bind ?_
    rintro after saved s ⟨hafter, hpaid⟩
    split
    case h_4 => exact .fail
    all_goals exact .pure ⟨by omega, by omega⟩

end Grammar

namespace Parser

theorem Affords.exists_draws {α : Type} {p : Parser} {credit : Nat} {x : Parse α}
    {Q : Nat → Nat → α → Prop} (h : Affords p.tokens.left credit x Q) :
    ∃ drawn ≤ credit, Draws x p drawn := by
  obtain ⟨drawn, hdraws, hresult⟩ := h p rfl
  refine ⟨drawn, ?_, hdraws⟩
  cases hx : x p with
  | error halt q =>
    rw [hx] at hresult
    exact hresult
  | ok a q =>
    rw [hx] at hresult
    obtain ⟨saved, hspent, -⟩ := hresult
    omega

end Parser

end Tao
