/-
  The price of expressions.

  A grammar is THRIFTY if what is left to read pays for each of its categories, apart from a few
  tokens that the category may look at before it takes one for good; what it has saved by the end
  exceeds that.  Here that is carried to everything about expressions, one lemma for each rule.

  The one rule that looks far ahead is the head of a lambda: it may read to the end of the text and
  hand everything back.  The parenthesis that was taken before pays for that.
-/
import Tao.Parser.Script
import Tao.Proofs.Parser.Draws.Basic

namespace Tao

open Tao.Parser

namespace Grammar

/-- What is left pays for what a grammar reads, if there is a little credit to spare, and more is
    spared afterwards. -/
structure Thrifty (g : Grammar) : Prop where
  statement : ∀ {left credit} spare, 4 ≤ spare → price left + spare ≤ credit →
    Affords left credit g.statement (Paid left (spare + 4))
  conditional : ∀ {left credit} spare, 2 ≤ spare → price left + spare ≤ credit →
    Affords left credit g.conditional (Paid left (spare + 4))
  expressionFrom : ∀ {left credit} spare tier, 2 ≤ spare → price left + spare ≤ credit →
    Affords left credit (g.expressionFrom tier) (Paid left (spare + 4))

variable {g : Grammar} {left credit : Nat}

theorem Thrifty.expression (h : g.Thrifty) (spare : Nat) (hspare : 2 ≤ spare)
    (hcredit : price left + spare ≤ credit) :
    Affords left credit g.expression (Paid left (spare + 4)) :=
  h.expressionFrom spare .assignment hspare hcredit

/-! ## Blocks -/

/-- Each statement pays for the look that comes before the next one. -/
theorem Thrifty.block (h : g.Thrifty) (spare : Nat) (hspare : 6 ≤ spare)
    (hcredit : price left + spare ≤ credit) :
    Affords left credit g.block (Paid left (spare + 4)) := by
  refine .iterate (I := Kept left spare) ?_ ⟨Nat.le_refl _, hcredit⟩
  rintro rest credit read ⟨hrest, hcredit⟩
  refine (Affords.takeIf (by decide) (by omega)).bind ?_
  rintro found saved closed ⟨⟨hspent, hfound, hprice⟩, hclosed⟩
  split
  · next hyes =>
    obtain ⟨hless, hgain⟩ := hclosed hyes
    exact .pure ⟨by omega, by omega⟩
  · refine (Affords.nextIs _ (by omega)).bind ?_
    rintro seen saved ended ⟨hspent, hseen, hprice⟩
    split
    · refine (Affords.peek (by omega)).bind ?_
      exact fun _ _ _ _ => .fail
    · refine (h.statement (spare - 2) (by omega) (by omega)).bind ?_
      rintro after saved s ⟨hless, hpaid⟩
      exact .pure ⟨by omega, by omega⟩

/-- The count around a body has no price. -/
theorem Thrifty.bodyOfFunction (h : g.Thrifty) (spare : Nat) (hspare : 6 ≤ spare)
    (hcredit : price left + spare ≤ credit) :
    Affords left credit g.bodyOfFunction (Paid left (spare + 4)) :=
  (h.block spare hspare hcredit).withCount (fun _ => 0) fun count _ => count

/-! ## Lists in brackets -/

/-- After an item of a list stands a comma, and there may be more, or the bracket that closes it. -/
theorem affords_separator {closing : Kind} (hclosing : closing ≠ .eof) {σ α : Type} (more : σ)
    (all : α) {before spare : Nat} (hless : left < before)
    (hcredit : price left + (spare + 2) ≤ credit) :
    Affords left credit
      (do
        if ← takeIf .comma then
          return .again more
        let _ ← expect closing
        return .done all)
      (TurnAffords (Kept before spare) (Paid before spare)) := by
  refine (Affords.takeIf (by decide) (by omega)).bind ?_
  rintro next saved comma ⟨⟨hspent, hnext, hprice⟩, -⟩
  split
  · exact .pure ⟨by omega, by omega⟩
  · refine (Affords.expect hclosing (by omega)).bind ?_
    rintro last saved _ ⟨hspent, hlast, hgain⟩
    exact .pure ⟨by omega, by omega⟩

/-- Each argument and comma pays for the next. -/
theorem Thrifty.arguments (h : g.Thrifty) {closing : Kind} (hclosing : closing ≠ .eof)
    (spare : Nat) (hspare : 3 ≤ spare) (hcredit : price left + spare ≤ credit) :
    Affords left credit (g.arguments closing) (Paid left spare) := by
  refine .iterate (I := Kept left spare) ?_ ⟨Nat.le_refl _, hcredit⟩
  rintro rest credit read ⟨hrest, hcredit⟩
  refine (Affords.takeIf hclosing (by omega)).bind ?_
  rintro found saved closed ⟨⟨hspent, hfound, hprice⟩, hclosed⟩
  split
  · next hyes =>
    obtain ⟨hless, hgain⟩ := hclosed hyes
    exact .pure ⟨by omega, by omega⟩
  · refine (h.expression (spare - 1) (by omega) (by omega)).bind ?_
    rintro after saved e ⟨hless, hpaid⟩
    exact affords_separator hclosing _ _ (by omega) (by omega)

/-! ## Functions -/

/-- Comparing names takes no token. -/
theorem affords_distinctNames (params : List Token) :
    Affords left credit (distinctNames params)
      fun after saved _ => after = left ∧ saved = credit := by
  have hgo : ∀ read, Affords left credit (distinctNames.go read params)
      fun after saved _ => after = left ∧ saved = credit := by
    induction params with
    | nil => exact fun _ => .pure ⟨rfl, rfl⟩
    | cons param rest ih =>
      intro read
      unfold distinctNames.go
      dsimp only
      split
      · exact .fail
      · exact ih _
  exact hgo []

theorem affords_parameters (g : Grammar) (spare : Nat) (hspare : 2 ≤ spare)
    (hcredit : price left + spare ≤ credit) :
    Affords left credit g.parameters (Paid left spare) := by
  refine .iterate (I := Kept left spare) ?_ ⟨Nat.le_refl _, hcredit⟩
  rintro rest credit read ⟨hrest, hcredit⟩
  refine (Affords.takeIf (by decide) (by omega)).bind ?_
  rintro found saved closed ⟨⟨hspent, hfound, hprice⟩, hclosed⟩
  split
  · next hyes =>
    obtain ⟨hless, hgain⟩ := hclosed hyes
    exact .pure ⟨by omega, by omega⟩
  · refine (Affords.expect (by decide) (by omega)).bind ?_
    rintro after saved _ ⟨hspent, hless, hgain⟩
    exact affords_separator (by decide) _ _ (by omega) (by omega)

/-- A function has a keyword, a parenthesis and a brace to save on. -/
theorem Thrifty.functionRest (h : g.Thrifty) (spare : Nat) (hspare : 6 ≤ spare)
    (hcredit : price left + spare ≤ credit) :
    Affords left credit g.functionRest (Paid left spare) := by
  refine (Affords.nextIs _ (by omega)).bind ?_
  rintro seen saved named ⟨hspent, hseen, hprice⟩
  extract_lets rest
  -- with a name and without one, the rest is the same
  have hrest : ∀ {before credit} name, before ≤ left → price before + (spare - 1) ≤ credit →
      Affords before credit (rest name) (Paid left spare) := by
    intro before credit name hbefore hcredit
    refine (Affords.expect (by decide) (by omega)).bind ?_
    rintro opened saved _ ⟨hspent, hless, hgain⟩
    refine (affords_parameters g spare (by omega) (by omega)).bind ?_
    rintro closed saved params ⟨hclosed, hpaid⟩
    refine (affords_distinctNames params).bind ?_
    rintro _ _ names ⟨rfl, rfl⟩
    refine (Affords.expect (by decide) (by omega)).bind ?_
    rintro inside saved _ ⟨hspent, hless, hgain⟩
    refine (h.bodyOfFunction spare hspare (by omega)).bind ?_
    rintro after saved body ⟨hafter, hpaid⟩
    exact .pure ⟨by omega, by omega⟩
  split
  · refine Affords.bind (Q := fun after credit _ => credit + 1 = saved ∧ Saves seen after)
      (.map (Affords.expectName (by omega)) fun _ _ _ hname => hname) ?_
    rintro after saved name ⟨hspent, hless, hgain⟩
    exact hrest name (by omega) (by omega)
  · refine Affords.bind (Q := fun after saved _ => after = seen ∧ price after + (spare - 1) ≤ saved)
      (.pure ⟨rfl, by omega⟩) ?_
    rintro _ saved name ⟨rfl, hpaid⟩
    exact hrest name (by omega) hpaid

theorem Thrifty.lambda (h : g.Thrifty) (params : List Token) (spare : Nat) (hspare : 3 ≤ spare)
    (hcredit : price left + spare ≤ credit) :
    Affords left credit (g.lambda params) (Paid left spare) := by
  refine (affords_distinctNames params).bind ?_
  rintro _ _ names ⟨rfl, rfl⟩
  refine (Affords.takeIf (by decide) (by omega)).bind ?_
  rintro found saved braced ⟨⟨hspent, hfound, hprice⟩, hbraced⟩
  extract_lets rest
  have hrest : ∀ {left credit before} body, Paid before spare left credit body →
      Affords left credit (rest body) (Paid before spare) := fun body hpaid => .pure hpaid
  split
  · next hyes =>
    obtain ⟨hless, hgain⟩ := hbraced hyes
    refine (h.bodyOfFunction (spare + 4) (by omega) (by omega)).bind ?_
    rintro after saved body ⟨hafter, hpaid⟩
    exact hrest body ⟨by omega, by omega⟩
  · refine (h.expression (spare - 1) (by omega) (by omega)).bind ?_
    rintro after saved e ⟨hafter, hpaid⟩
    refine Affords.bind (Q := Paid _ spare) (.pure ⟨?_, ?_⟩) fun _ _ body hbody => hrest body hbody
    · omega
    · omega

/-- To hand tokens back costs nothing. -/
theorem affords_putBackAll (tokens : List Token) :
    Affords left credit (tokens.forM putBack)
      fun after saved _ => saved = credit ∧ after = left + Token.weights tokens := by
  induction tokens generalizing left with
  | nil => exact .pure ⟨rfl, rfl⟩
  | cons token tokens ih =>
    refine (Affords.putBack token).bind ?_
    rintro _ _ _ ⟨rfl, rfl⟩
    refine ih.imp ?_
    rintro after saved _ ⟨hsaved, hafter⟩
    rw [Token.weights_cons]
    exact ⟨hsaved, by omega⟩

/-- The head of a lambda looks at no more tokens than are left, and at three more at the end.  The
    invariant: what was seen is what was paid for. -/
theorem affords_lambdaHead (g : Grammar) (hcredit : left + 3 ≤ credit) :
    Affords left credit g.lambdaHead
      fun after saved _ => after ≤ left ∧ price after ≤ price left ∧ credit ≤ saved + left + 2 := by
  let Ahead (more : Nat) : Nat → Nat → Lookahead → Prop := fun rest saved ahead =>
    rest + Token.weights ahead.seen ≤ left ∧ credit ≤ saved + Token.weights ahead.seen + more
  refine Affords.bind (Q := fun rest saved found => Ahead 1 rest saved found.2) ?_ ?_
  · refine .iterate (I := Ahead 0) ?_ ⟨Nat.le_refl _, Nat.le_refl _⟩
    rintro rest before ahead ⟨hrest, hbefore⟩
    refine (Affords.take (by omega)).bind fun after saved token htaken => ?_
    obtain ⟨hspent, hcount, -⟩ := htaken
    have hseen : Token.weights (token :: ahead.seen) = token.weight + Token.weights ahead.seen :=
      Token.weights_cons _ _
    have hone : ∀ {kind : Kind}, token.kind = kind → kind ≠ .eof → token.weight = 1 :=
      Token.weight_of_kind
    have hdone : Ahead 1 after saved { ahead with seen := token :: ahead.seen } :=
      ⟨by dsimp only; omega, by dsimp only; omega⟩
    dsimp only
    split
    -- a closing parenthesis
    · next hkind =>
      have hweight := hone hkind nofun
      refine (Affords.nextIs _ (by omega)).bind ?_
      rintro next saved arrow ⟨hspent, hnext, -⟩
      exact .pure ⟨by dsimp only; omega, by dsimp only; omega⟩
    -- a name
    · next hkind =>
      have hweight := hone hkind nofun
      split
      · exact .pure ⟨by dsimp only; omega, by dsimp only; omega⟩
      · exact .pure hdone
    -- a comma
    · next hkind =>
      have hweight := hone hkind nofun
      split
      · exact .pure hdone
      · exact .pure ⟨by dsimp only; omega, by dsimp only; omega⟩
    · exact .pure hdone
  -- what is handed back is paid for, as it was when it was seen
  · rintro rest saved ⟨isLambda, ahead⟩ ⟨hrest, hsaved⟩
    dsimp only at hrest hsaved ⊢
    split
    · refine (Affords.take (by omega)).bind fun after saved token htaken => ?_
      obtain ⟨hspent, hcount, hprice⟩ := htaken
      exact .pure ⟨by omega, price_mono (by omega), by omega⟩
    · refine (affords_putBackAll ahead.seen).bind ?_
      rintro after saved _ ⟨hspent, hafter⟩
      exact .pure ⟨by omega, price_mono (by omega), by omega⟩

/-! ## Operands -/

/-- Each entry pays for the next. -/
theorem Thrifty.objectRest (h : g.Thrifty) (spare : Nat) (hspare : 3 ≤ spare)
    (hcredit : price left + spare ≤ credit) :
    Affords left credit g.objectRest (Paid left spare) := by
  refine .iterate (I := Kept left spare) ?_ ⟨Nat.le_refl _, hcredit⟩
  rintro rest credit ⟨entries, keys⟩ ⟨hrest, hcredit⟩
  refine (Affords.takeIf (by decide) (by omega)).bind ?_
  rintro found saved closed ⟨⟨hspent, hfound, hprice⟩, hclosed⟩
  split
  · next hyes =>
    obtain ⟨hless, hgain⟩ := hclosed hyes
    exact .pure ⟨by omega, by omega⟩
  · refine (Affords.take (by omega)).bind fun after saved token htaken => ?_
    split
    case h_3 => exact .fail
    -- a key is a name or a string, and the same follows
    all_goals
      next heq =>
      obtain ⟨hless, hgain⟩ := htaken.savesLexeme heq nofun
      obtain ⟨hspent, -, -⟩ := htaken
      extract_lets more
      have hmore : ∀ r, Affords after saved (more r)
          (TurnAffords (Kept left spare) (Paid left spare)) := by
        intro _
        refine (Affords.expect (by decide) (by omega)).bind ?_
        rintro opened saved _ ⟨hspent, hopened, hgain⟩
        refine (h.expression spare (by omega) (by omega)).bind ?_
        rintro after saved e ⟨hafter, hpaid⟩
        exact affords_separator (by decide) _ _ (by omega) (by omega)
      split
      · exact .failBind
      · exact hmore ()

/-- The first token of an operand pays for all that may be looked at before it is known which it
    is. -/
theorem Thrifty.primary (h : g.Thrifty) (spare : Nat) (hspare : 1 ≤ spare)
    (hcredit : price left + spare ≤ credit) :
    Affords left credit g.primary (Paid left (spare + 6)) := by
  refine (Affords.take (by omega)).bind fun after saved token htaken => ?_
  have hspent := htaken.1
  -- whatever the token is, it pays for itself and for what follows it
  have hpays : ∀ {l : Lexeme}, token.lexeme = l → l.kind ≠ .eof →
      after < left ∧ price after + left + 15 + spare ≤ saved := by
    intro l heq hl
    obtain ⟨hless, hgain⟩ := htaken.savesLexeme heq hl
    exact ⟨hless, by omega⟩
  have hdone : ∀ {l : Lexeme} (e : Expression), token.lexeme = l → l.kind ≠ .eof →
      Affords after saved (pure e) (Paid left (spare + 6)) := by
    intro l e heq hl
    obtain ⟨hless, hpaid⟩ := hpays heq hl
    exact .pure ⟨hless, by omega⟩
  split
  · next heq => exact hdone _ heq nofun
  · next heq => exact hdone _ heq nofun
  · next heq => exact hdone _ heq nofun
  · next heq => exact hdone _ heq nofun
  · next heq => exact hdone _ heq nofun
  · next heq =>
    obtain ⟨hless, hpaid⟩ := hpays heq nofun
    refine (Affords.takeIf (by decide) (by omega)).bind ?_
    rintro next saved arrow ⟨⟨hspent, hnext, hprice⟩, -⟩
    split
    · exact (h.lambda _ (spare + 6) (by omega) (by omega)).rebase (by omega) (Nat.le_refl _)
    · exact .pure ⟨by omega, by omega⟩
  · next heq =>
    obtain ⟨hless, hpaid⟩ := hpays heq nofun
    refine (affords_lambdaHead g (by omega)).bind ?_
    rintro next saved head ⟨hnext, hprice, hsaved⟩
    split
    · exact (h.lambda _ (spare + 6) (by omega) (by omega)).rebase (by omega) (Nat.le_refl _)
    · refine (h.expression (spare + 6) (by omega) (by omega)).bind ?_
      rintro inner saved e ⟨hinner, hpaid⟩
      refine (Affords.expect (by decide) (by omega)).bind ?_
      rintro last saved _ ⟨hspent, hlast, hgain⟩
      exact .pure ⟨by omega, by omega⟩
  · next heq =>
    obtain ⟨hless, hpaid⟩ := hpays heq nofun
    refine (h.functionRest (spare + 6) (by omega) (by omega)).bind ?_
    rintro last saved code ⟨hlast, hpaid⟩
    exact .pure ⟨by omega, hpaid⟩
  · next heq =>
    obtain ⟨hless, hpaid⟩ := hpays heq nofun
    exact (h.objectRest (spare + 6) (by omega) (by omega)).rebase (by omega) (Nat.le_refl _)
  · next heq =>
    obtain ⟨hless, hpaid⟩ := hpays heq nofun
    refine (h.arguments (by decide) (spare + 6) (by omega) (by omega)).bind ?_
    rintro last saved es ⟨hlast, hpaid⟩
    exact .pure ⟨by omega, hpaid⟩
  · exact .fail

theorem Thrifty.indexOf (h : g.Thrifty) (target : Expression) (opening : Token) (spare : Nat)
    (hspare : 2 ≤ spare) (hcredit : price left + spare ≤ credit) :
    Affords left credit (g.indexOf target opening) (Paid left spare) := by
  unfold Grammar.indexOf
  split
  · refine (Affords.expectName (by omega)).bind ?_
    rintro after saved name ⟨hspent, hless, hgain⟩
    exact .pure ⟨hless, by omega⟩
  · refine (h.expression spare hspare hcredit).bind ?_
    rintro after saved key ⟨hafter, hpaid⟩
    refine (Affords.expect (by decide) (by omega)).bind ?_
    rintro last saved _ ⟨hspent, hlast, hgain⟩
    exact .pure ⟨by omega, by omega⟩

/-- Every call, member or index pays for the look that follows. -/
theorem Thrifty.construction (h : g.Thrifty) (spare : Nat) (hspare : 1 ≤ spare)
    (hcredit : price left + spare ≤ credit) :
    Affords left credit g.construction (Paid left (spare + 4)) := by
  refine (h.primary spare hspare hcredit).bind ?_
  rintro first saved e ⟨hfirst, hpaid⟩
  refine Affords.bind (Q := Kept first (spare + 5)) (.iterate (I := Kept first (spare + 6)) ?_
    ⟨Nat.le_refl _, by omega⟩) ?_
  -- the keys of the maker
  · rintro rest credit maker ⟨hrest, hcredit⟩
    refine (Affords.take (by omega)).bind fun after saved token htaken => ?_
    split
    · next hkind =>
      obtain ⟨hless, hgain⟩ : Saves rest after := by
        rcases Bool.or_eq_true_iff.1 hkind with hdot | hbracket
        · exact htaken.saves (of_decide_eq_true hdot) nofun
        · exact htaken.saves (of_decide_eq_true hbracket) nofun
      obtain ⟨hspent, -, -⟩ := htaken
      refine (h.indexOf maker token (spare + 6) (by omega) (by omega)).bind ?_
      rintro next saved e ⟨hnext, hpaid⟩
      exact .pure ⟨by omega, hpaid⟩
    · obtain ⟨hspent, hcount, -⟩ := htaken
      refine (Affords.putBack token).bind ?_
      rintro back _ _ ⟨rfl, hback⟩
      have hprice : price back ≤ price rest := price_mono (by omega)
      exact .pure ⟨by omega, by omega⟩
  -- the arguments, if there are any
  · rintro after saved maker ⟨hafter, hpaid⟩
    refine (Affords.takeIf (by decide) (by omega)).bind ?_
    rintro found saved more ⟨⟨hspent, hfound, hprice⟩, hmore⟩
    extract_lets rest
    have hrest : ∀ {before saved} es, before < left → price before + (spare + 4) ≤ saved →
        Affords before saved (rest es) (Paid left (spare + 4)) :=
      fun es hbefore hpaid => .pure ⟨hbefore, hpaid⟩
    split
    · next hyes =>
      obtain ⟨hless, hgain⟩ := hmore hyes
      refine (h.arguments (by decide) (spare + 4) (by omega) (by omega)).bind ?_
      rintro last saved es ⟨hlast, hpaid⟩
      exact hrest es (by omega) hpaid
    · refine Affords.bind (Q := Kept found (spare + 4)) (.pure ⟨Nat.le_refl _, by omega⟩) ?_
      rintro last saved es ⟨hlast, hpaid⟩
      exact hrest es (by omega) hpaid

/-- An operator before an operand is taken for good; any other token is put back. -/
theorem Thrifty.prefixed (h : g.Thrifty) (spare : Nat) (hspare : 2 ≤ spare)
    (hcredit : price left + spare ≤ credit) :
    Affords left credit g.prefixed (Paid left (spare + 5)) := by
  refine (Affords.take (by omega)).bind fun after saved token htaken => ?_
  have hspent := htaken.1
  split
  case h_8 =>
    have hcount := htaken.2.1
    refine (Affords.putBack token).bind ?_
    rintro back _ _ ⟨rfl, hback⟩
    have hprice : price back ≤ price left := price_mono (by omega)
    exact (h.primary (spare - 1) (by omega) (by omega)).rebase (by omega) (by omega)
  case h_7 heq =>
    obtain ⟨hless, hgain⟩ := htaken.saves heq nofun
    exact (h.construction (spare + 1) (by omega) (by omega)).rebase (by omega) (Nat.le_refl _)
  all_goals
    next heq =>
    obtain ⟨hless, hgain⟩ := htaken.saves heq nofun
    refine (h.expressionFrom (spare + 1) .stepBefore (by omega) (by omega)).bind ?_
    rintro last saved e ⟨hlast, hpaid⟩
    exact .pure ⟨by omega, hpaid⟩

/-! ## Operators after an operand -/

theorem Thrifty.conditionalBranch (h : g.Thrifty) (spare : Nat) (hspare : 2 ≤ spare)
    (hcredit : price left + spare ≤ credit) :
    Affords left credit g.conditionalBranch (Paid left spare) := by
  refine (h.expressionFrom spare .logicalOr hspare hcredit).bind ?_
  rintro after saved e ⟨hafter, hpaid⟩
  refine (Affords.peek (by omega)).bind ?_
  rintro back saved token ⟨hspent, hback, hprice⟩
  extract_lets rest
  split
  · exact .failBind
  · exact .pure ⟨by omega, by omega⟩

/-- The operator is still to be taken, and is taken for good. -/
theorem Thrifty.extend (h : g.Thrifty) (e : Expression) (token : Token) (tier : Precedence)
    (spare : Nat) (hspare : 3 ≤ spare) (hcredit : price left + spare ≤ credit) :
    Affords left credit (g.extend e token tier) (Kept left spare) := by
  have hkept : ∀ {after saved : Nat} {e : Expression},
      Paid left spare after saved e → Kept left spare after saved e :=
    fun hpaid => ⟨Nat.le_of_lt hpaid.1, hpaid.2⟩
  have hright : ∀ (tier : Precedence) (wrap : Expression → Expression),
      Affords left credit (g.expressionFrom tier >>= fun value => pure (wrap value))
        (Kept left spare) := by
    intro tier wrap
    refine (h.expressionFrom spare tier (by omega) hcredit).bind ?_
    rintro after saved value ⟨hafter, hpaid⟩
    exact .pure ⟨by omega, by omega⟩
  unfold Grammar.extend
  split
  · exact hright _ _
  · split
    · exact hright _ _
    · refine (h.conditionalBranch spare (by omega) hcredit).bind ?_
      rintro after saved thenValue ⟨hafter, hpaid⟩
      refine (Affords.expect (by decide) (by omega)).bind ?_
      rintro next saved _ ⟨hspent, hnext, hgain⟩
      refine (h.conditionalBranch spare (by omega) (by omega)).bind ?_
      rintro last saved elseValue ⟨hlast, hpaid⟩
      exact .pure ⟨by omega, hpaid⟩
    · exact .pure ⟨Nat.le_refl _, hcredit⟩
    · exact .pure ⟨Nat.le_refl _, hcredit⟩
    · refine (h.arguments (by decide) spare hspare hcredit).bind ?_
      rintro last saved es ⟨hlast, hpaid⟩
      exact .pure ⟨by omega, hpaid⟩
    · exact (h.indexOf e token spare (by omega) hcredit).imp fun _ _ _ => hkept
    · exact (h.indexOf e token spare (by omega) hcredit).imp fun _ _ _ => hkept
    · exact hright _ _

/-- Each operator pays for the look at the next. -/
theorem Thrifty.operation (h : g.Thrifty) (tier : Precedence) (spare : Nat) (hspare : 2 ≤ spare)
    (hcredit : price left + spare ≤ credit) :
    Affords left credit (g.operation tier) (Paid left (spare + 4)) := by
  refine (h.prefixed spare hspare hcredit).bind ?_
  rintro first saved e ⟨hfirst, hpaid⟩
  refine .iterate (I := Kept first (spare + 5)) ?_ ⟨Nat.le_refl _, hpaid⟩
  rintro rest credit e ⟨hrest, hcredit⟩
  refine .peekBind (by omega) fun after saved token htaken => ?_
  obtain ⟨hspent, hcount, -⟩ := id htaken
  let stop : Turn Expression Expression := .done e
  have hstop : Affords after saved (putBack token >>= fun _ => pure stop)
      (TurnAffords (Kept first (spare + 5)) (Paid left (spare + 4))) := by
    refine (Affords.putBack token).bind ?_
    rintro back _ _ ⟨rfl, hback⟩
    have hprice : price back ≤ price rest := price_mono (by omega)
    exact .pure ⟨by omega, by omega⟩
  split
  · exact hstop
  · next found hfound =>
    split
    · exact hstop
    · have hkind : token.kind ≠ .eof := by
        intro heof
        rw [heof] at hfound
        cases hfound
      obtain ⟨hless, hgain⟩ := htaken.saves rfl hkind
      refine .takeAgain (by omega) ?_
      refine (h.extend e token found (spare + 5) (by omega) (by omega)).bind ?_
      rintro last saved e ⟨hlast, hpaid⟩
      exact .pure ⟨by omega, hpaid⟩

end Grammar

end Tao
