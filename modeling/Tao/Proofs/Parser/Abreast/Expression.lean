/-
  Expressions abreast.

  Two grammars are JOINED if their categories go abreast wherever the left grammar has levels enough
  for what is left to read.  Here that is carried from the categories of the grammar to everything
  about expressions; one lemma for each rule.

  What is nested in an expression is read after a token has been taken, so twice as much as is left
  before is left for it and a little more: that is where the bounds of this module come from.
-/
import Tao.Parser.Script
import Tao.Proofs.Parser.Abreast.Basic
import Tao.Proofs.Signals.Breaks

namespace Tao

open Tao.Parser

/-- Both give the same statement, and less is left than before; after a definition they are still
    together. -/
def Claim.statement (before : Nat) : Claim Statement :=
  fun m left s s' => s = s' ∧ left < before ∧ (s.IsDefinition → m = .together)

namespace Bond

/-- Two grammars that go abreast as far as the levels of the left one reach. -/
structure Joins (B : Bond) (g g' : Grammar) : Prop where
  bound : g.bound ≤ g'.bound
  statement : ∀ m left, 2 * left + 2 ≤ g.bound →
    B.Abreast m left g.statement g'.statement (.statement left)
  conditional : ∀ m left, 2 * left + 2 ≤ g.bound →
    B.Abreast m left g.conditional g'.conditional (.statement left)
  expressionFrom : ∀ m left tier, 2 * left + 1 ≤ g.bound →
    B.Abreast m left (g.expressionFrom tier) (g'.expressionFrom tier) (.below left)

namespace Joins

variable {B : Bond} {g g' : Grammar} {m : Mode} {left : Nat}

/-- A token other than the end of the text leaves less. -/
theorem less_of_kind {after : Nat} {t t' : Token} {kind : Kind} (h : B.Taken left m after t t')
    (heq : t.kind = kind) (hkind : kind ≠ .eof) : after < left := by
  have hcount := h.2
  rw [Token.weight_of_kind heq hkind] at hcount
  exact hcount

/-- The same, if the whole lexeme is known. -/
theorem less_of_lexeme {after : Nat} {t t' : Token} {l : Lexeme} (h : B.Taken left m after t t')
    (heq : t.lexeme = l) (hl : l.kind ≠ .eof) : after < left :=
  less_of_kind h (congrArg Lexeme.kind heq) hl

theorem expression (h : B.Joins g g') (hleft : 2 * left + 1 ≤ g.bound) :
    B.Abreast m left g.expression g'.expression (.below left) :=
  h.expressionFrom m left .assignment hleft

/-! ## Blocks -/

/-- A block ends with a brace, which both have taken. -/
theorem block (h : B.Joins g g') (hleft : 2 * left + 2 ≤ g.bound) :
    B.Abreast m left g.block g'.block (.closed left) := by
  refine .iterate (I := .atMost left) ?_ ⟨rfl, Nat.le_refl _⟩ (by omega) h.bound
  rintro m rest read _ ⟨rfl, hrest⟩
  refine (Abreast.takeIf (by decide)).bind ?_
  rintro m found closed _ ⟨rfl, hfound, hclosed⟩
  split
  · next hyes =>
    obtain ⟨hless, htogether⟩ := hclosed hyes
    exact .pure ⟨rfl, by omega, htogether rfl⟩
  · refine (Abreast.nextIs _).bind ?_
    rintro m seen ended _ ⟨rfl, hseen⟩
    split
    · refine Abreast.peek.bind ?_
      rintro m back t t' ⟨hmatches, -⟩
      exact .unexpected hmatches _
    · refine (h.statement m seen (by omega)).bind ?_
      rintro m after s _ ⟨rfl, hafter, -⟩
      exact .pure ⟨by omega, rfl, by omega⟩

/-- The body of a function is a block; the count of loops is set aside meanwhile. -/
theorem bodyOfFunction (h : B.Joins g g') (hleft : 2 * left + 2 ≤ g.bound) :
    B.Abreast m left g.bodyOfFunction g'.bodyOfFunction (.closed left) := by
  intro p p' hat hp
  have hat' : B.At m { p with breakable := 0 } { p' with breakable := 0 } := by
    cases m with
    | together => exact ⟨hat.1, rfl⟩
    | alone => exact hat
  refine Abreast.afterwards (h.block hleft _ _ hat' hp) (fun _ => rfl) (fun _ => rfl) ?_
  rintro rfl _ _ _
  exact hat.2

/-! ## Lists in brackets -/

/-- Every turn of the list takes an expression, which counts down. -/
theorem arguments (h : B.Joins g g') {closing : Kind} (hclosing : closing ≠ .eof)
    (hleft : 2 * left + 2 ≤ g.bound) :
    B.Abreast m left (g.arguments closing) (g'.arguments closing) (.below left) := by
  refine .iterate (I := .atMost left) ?_ ⟨rfl, Nat.le_refl _⟩ (by omega) h.bound
  rintro m rest read _ ⟨rfl, hrest⟩
  refine (Abreast.takeIf hclosing).bind ?_
  rintro m found closed _ ⟨rfl, hfound, hclosed⟩
  split
  · next hyes =>
    obtain ⟨hless, -⟩ := hclosed hyes
    exact .pure ⟨rfl, by omega⟩
  · refine (h.expression (by omega)).bind ?_
    rintro m after e _ ⟨rfl, hafter⟩
    refine (Abreast.takeIf (by decide)).bind ?_
    rintro m next more _ ⟨rfl, hnext, -⟩
    split
    · exact .pure ⟨by omega, rfl, by omega⟩
    · refine (Abreast.expect hclosing).bind ?_
      rintro m last _ _ ⟨-, -, hlast⟩
      exact .pure ⟨rfl, by omega⟩

/-! ## Functions -/

/-- The same names are found twice, and the error is at tokens that correspond. -/
theorem distinctNames {params params' : List Token} (h : List.Forall₂ B.token params params') :
    B.Abreast m left (Grammar.distinctNames params) (Grammar.distinctNames params')
      (.atMost left) := by
  have hgo : ∀ read, B.Abreast m left (Grammar.distinctNames.go read params)
      (Grammar.distinctNames.go read params') (.atMost left) := by
    induction h with
    | nil => exact fun read => .pure ⟨rfl, Nat.le_refl _⟩
    | @cons t t' params params' htoken _ ih =>
      intro read
      unfold Grammar.distinctNames.go
      rw [← B.lexeme_eq htoken]
      dsimp only
      split
      · exact .fail (B.error_of_token htoken _)
      · exact ih _
  exact hgo []

/-- The tokens of parameters correspond one by one. -/
theorem parameters (hbound : g.bound ≤ g'.bound) (hleft : left < g.bound) :
    B.Abreast m left g.parameters g'.parameters fun _ after ps ps' =>
      List.Forall₂ B.token ps ps' ∧ after < left := by
  refine .iterate (I := fun _ rest read read' => List.Forall₂ B.token read read' ∧ rest ≤ left)
    ?_ ⟨.nil, Nat.le_refl _⟩ hleft hbound
  rintro m rest read read' ⟨hread, hrest⟩
  refine (Abreast.takeIf (by decide)).bind ?_
  rintro m found closed _ ⟨rfl, hfound, hclosed⟩
  split
  · next hyes =>
    obtain ⟨hless, -⟩ := hclosed hyes
    exact .pure ⟨List.rel_reverse hread, by omega⟩
  · refine (Abreast.expect (by decide)).bind ?_
    rintro m after t t' ⟨hmatches, -, hafter⟩
    have hmore := List.Forall₂.cons hmatches.token hread
    refine (Abreast.takeIf (by decide)).bind ?_
    rintro m next more _ ⟨rfl, hnext, -⟩
    split
    · exact .pure ⟨by omega, hmore, by omega⟩
    · refine (Abreast.expect (by decide)).bind ?_
      rintro m last _ _ ⟨-, -, hlast⟩
      exact .pure ⟨List.rel_reverse hmore, by omega⟩

/-- A function ends with the brace of its body, so both are together after it. -/
theorem functionRest (h : B.Joins g g') (hleft : 2 * left + 2 ≤ g.bound) :
    B.Abreast m left g.functionRest g'.functionRest (.closed left) := by
  refine (Abreast.nextIs _).bind ?_
  rintro m seen named _ ⟨rfl, hseen⟩
  extract_lets rest rest'
  have hrest : ∀ m before name, before ≤ left →
      B.Abreast m before (rest name) (rest' name) (.closed left) := by
    intro m before name hbefore
    refine (Abreast.expect (by decide)).bind ?_
    rintro m opened _ _ ⟨-, -, hopened⟩
    refine (parameters h.bound (by omega)).bind ?_
    rintro m closed params params' ⟨hparams, hclosed⟩
    refine (distinctNames hparams).bind ?_
    rintro m same names _ ⟨rfl, hsame⟩
    refine (Abreast.expect (by decide)).bind ?_
    rintro m inside _ _ ⟨-, -, hinside⟩
    refine (h.bodyOfFunction (by omega)).bind ?_
    rintro m after body _ ⟨rfl, hafter, htogether⟩
    exact .pure ⟨rfl, by omega, htogether⟩
  split
  · refine Abreast.bind (Q := .below seen) (.map .expectName ?_) ?_
    · rintro m after name _ ⟨rfl, hafter⟩
      exact ⟨rfl, hafter⟩
    · rintro m after name _ ⟨rfl, hafter⟩
      exact hrest m after name (by omega)
  · refine Abreast.bind (Q := .atMost seen) (.pure ⟨rfl, Nat.le_refl _⟩) ?_
    rintro m after name _ ⟨rfl, hafter⟩
    exact hrest m after name (by omega)

/-- A lambda may end with an expression, after which the left parser may be alone. -/
theorem lambda (h : B.Joins g g') {params params' : List Token}
    (hparams : List.Forall₂ B.token params params') (hleft : 2 * left + 2 ≤ g.bound) :
    B.Abreast m left (g.lambda params) (g'.lambda params') (.below left) := by
  refine (distinctNames hparams).bind ?_
  rintro m same names _ ⟨rfl, hsame⟩
  refine (Abreast.takeIf (by decide)).bind ?_
  rintro m found braced _ ⟨rfl, hfound, -⟩
  extract_lets rest
  have hrest : ∀ m before body, before < left →
      B.Abreast m before (rest body) (rest body) (.below left) :=
    fun m before body hbefore => .pure ⟨rfl, hbefore⟩
  split
  · refine (h.bodyOfFunction (by omega)).bind ?_
    rintro m after body _ ⟨rfl, hafter, -⟩
    exact hrest m after body (by omega)
  · refine (h.expression (by omega)).bind ?_
    rintro m after e _ ⟨rfl, hafter⟩
    refine Abreast.bind (Q := .atMost after) (.pure ⟨rfl, Nat.le_refl _⟩) ?_
    rintro m after' body _ ⟨rfl, hafter'⟩
    exact hrest m after' body (by omega)

/-- Tokens are handed back in the order opposite to that in which they have been taken. -/
theorem putBackAll {seen seen' : List Token} (h : List.Forall₂ (B.Matches m) seen seen') :
    B.Abreast m left (seen.forM putBack) (seen'.forM putBack)
      (.atMost (left + Token.weights seen)) := by
  induction h generalizing left with
  | nil => exact .pure ⟨rfl, Nat.le_refl _⟩
  | @cons t t' seen seen' hmatches _ ih =>
    refine (Abreast.putBack hmatches).bind ?_
    rintro _ back _ _ ⟨rfl, hback⟩
    refine ih.imp ?_
    rintro m after _ _ ⟨-, hafter⟩
    rw [Token.weights_cons]
    exact ⟨rfl, by omega⟩

/-- What both have seen when they read ahead: tokens that compare so, and no more than was left when
    they began. -/
structure AheadAlike (B : Bond) (R : Token → Token → Prop) (before left : Nat)
    (ahead ahead' : Grammar.Lookahead) : Prop where
  seen : List.Forall₂ R ahead.seen ahead'.seen
  params : List.Forall₂ B.token ahead.params ahead'.params
  wantName : ahead.wantName = ahead'.wantName
  count : left + Token.weights ahead.seen ≤ before

/-- Tokens that may be handed back whatever comes in between. -/
structure Harmless (B : Bond) (t t' : Token) : Prop where
  token : B.token t t'
  eof : t.kind ≠ .eof
  closes : t.kind.closes = false

/-- Tokens of all but a few kinds are harmless. -/
theorem harmless_of_kind {t t' : Token} {kind : Kind} (h : B.token t t') (hkind : t.kind = kind)
    (heof : kind ≠ .eof) (hcloses : kind.closes = false) : Harmless B t t' := by
  subst hkind
  exact ⟨h, heof, hcloses⟩

/-- Harmless tokens match in either mode. -/
theorem Harmless.matches {t t' : Token} (h : Harmless B t t') (m : Mode) : B.Matches m t t' :=
  .ofToken h.token rfl h.eof h.closes m

/-- Looking ahead for a lambda.  Whatever was looked at corresponds and is put back, or it was the
    head and has been taken. -/
theorem lambdaHead (hbound : g.bound ≤ g'.bound) (hleft : left < g.bound) :
    B.Abreast m left g.lambdaHead g'.lambdaHead fun _ after head head' =>
      Option.Rel (List.Forall₂ B.token) head head' ∧ after ≤ left := by
  refine Abreast.bind (Q := fun m after ahead ahead' => ahead.1 = ahead'.1 ∧
    AheadAlike B (B.Matches m) left after ahead.2 ahead'.2) ?_ ?_
  · refine .iterate (I := fun _ rest => AheadAlike B (Harmless B) left rest) ?_
      ⟨.nil, .nil, rfl, Nat.le_refl _⟩ hleft hbound
    rintro m rest ahead ahead' ⟨hseen, hparams, hname, hcount⟩
    refine Abreast.take.bind ?_
    rintro m after t t' ⟨hmatches, hafter⟩
    dsimp only
    rw [hmatches.kind, ← hname]
    have hmore : after + Token.weights (t :: ahead.seen) ≤ left := by
      rw [Token.weights_cons]
      omega
    have hdone : ∀ m, B.Matches m t t' →
        List.Forall₂ (B.Matches m) (t :: ahead.seen) (t' :: ahead'.seen) :=
      fun m ht => .cons ht (hseen.imp fun _ _ h => h.matches m)
    split
    -- a closing parenthesis
    · next hkind =>
      refine (Abreast.nextIs _).bind ?_
      rintro m next arrow _ ⟨rfl, hnext⟩
      have hharmless := harmless_of_kind hmatches.token hkind nofun rfl
      exact .pure ⟨rfl, hdone m (hharmless.matches m), hparams, rfl,
        Nat.le_trans (Nat.add_le_add_right hnext _) hmore⟩
    -- a name
    · next hkind =>
      have hharmless := harmless_of_kind hmatches.token hkind nofun rfl
      split
      · rw [Token.weight_of_kind hkind (by decide)] at hafter
        exact .pure ⟨hafter, .cons hharmless hseen, .cons hmatches.token hparams, rfl, hmore⟩
      · exact .pure ⟨rfl, hdone m hmatches, hparams, rfl, hmore⟩
    -- a comma
    · next hkind =>
      have hharmless := harmless_of_kind hmatches.token hkind nofun rfl
      split
      · exact .pure ⟨rfl, hdone m hmatches, hparams, rfl, hmore⟩
      · rw [Token.weight_of_kind hkind (by decide)] at hafter
        exact .pure ⟨hafter, .cons hharmless hseen, hparams, rfl, hmore⟩
    · exact .pure ⟨rfl, hdone m hmatches, hparams, rfl, hmore⟩
  -- the arrow of a lambda is taken, and else all that was seen is handed back
  · rintro m after ⟨isLambda, ahead⟩ ⟨_, ahead'⟩ ⟨rfl, hahead⟩
    have hcount := hahead.count
    dsimp only at hcount ⊢
    split
    · refine Abreast.take.bind ?_
      rintro m last t t' ⟨-, hlast⟩
      exact .pure ⟨.some (List.rel_reverse hahead.params), by omega⟩
    · refine (putBackAll hahead.seen).bind ?_
      rintro m last _ _ ⟨-, hlast⟩
      exact .pure ⟨.none, Nat.le_trans hlast hcount⟩

/-! ## Operands -/

/-- The entries of an object, one a turn. -/
theorem objectRest (h : B.Joins g g') (hleft : 2 * left + 2 ≤ g.bound) :
    B.Abreast m left g.objectRest g'.objectRest (.below left) := by
  refine .iterate (I := .atMost left) ?_ ⟨rfl, Nat.le_refl _⟩ (by omega) h.bound
  rintro m rest ⟨entries, keys⟩ _ ⟨rfl, hrest⟩
  refine (Abreast.takeIf (by decide)).bind ?_
  rintro m found closed _ ⟨rfl, hfound, hclosed⟩
  split
  · next hyes =>
    obtain ⟨hless, -⟩ := hclosed hyes
    exact .pure ⟨rfl, by omega⟩
  · refine Abreast.take.bind ?_
    rintro m after t t' htaken
    have hmatches := htaken.1
    rw [hmatches.lexeme]
    split
    case h_3 => exact .unexpected hmatches _
    -- a key is a name or a string, and the same follows
    all_goals
      next heq =>
      have hafter := less_of_lexeme htaken heq nofun
      extract_lets more more'
      have hmore : ∀ m before r, before < rest → B.Abreast m before (more r) (more' r)
          (.turn rest (.atMost left) (.below left)) := by
        intro m before _ hbefore
        refine (Abreast.expect (by decide)).bind ?_
        rintro m opened _ _ ⟨-, -, hopened⟩
        refine (h.expression (by omega)).bind ?_
        rintro m after e _ ⟨rfl, hafter⟩
        refine (Abreast.takeIf (by decide)).bind ?_
        rintro m next comma _ ⟨rfl, hnext, -⟩
        split
        · exact .pure ⟨by omega, rfl, by omega⟩
        · refine (Abreast.expect (by decide)).bind ?_
          rintro m last _ _ ⟨-, -, hlast⟩
          exact .pure ⟨rfl, by omega⟩
      split
      · exact .failBind (B.error_of_token hmatches.token _)
      · exact hmore m after () (by omega)

/-- Operands by the token that they begin with. -/
theorem primary (h : B.Joins g g') (hleft : 2 * left ≤ g.bound) :
    B.Abreast m left g.primary g'.primary (.below left) := by
  refine Abreast.take.bind ?_
  rintro m after t t' htaken
  have hmatches := htaken.1
  rw [hmatches.lexeme]
  split
  -- constants and literals
  · next heq => exact .pure ⟨rfl, less_of_lexeme htaken heq nofun⟩
  · next heq => exact .pure ⟨rfl, less_of_lexeme htaken heq nofun⟩
  · next heq => exact .pure ⟨rfl, less_of_lexeme htaken heq nofun⟩
  · next heq => exact .pure ⟨rfl, less_of_lexeme htaken heq nofun⟩
  · next heq => exact .pure ⟨rfl, less_of_lexeme htaken heq nofun⟩
  -- a name, or a lambda with one parameter
  · next heq =>
    have hafter := less_of_lexeme htaken heq nofun
    refine (Abreast.takeIf (by decide)).bind ?_
    rintro m next arrow _ ⟨rfl, hnext, -⟩
    split
    · refine (h.lambda (.cons hmatches.token .nil) (by omega)).imp ?_
      rintro m last e _ ⟨rfl, hlast⟩
      exact ⟨rfl, by omega⟩
    · exact .pure ⟨rfl, by omega⟩
  -- an opening parenthesis: the head of a lambda, or an enclosed expression
  · next heq =>
    have hafter := less_of_lexeme htaken heq nofun
    refine (lambdaHead h.bound (by omega)).bind ?_
    rintro m next head head' ⟨hhead, hnext⟩
    cases hhead with
    | some hparams =>
      refine (h.lambda hparams (by omega)).imp ?_
      rintro m last e _ ⟨rfl, hlast⟩
      exact ⟨rfl, by omega⟩
    | none =>
      refine (h.expression (by omega)).bind ?_
      rintro m inner e _ ⟨rfl, hinner⟩
      refine (Abreast.expect (by decide)).bind ?_
      rintro m last _ _ ⟨-, -, hlast⟩
      exact .pure ⟨rfl, by omega⟩
  -- functions, objects and arrays
  · next heq =>
    have hafter := less_of_lexeme htaken heq nofun
    refine (h.functionRest (by omega)).bind ?_
    rintro m last code _ ⟨rfl, hlast, -⟩
    exact .pure ⟨rfl, by omega⟩
  · next heq =>
    have hafter := less_of_lexeme htaken heq nofun
    refine (h.objectRest (by omega)).imp ?_
    rintro m last e _ ⟨rfl, hlast⟩
    exact ⟨rfl, by omega⟩
  · next heq =>
    have hafter := less_of_lexeme htaken heq nofun
    refine (h.arguments (by decide) (by omega)).bind ?_
    rintro m last es _ ⟨rfl, hlast⟩
    exact .pure ⟨rfl, by omega⟩
  · exact .unexpected hmatches _

/-- An index ends with its bracket, and a member with its name. -/
theorem indexOf (h : B.Joins g g') (target : Expression) {t t' : Token} (ht : B.Matches m t t')
    (hleft : 2 * left + 2 ≤ g.bound) :
    B.Abreast m left (g.indexOf target t) (g'.indexOf target t') (.below left) := by
  unfold Grammar.indexOf
  rw [ht.kind]
  split
  · refine Abreast.expectName.bind ?_
    rintro m after name _ ⟨rfl, hafter⟩
    exact .pure ⟨rfl, hafter⟩
  · refine (h.expression (by omega)).bind ?_
    rintro m after key _ ⟨rfl, hafter⟩
    refine (Abreast.expect (by decide)).bind ?_
    rintro m last _ _ ⟨-, -, hlast⟩
    exact .pure ⟨rfl, by omega⟩

/-- Calls, members and indices after an operand, one a turn. -/
theorem construction (h : B.Joins g g') (hleft : 2 * left + 2 ≤ g.bound) :
    B.Abreast m left g.construction g'.construction (.below left) := by
  refine (h.primary (by omega)).bind ?_
  rintro m first e _ ⟨rfl, hfirst⟩
  refine Abreast.bind (Q := .atMost first) (.iterate (I := .atMost first) ?_ ⟨rfl, Nat.le_refl _⟩
    (by omega) h.bound) ?_
  -- the keys of the maker
  · rintro m rest maker _ ⟨rfl, hrest⟩
    refine Abreast.take.bind ?_
    rintro m after t t' htaken
    have hmatches := htaken.1
    rw [hmatches.kind]
    split
    · next hkind =>
      have hafter : after < rest := by
        rcases Bool.or_eq_true_iff.1 hkind with hdot | hbracket
        · exact less_of_kind htaken (of_decide_eq_true hdot) nofun
        · exact less_of_kind htaken (of_decide_eq_true hbracket) nofun
      refine (h.indexOf maker hmatches (by omega)).bind ?_
      rintro m next e _ ⟨rfl, hnext⟩
      exact .pure ⟨by omega, rfl, by omega⟩
    · refine (Abreast.putBack hmatches).bind ?_
      rintro _ back _ _ ⟨rfl, hback⟩
      have hcount := htaken.2
      exact .pure ⟨rfl, by omega⟩
  -- the arguments, if there are any
  · rintro m after maker _ ⟨rfl, hafter⟩
    refine (Abreast.takeIf (by decide)).bind ?_
    rintro m found more _ ⟨rfl, hfound, -⟩
    extract_lets rest
    have hrest : ∀ m before es, before < left →
        B.Abreast m before (rest es) (rest es) (.below left) :=
      fun m before es hbefore => .pure ⟨rfl, hbefore⟩
    split
    · refine (h.arguments (by decide) (by omega)).bind ?_
      rintro m last es _ ⟨rfl, hlast⟩
      exact hrest m last es (by omega)
    · refine Abreast.bind (Q := .atMost found) (.pure ⟨rfl, Nat.le_refl _⟩) ?_
      rintro m last es _ ⟨rfl, hlast⟩
      exact hrest m last es (by omega)

/-- An operand with the operators before it, each of which counts down. -/
theorem prefixed (h : B.Joins g g') (hleft : 2 * left ≤ g.bound) :
    B.Abreast m left g.prefixed g'.prefixed (.below left) := by
  refine Abreast.take.bind ?_
  rintro m after t t' htaken
  have hmatches := htaken.1
  rw [hmatches.kind]
  split
  case h_8 =>
    refine (Abreast.putBack hmatches).bind ?_
    rintro _ back _ _ ⟨rfl, hback⟩
    have hcount := htaken.2
    refine (h.primary (by omega)).imp ?_
    rintro m last e _ ⟨rfl, hlast⟩
    exact ⟨rfl, by omega⟩
  case h_7 heq =>
    have hafter := less_of_kind htaken heq nofun
    refine (h.construction (by omega)).imp ?_
    rintro m last e _ ⟨rfl, hlast⟩
    exact ⟨rfl, by omega⟩
  all_goals
    next heq =>
    have hafter := less_of_kind htaken heq nofun
    refine (h.expressionFrom m after .stepBefore (by omega)).bind ?_
    rintro m last e _ ⟨rfl, hlast⟩
    exact .pure ⟨rfl, by omega⟩

/-! ## Operators after an operand -/

/-- A branch of a conditional goes on with another conditional. -/
theorem conditionalBranch (h : B.Joins g g') (hleft : 2 * left + 1 ≤ g.bound) :
    B.Abreast m left g.conditionalBranch g'.conditionalBranch (.below left) := by
  refine (h.expressionFrom m left .logicalOr hleft).bind ?_
  rintro m after e _ ⟨rfl, hafter⟩
  refine Abreast.peek.bind ?_
  rintro m back t t' ⟨hmatches, hback⟩
  rw [hmatches.kind]
  extract_lets rest
  split
  · exact .failBind (B.error_of_token hmatches.token _)
  · exact .pure ⟨rfl, by omega⟩

/-- What an operator makes of the operand before it. -/
theorem extend (h : B.Joins g g') (e : Expression) {t t' : Token} (ht : B.Matches m t t')
    (tier : Precedence) (hleft : 2 * left + 2 ≤ g.bound) :
    B.Abreast m left (g.extend e t tier) (g'.extend e t' tier) (.atMost left) := by
  have hbelow : ∀ {m after} {a b : Expression}, Claim.below left m after a b →
      Claim.atMost left m after a b := fun hbelow => ⟨hbelow.1, Nat.le_of_lt hbelow.2⟩
  unfold Grammar.extend
  rw [ht.kind]
  split
  · refine (h.expressionFrom m left .conditional (by omega)).bind ?_
    rintro m after value _ ⟨rfl, hafter⟩
    exact .pure ⟨rfl, by omega⟩
  · split
    · refine (h.expressionFrom m left .conditional (by omega)).bind ?_
      rintro m after value _ ⟨rfl, hafter⟩
      exact .pure ⟨rfl, by omega⟩
    -- a conditional
    · refine (h.conditionalBranch (by omega)).bind ?_
      rintro m after thenValue _ ⟨rfl, hafter⟩
      refine (Abreast.expect (by decide)).bind ?_
      rintro m next _ _ ⟨-, -, hnext⟩
      refine (h.conditionalBranch (by omega)).bind ?_
      rintro m last elseValue _ ⟨rfl, hlast⟩
      exact .pure ⟨rfl, by omega⟩
    -- steps
    · exact .pure ⟨rfl, Nat.le_refl _⟩
    · exact .pure ⟨rfl, Nat.le_refl _⟩
    -- a call
    · refine (h.arguments (by decide) hleft).bind ?_
      rintro m last es _ ⟨rfl, hlast⟩
      exact .pure ⟨rfl, by omega⟩
    · exact (h.indexOf e ht hleft).imp fun _ _ _ _ => hbelow
    · exact (h.indexOf e ht hleft).imp fun _ _ _ _ => hbelow
    -- a binary operator
    · refine (h.expressionFrom m left _ (by omega)).bind ?_
      rintro m after value _ ⟨rfl, hafter⟩
      exact .pure ⟨rfl, by omega⟩

/-- An operand, then an operator a turn. -/
theorem operation (h : B.Joins g g') (tier : Precedence) (hleft : 2 * left ≤ g.bound) :
    B.Abreast m left (g.operation tier) (g'.operation tier) (.below left) := by
  refine (h.prefixed hleft).bind ?_
  rintro m first e _ ⟨rfl, hfirst⟩
  refine .iterate (I := .atMost first) ?_ ⟨rfl, Nat.le_refl _⟩ (by omega) h.bound
  rintro m rest e _ ⟨rfl, hrest⟩
  refine .peekBind ?_
  rintro m after t t' htaken
  have hmatches := htaken.1
  have hcount := htaken.2
  let stop : Turn Expression Expression := .done e
  have hstop : B.Abreast m after (putBack t >>= fun _ => pure stop)
      (putBack t' >>= fun _ => pure stop) (.turn rest (.atMost first) (.below left)) := by
    refine (Abreast.putBack hmatches).bind ?_
    rintro _ back _ _ ⟨rfl, hback⟩
    exact .pure ⟨rfl, by omega⟩
  rw [hmatches.kind]
  split
  · exact hstop
  · next found hfound =>
    split
    · exact hstop
    · -- what is taken is what has been looked at
      rw [Parser.putBack_take, Parser.putBack_take]
      have hafter : after < rest := by
        refine less_of_kind htaken rfl fun heof => ?_
        rw [heof] at hfound
        cases hfound
      refine (h.extend e hmatches found (by omega)).bind ?_
      rintro m last e _ ⟨rfl, hlast⟩
      exact .pure ⟨by omega, rfl, by omega⟩

end Joins

end Bond

end Tao
