/-
  Precedence climbing builds the tree that tiers prescribe.

  The parser reads a chain of operands and binary operators by a loop that calls itself for every
  right operand, from a tier that depends on the operator.  The loop knows of no tree but the one
  it has so far.  That it comes to the grouped tree of the whole chain is shown by induction on that
  tree: the left edge of the tree is what the loop goes through, and a right operand is read by the
  loop of another level, which stops where the tree says that it does.
-/
import Tao.Proofs.Parser.Climbing.Operand
import Tao.Proofs.Parser.Climbing.Tree

namespace Tao

open Tao.Parser Tao.Grammar

variable {n : Nat} {i j o out : List Lexeme} {l : Lexeme} {tier found : Precedence}
  {P : Expression → Prop} {p q : BinaryOperator} {kind : Kind}

/-! ## Where a loop stops -/

/-- What stops a loop stops every loop of a tighter tier. -/
theorem Precedence.stopsAt_of_le {tighter : Precedence} (hle : tier.rank ≤ tighter.rank)
    (h : tier.stopsAt kind = true) : tighter.stopsAt kind = true := by
  unfold stopsAt at h ⊢
  cases hfound : afterOperand? kind with
  | none => rwa [hfound] at h
  | some found =>
    rw [hfound, Bool.and_eq_true, decide_eq_true_eq] at h
    rw [Bool.and_eq_true, decide_eq_true_eq]
    exact ⟨h.1, Nat.lt_of_lt_of_le h.2 hle⟩

/-- What goes on with no operand stops every loop. -/
theorem Precedence.stopsAt_of_none (hnone : afterOperand? kind = none) (h : kind ≠ .lambda) :
    tier.stopsAt kind = true := by
  unfold stopsAt
  rw [hnone, Bool.and_true]
  exact bne_iff_ne.2 h

namespace BinaryOperator

/-- An operator stops the loops of tighter tiers than its own. -/
theorem stopsAt_iff : tier.stopsAt p.kind = true ↔ p.rank < tier.rank := by
  have hlambda : (p.kind != .lambda) = true := by
    refine bne_iff_ne.2 fun hkind => ?_
    have hbinary := p.isBinary
    rw [hkind] at hbinary
    cases hbinary
  unfold Precedence.stopsAt
  rw [p.afterOperand_eq, hlambda, Bool.true_and]
  exact decide_eq_true_iff

/-- Operators before an operand bind tighter than any right operand. -/
theorem rightTier_le (p : BinaryOperator) : p.rightTier.rank ≤ Precedence.stepBefore.rank := by
  have hle := p.rank_le
  have hnext : Precedence.exponentiation.rank + 1 ≤ Precedence.stepBefore.rank := by decide
  rw [rank_rightTier]
  split <;> omega

end BinaryOperator

/-! ## Trees of operands -/

namespace OperatorTree

variable {t : OperatorTree Operand}

/-- The expression that a tree stands for. -/
def value : OperatorTree Operand → Expression
  | operand x => x.value
  | node l p r => .binary p.kind l.value r.value

/-- The lexemes of a tree, from left to right. -/
def lexemes : OperatorTree Operand → List Lexeme
  | operand x => x.lexemes
  | node l p r => l.lexemes ++ .mark p.kind :: r.lexemes

end OperatorTree

/-- The lexemes of a chain. -/
def chainLexemes (first : Operand) (rest : List (BinaryOperator × Operand)) : List Lexeme :=
  first.lexemes ++ rest.flatMap fun (p, x) => .mark p.kind :: x.lexemes

namespace OperatorTree

variable {t : OperatorTree Operand}

/-- A tree is written as the chain that it groups. -/
theorem chainLexemes_eq (t : OperatorTree Operand) : chainLexemes t.first t.rest = t.lexemes := by
  induction t with
  | operand x => exact List.append_nil _
  | node l p r ihl ihr =>
    unfold chainLexemes at ihl ihr ⊢
    unfold lexemes
    rw [← ihl, ← ihr]
    simp only [first, rest, List.flatMap_append, List.flatMap_cons, List.append_assoc,
      List.cons_append]

/-- What an operation that begins with the lexemes of a grouped tree comes to, if the loop takes the
    topmost operator and the right edge of the tree stops at what follows.  Induction on the tree:
    the left operand is what the loop has before it takes the topmost operator, and the right one is
    read by a loop of its own. -/
theorem Grouped.settles (h : t.Grouped) (htier : tier.rank ≤ Precedence.stepBefore.rank)
    (hroot : ∀ p ∈ t.root?, tier.rank ≤ p.rank)
    (hstops : ∀ p ∈ t.root?, p.rightTier.stopsAt l.kind = true)
    (hoperand : Precedence.stepBefore.stopsAt l.kind = true)
    (honward : Onward n tier (l :: o) out P t.value) :
    Settles n (fun fuel => (ofFuel fuel).operation tier) (t.lexemes ++ l :: o) out P := by
  induction t generalizing tier l o out P with
  | operand x => exact x.isOperand.settles htier hoperand honward
  | node left p right ihl ihr =>
    obtain ⟨hl, hr, hleft, hright⟩ := h
    have hp := hstops p rfl
    -- the right operand is read by a loop that stops where this one does
    have hvalue : Settles n (fun fuel => (ofFuel fuel).expressionFrom p.rightTier)
        (right.lexemes ++ l :: o) (l :: o) (· = right.value) := by
      refine settles_expressionFrom (ihr hr p.rightTier_le ?_ ?_ hoperand (.stop hp))
      · exact fun q hq => BinaryOperator.allowsRight_iff.1 (hright q hq)
      · intro q hq
        have hle := BinaryOperator.allowsRight_iff.1 (hright q hq)
        exact Precedence.stopsAt_of_le (Nat.le_trans hle q.rank_le_rightTier) hp
    have hturn : Settles n (fun fuel => (ofFuel fuel).operatorTurn tier left.value)
        (.mark p.kind :: (right.lexemes ++ l :: o)) (l :: o)
        (· = .again (.binary p.kind left.value right.value)) := by
      refine settles_operatorTurn p.afterOperand_eq (hroot p rfl) fun token hkind => ?_
      have hbinary : token.kind.isBinary = true := by
        rw [hkind]
        exact p.isBinary
      simp only [extend_binary _ left.value p.tier hbinary, hkind]
      exact hvalue.bindEq (.pure rfl)
    unfold lexemes
    rw [List.append_assoc, List.cons_append]
    refine ihl hl htier ?_ ?_ ?_ (.again hturn honward)
    · exact fun q hq => Nat.le_trans (hroot p rfl) (hleft q hq).le
    · intro q hq
      have hstop := BinaryOperator.allowsLeft_iff.1 (hleft q hq)
      rw [BinaryOperator.allowsRight_iff] at hstop
      exact BinaryOperator.stopsAt_iff.2 (Nat.lt_of_not_le hstop)
    · exact BinaryOperator.stopsAt_iff.2 (Nat.lt_of_le_of_lt p.rank_le (by decide))

/-- The parser reads the lexemes of a grouped tree, and gives the expression it stands for. -/
theorem Grouped.reads (h : t.Grouped) (hend : Precedence.afterOperand? l.kind = none)
    (hlambda : l.kind ≠ .lambda) :
    Reads n n Parser.expression (t.lexemes ++ l :: o) (l :: o) (· = t.value) := by
  have hstops : ∀ tier : Precedence, tier.stopsAt l.kind = true :=
    fun tier => Precedence.stopsAt_of_none hend hlambda
  refine (steady_expressionFrom .assignment).settles_iff.1 (settles_expressionFrom ?_)
  exact h.settles (by decide) (fun p _ => assignment_rank_le p.tier) (fun p _ => hstops p.rightTier)
    (hstops .stepBefore) (.stop (hstops .assignment))

/-- So chains nest: what is read may stand in brackets of another operand. -/
theorem Grouped.isRead {closing : Kind} (h : t.Grouped)
    (hend : Precedence.afterOperand? closing = none) (hlambda : closing ≠ .lambda) :
    IsRead closing t.lexemes t.value :=
  fun _ _ => h.reads hend hlambda

end OperatorTree

/-- Precedence climbing: a chain of operands and binary operators, before what is neither an
    operator after an operand nor an arrow, has exactly one grouped tree, and the parser reads just
    the chain and gives the expression which that tree stands for. -/
theorem Parser.expression_climbs (first : Operand) (rest : List (BinaryOperator × Operand))
    {l : Lexeme} (hend : Precedence.afterOperand? l.kind = none) (hlambda : l.kind ≠ .lambda) :
    ∃ t : OperatorTree Operand, t.first = first ∧ t.rest = rest ∧ t.Grouped ∧
      (∀ u : OperatorTree Operand, u.first = first → u.rest = rest → u.Grouped → u = t) ∧
      ∀ n o, Reads n n Parser.expression (chainLexemes first rest ++ l :: o) (l :: o)
        (· = t.value) := by
  have hfirst : (OperatorTree.ofChain first rest).first = first :=
    OperatorTree.first_appendChain _ rest
  have hrest : (OperatorTree.ofChain first rest).rest = rest :=
    OperatorTree.rest_appendChain (.operand first) rest
  have hgrouped : (OperatorTree.ofChain first rest).Grouped :=
    OperatorTree.Grouped.appendChain (t := .operand first) trivial rest
  refine ⟨.ofChain first rest, hfirst, hrest, hgrouped, ?_, fun n o => ?_⟩
  · rintro u rfl rfl hu
    exact hu.ofChain_eq.symm
  · have hread := hgrouped.reads (n := n) (o := o) hend hlambda
    rwa [← OperatorTree.chainLexemes_eq, hfirst, hrest] at hread

/-- `-a.k ** 2 - b * (c - d)`, before a semicolon. -/
theorem Parser.expression_climbs_difference :
    Precedence.afterOperand? (Lexeme.mark .semicolon).kind = none ∧
      (Lexeme.mark .semicolon).kind ≠ .lambda ∧
      Reads 0 0 Parser.expression
        [.mark .minus, .name "a", .mark .dot, .name "k", .mark .starStar, .number 2, .mark .minus,
          .name "b", .mark .star, .mark .leftParen, .name "c", .mark .minus, .name "d",
          .mark .rightParen, .mark .semicolon] [.mark .semicolon]
        (· = .binary .minus
          (.binary .starStar
            (.unary .minus (.index (.name "a") (.literal (.string "k"))))
            (.literal (.number 2)))
          (.binary .star (.name "b") (.binary .minus (.name "c") (.name "d")))) := by
  let minus : BinaryOperator := ⟨.minus, rfl⟩
  let star : BinaryOperator := ⟨.star, rfl⟩
  let starStar : BinaryOperator := ⟨.starStar, rfl⟩
  let negated : Operand := ⟨[.mark .minus, .name "a", .mark .dot, .name "k"], _,
    .unary rfl (.postfixed (.part (.atom (.name "a")) (.member "k")))⟩
  let inner : OperatorTree Operand := .node (.operand (.name "c")) minus (.operand (.name "d"))
  let enclosed : Operand := ⟨_, _, .postfixed (.atom (.enclosed
    (OperatorTree.Grouped.isRead (t := inner) (by decide) rfl (by decide))))⟩
  let tree : OperatorTree Operand :=
    .node (.node (.operand negated) starStar (.operand (.number 2))) minus
      (.node (.operand (.name "b")) star (.operand enclosed))
  refine ⟨rfl, by decide, ?_⟩
  obtain ⟨t, -, -, -, hunique, hreads⟩ :=
    Parser.expression_climbs negated [(starStar, .number 2), (minus, .name "b"), (star, enclosed)]
      (l := .mark .semicolon) rfl (by decide)
  obtain rfl : tree = t := hunique tree rfl rfl (by decide)
  exact hreads 0 []

end Tao
