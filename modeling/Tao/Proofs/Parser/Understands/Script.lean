/-
  Scripts that are written are read.

  Each level of the grammar takes a lexeme before it comes to a lower one, so that as many levels as
  there are lexemes, and a few more for what takes none, understand them all.
-/
import Tao.Parser.Script
import Tao.Proofs.Parser.Understands.Statement

namespace Tao.Grammar

open Tao.Parser

variable {g : Grammar} {size : Nat} {i : List Lexeme} {body : List Statement}

/-! ## Levels -/

/-- One level more reads one lexeme more. -/
theorem Understands.above {k : Nat} (h : (ofFuel k).Understands size) :
    (ofFuel (k + 1)).Understands (size + 1) := by
  have hbound := h.bound
  refine ⟨Nat.succ_le_succ hbound, ?bare, ?operand, ?statement, ?conditional⟩
  case bare =>
    intro n e i o hw hsize
    unfold Grammar.expression
    rw [expressionFrom_succ]
    exact h.expressionAbove hw hsize
  case operand =>
    intro n e i l o tier hw hstops hsize
    rw [expressionFrom_succ]
    exact h.operationDone
      (h.prefixedEnclosed hw (Precedence.ne_lambda_of_stopsAt hstops) hsize) hstops
  case statement =>
    intro n inside s i l o hw hinside hsize
    rw [statement_succ]
    exact h.anyStatement hw hinside (Nat.le_of_lt_succ hsize)
  case conditional =>
    intro n inside condition thenBody otherwise i l o hw hinside hsize
    rw [conditional_succ]
    exact h.branching hw hinside (Nat.le_of_lt_succ hsize)

/-- As many levels as there are lexemes, and four more, are enough. -/
theorem understands_ofFuel (size k : Nat) (hk : size + 4 ≤ k) : (ofFuel k).Understands size := by
  induction size generalizing k with
  | zero =>
    -- Nothing is written with no lexeme.
    refine ⟨hk, ?bare, ?operand, ?statement, ?conditional⟩
    case bare =>
      intro n e i o hw hsize
      have hlength := hw.length_le
      simp only [Phrase.least, List.length_cons] at hlength
      omega
    case operand =>
      intro n e i l o tier hw hstops hsize
      have hlength := hw.length_le
      simp only [Phrase.least, List.length_cons] at hlength
      omega
    case statement =>
      intro n inside s i l o hw hinside hsize
      exact absurd hsize (Nat.not_lt_zero _)
    case conditional =>
      intro n inside condition thenBody otherwise i l o hw hinside hsize
      exact absurd hsize (Nat.not_lt_zero _)
  | succ size ih =>
    obtain ⟨k, rfl⟩ : ∃ rest, k = rest + 1 := ⟨k - 1, by omega⟩
    exact (ih k (by omega)).above

/-! ## Scripts -/

/-- A script is read up to the end of the text, which is left. -/
theorem Understands.script (h : g.Understands size) (hw : Written (.script body) i [])
    (hsize : i.length < size) : Reads 0 0 g.script i [.mark .eof] (· = ⟨body⟩) := by
  have hbound := h.bound
  refine Reads.iterate (W := fun read i => ∃ rest, Written (.script rest) i [] ∧
    i.length < size ∧ read.reverse ++ rest = body) ?_ ⟨body, hw, hsize, rfl⟩ (by omega)
  rintro read i ⟨rest, hw, hsize, hall⟩
  cases hw with
  | scriptEnd =>
    refine .inl (reads_peek.bind fun start hstart => ?_)
    have hkind : start.kind = .eof := congrArg Lexeme.kind hstart
    rw [List.append_nil] at hall
    rw [if_pos hkind, hall]
    exact .pure ⟨_, rfl, rfl⟩
  | @scriptStatement s _ _ rest _ hdefinition hs hrest =>
    have hlength := hs.length_le
    have hrestLength := hrest.length_le
    simp only [Phrase.least] at hlength hrestLength
    obtain ⟨l, j, rfl⟩ := List.exists_cons_of_length_pos (Nat.zero_lt_of_lt hrestLength)
    obtain ⟨first, _, rfl, -, heof⟩ := exists_of_statement hs
    refine .inr ⟨l :: j, by omega, reads_peek.bind fun start hstart => ?_⟩
    have hkind : start.kind ≠ .eof :=
      fun hkind => heof ((congrArg Lexeme.kind hstart).symm.trans hkind)
    have hread : (s :: read).reverse ++ rest = body := by
      rw [List.reverse_cons, ← List.append_cons, hall]
    rw [if_neg hkind]
    refine (h.statement hs (by decide) hsize).bindEq ?_
    cases s <;>
      first
        | exact .pure ⟨_, rfl, rest, hrest, by omega, hread⟩
        | cases hdefinition

end Tao.Grammar
