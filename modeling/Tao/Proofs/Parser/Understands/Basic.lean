/-
  Whatever is written is read.

  A grammar UNDERSTANDS so many lexemes if it reads every expression and every statement written
  with no more than that, and gives the tree that was written.  The rules for expressions,
  statements and scripts come in modules of their own; `understands_ofFuel` ties the knot in the
  last of them, by induction on the levels: each level takes a lexeme before it comes to a lower
  one.

  An expression in parentheses ends where a mark follows that goes on with no operand
  (`Precedence.stopsAt`).
-/
import Tao.Proofs.Parser.Reads
import Tao.Proofs.Parser.Written

namespace Tao

open Tao.Parser

/-- Does an operand that is read from this tier on end before such a token? -/
def Precedence.stopsAt (tier : Precedence) (kind : Kind) : Bool :=
  kind != .lambda &&
    match afterOperand? kind with
    | none => true
    | some found => found.rank < tier.rank

/-- An arrow stops no loop. -/
theorem Precedence.ne_lambda_of_stopsAt {tier : Precedence} {kind : Kind}
    (h : tier.stopsAt kind = true) : kind ≠ .lambda := by
  rintro rfl
  cases h

namespace Grammar

/-- The grammar reads what is written with at most `size` lexemes. -/
structure Understands (g : Grammar) (size : Nat) : Prop where
  bound : size + 4 ≤ g.bound
  bare : ∀ {n e i o}, Written (.bare e) i (.mark .rightParen :: o) → i.length ≤ size →
    Reads n n g.expression i (.mark .rightParen :: o) (· = e)
  operand : ∀ {n e i l o tier}, Written (.enclosed e) i (l :: o) → tier.stopsAt l.kind = true →
    i.length ≤ size → Reads n n (g.expressionFrom tier) i (l :: o) (· = e)
  statement : ∀ {n inside s i l o}, Written (.statement inside s) i (l :: o) →
    (inside = true → n ≠ 0) → i.length < size → Reads n n g.statement i (l :: o) (· = s)
  conditional : ∀ {n inside condition thenBody otherwise i l o},
    Written (.conditional inside condition thenBody otherwise) i (l :: o) →
    (inside = true → n ≠ 0) → i.length < size →
    Reads n n g.conditional i (l :: o) (· = .branch condition thenBody otherwise)

variable {g : Grammar} {size n : Nat} {i j o : List Lexeme} {l : Lexeme} {e : Expression}
  {es : List Expression} {inside : Bool} {body : List Statement} {names : List String}
  {tier : Precedence} {tokens : List Token}

/-! ## How phrases begin -/

/-- An expression in parentheses begins with one. -/
theorem exists_of_enclosed (h : Written (.enclosed e) i o) :
    ∃ j, i = .mark .leftParen :: j ∧ Written (.bare e) j (.mark .rightParen :: o) := by
  cases h with
  | enclosed h => exact ⟨_, rfl, h⟩

/-- No statement begins with what ends a block, a group or the text. -/
theorem exists_of_statement {s : Statement} (h : Written (.statement inside s) i o) :
    ∃ l j, i = l :: j ∧ l.kind.endsGroup = false ∧ l.kind ≠ .eof := by
  cases h with
  | expression h =>
    obtain ⟨j, rfl, -⟩ := exists_of_enclosed h
    exact ⟨_, _, rfl, rfl, by decide⟩
  | _ => exact ⟨_, _, rfl, rfl, by decide⟩

/-! ## Expressions in parentheses -/

/-- An expression in parentheses, read from the loosest tier. -/
theorem Understands.enclosed (h : g.Understands size) (hw : Written (.enclosed e) i (l :: o))
    (hstops : Precedence.assignment.stopsAt l.kind = true) (hsize : i.length ≤ size) :
    Reads n n g.expression i (l :: o) (· = e) :=
  h.operand hw hstops hsize

/-! ## Blocks -/

/-- A block is read statement by statement. -/
theorem Understands.block (h : g.Understands size) (hw : Written (.block inside body) i o)
    (hinside : inside = true → n ≠ 0) (hsize : i.length < size) :
    Reads n n g.block i o (· = body) := by
  have hbound := h.bound
  refine Reads.iterate (W := fun read i => ∃ rest, Written (.block inside rest) i o ∧
    i.length < size ∧ read.reverse ++ rest = body) ?_ ⟨body, hw, hsize, rfl⟩ (by omega)
  rintro read i ⟨rest, hw, hsize, hall⟩
  cases hw with
  | blockEnd =>
    refine .inl ((reads_takeIf rfl).bindEq (.pure ⟨_, rfl, ?_⟩))
    rw [← hall, List.append_nil]
  | @blockStatement _ s _ j rest _ hs hrest =>
    have hlength := hs.length_le
    have hrestLength := hrest.length_le
    simp only [Phrase.least] at hlength hrestLength
    obtain ⟨l, j, rfl⟩ := List.exists_cons_of_length_pos (Nat.zero_lt_of_lt hrestLength)
    obtain ⟨first, _, rfl, hends, heof⟩ := exists_of_statement hs
    have hclosed : first.kind ≠ .rightBrace := by
      intro hkind
      rw [hkind] at hends
      cases hends
    refine .inr ⟨l :: j, by omega, ?_⟩
    refine (reads_takeIf_not hclosed).bindEq ((reads_nextIs .eof).bindEq ?_)
    rw [decide_eq_false heof]
    refine (h.statement hs hinside hsize).bindEq (.pure ⟨_, rfl, rest, hrest, by omega, ?_⟩)
    rw [List.reverse_cons, ← List.append_cons, hall]

/-- The body of a function stands in no loop. -/
theorem Understands.bodyOfFunction (h : g.Understands size) (hw : Written (.block false body) i o)
    (hsize : i.length < size) : Reads n n g.bodyOfFunction i o (· = body) := by
  intro parser hn hoffers
  obtain ⟨a, next, hresult, _, houtput, ha⟩ :=
    h.block hw Bool.noConfusion hsize { parser with breakable := 0 } rfl hoffers
  refine ⟨a, { next with breakable := parser.breakable }, ?_, hn, houtput, ha⟩
  unfold Grammar.bodyOfFunction Parser.afterwards
  rw [hresult]

end Grammar

end Tao
