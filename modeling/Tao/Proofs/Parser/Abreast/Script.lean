/-
  Scripts abreast, and fuel that is enough.

  Where grammars are joined, the statements of a script are read abreast, wherever the loop over
  them stands: the right one may have read statements before.

  The simplest bond is that of two parsers that read the same stream (`Bond.same`).  From it comes
  that fuel is only a bound: with enough of it for what is left to read, parsing ends with a result,
  and it is the same with any more fuel and any more turns.
-/
import Tao.Proofs.Parser.Abreast.Statement

namespace Tao

open Tao.Parser

/-- One turn of reading a script: the next statement, or the end of the text. -/
def Grammar.scriptTurn (g : Grammar) (read : List Statement) :
    Parse (Turn (List Statement) Program) := do
  let start ← peek
  if start.kind = .eof then
    return .done ⟨read.reverse⟩
  else
    let statement ← g.statement
    match statement with
    | .define .. | .function _ | .empty => return .again (statement :: read)
    | _ => fail ⟨.misplacedStatement, start.position⟩

/-- A script is read turn by turn. -/
theorem Grammar.script_eq (g : Grammar) : g.script = iterate g.bound g.scriptTurn [] := rfl

namespace Bond

/-- Scripts of joined grammars, where the right one has read some statements before. -/
theorem Joins.script {B : Bond} {g g' : Grammar} {m : Mode} {left turns turns' : Nat}
    (h : B.Joins g g') (hleft : 2 * left + 2 ≤ g.bound) (first read : List Statement)
    (hturns : left < turns) (hle : turns ≤ turns') :
    B.Abreast m left (iterate turns g.scriptTurn read) (iterate turns' g'.scriptTurn (read ++ first))
      fun _ _ program program' => program'.statements = first.reverse ++ program.statements := by
  refine .iterate (I := fun _ rest read read' => read' = read ++ first ∧ rest ≤ left) ?_
    ⟨rfl, Nat.le_refl _⟩ hturns hle
  rintro m rest read _ ⟨rfl, hrest⟩
  refine Abreast.peek.bind ?_
  rintro m seen t t' ⟨hmatches, hseen⟩
  rw [hmatches.kind]
  split
  · exact .pure List.reverse_append
  · refine (h.statement m seen (by omega)).bind ?_
    rintro m after s _ ⟨rfl, hafter, -⟩
    split
    case h_4 => exact .fail (B.error_of_token hmatches.token _)
    all_goals exact .pure ⟨by omega, rfl, by omega⟩

/-! ## The same stream -/

/-- Two parsers that read the same stream. -/
def same : Bond where
  together := (· = ·)
  alone _ := False
  token := (· = ·)
  error := (· = ·)
  lenient := False
  endsTogether := True
  lexeme_eq := congrArg Token.lexeme
  error_of_token := by
    rintro t _ rfl cause
    rfl
  lenient_of_alone := id
  next_together := by
    rintro s _ t next rfl hnext
    exact .inl ⟨t, next, hnext, rfl, fun _ => trivial, rfl⟩
  next_error := by
    rintro s _ e next rfl hnext
    exact .inr ⟨e, next, hnext, rfl⟩
  putBack_together := by
    rintro s _ t _ rfl rfl _
    rfl
  next_alone := False.elim
  putBack_alone h _ := h

variable {α : Type} {x x' : Parse α} {p q : Parser} {Q : Claim α} {left : Nat} {a : α}
  {e : SyntaxError}

/-- What the right one gives is what the left one gives. -/
theorem ok_of_same (h : same.Abreast .together left x x' Q) (hleft : p.tokens.left = left)
    (hx' : x' p = .ok a q) : ∃ b, x p = .ok b q ∧ Q .together q.tokens.left b a := by
  have hends := h p p ⟨rfl, rfl⟩ hleft
  rw [hx'] at hends
  cases hx : x p with
  | ok b next =>
    rw [hx] at hends
    rcases hends with ⟨-, a', next', hright, ⟨hnext, hcount⟩, hq⟩ | ⟨halone, -⟩
    · cases hright
      obtain ⟨tokens, breakable⟩ := next
      obtain ⟨tokens', breakable'⟩ := q
      cases hnext
      cases hcount
      exact ⟨b, rfl, hq⟩
    · exact halone.elim
  | error halt next =>
    rw [hx] at hends
    cases halt with
    | outOfFuel => exact hends.elim
    | failed e =>
      rcases hends rfl with hlenient | ⟨e', next', hright, -⟩
      · exact hlenient.elim
      · cases hright

/-- What the left one gives is what the right one gives. -/
theorem ok_of_same' (h : same.Abreast .together left x x' Q) (hleft : p.tokens.left = left)
    (hx : x p = .ok a q) : ∃ b, x' p = .ok b q ∧ Q .together q.tokens.left a b := by
  have hends := h p p ⟨rfl, rfl⟩ hleft
  rw [hx] at hends
  rcases hends with ⟨-, b, next', hright, ⟨hnext, hcount⟩, hq⟩ | ⟨halone, -⟩
  · obtain ⟨tokens, breakable⟩ := next'
    obtain ⟨tokens', breakable'⟩ := q
    cases hnext
    cases hcount
    exact ⟨b, hright, hq⟩
  · exact halone.elim

/-- The left one fails as the right one does. -/
theorem failed_of_same (h : same.Abreast .together left x x' Q) (hleft : p.tokens.left = left)
    (hx' : x' p = .error (.failed e) q) : ∃ q', x p = .error (.failed e) q' := by
  have hends := h p p ⟨rfl, rfl⟩ hleft
  rw [hx'] at hends
  cases hx : x p with
  | ok b next =>
    rw [hx] at hends
    rcases hends with ⟨-, a', next', hright, -⟩ | ⟨halone, -⟩
    · cases hright
    · exact halone.elim
  | error halt next =>
    rw [hx] at hends
    cases halt with
    | outOfFuel => exact hends.elim
    | failed found =>
      rcases hends rfl with hlenient | ⟨e', next', hright, herror⟩
      · exact hlenient.elim
      · cases hright
        obtain rfl : found = e := herror
        exact ⟨next, rfl⟩

end Bond

end Tao
