/-
  Parsing ends.

  The scanner goes on offering the end of the text for as long as it is asked, and the grammar hands
  tokens back, so nothing about a token stream says by itself that a parser comes to an end.  Here
  it is shown of every text, well formed or not, by the two judgements about grammars.  Read abreast
  with itself, a parser has fuel enough, and what it fails with is reported in the text
  (`Bond.within`); run on credit, it takes no more tokens than the price of the text.
-/
import Tao.Proofs.Parser.Abreast.Script
import Tao.Proofs.Parser.Draws.Statement
import Tao.Proofs.Scanner.Within

namespace Tao

/-! ## Errors in the text -/

namespace Bond

/-- Two parsers that read the same stream, all of which comes from one text. -/
def within (text : List Char) : Bond where
  together s s' := s = s' ∧ s.Within text
  alone _ := False
  token t t' := t = t' ∧ t.position.IsIn text
  error e e' := e = e' ∧ e.position.IsIn text
  lenient := False
  endsTogether := True
  lexeme_eq h := congrArg Token.lexeme h.1
  error_of_token := by
    rintro t _ ⟨rfl, hposition⟩ cause
    exact ⟨rfl, hposition⟩
  lenient_of_alone := id
  next_together := by
    rintro s _ t next ⟨rfl, hwithin⟩ hnext
    obtain ⟨hposition, hafter⟩ := hwithin.next hnext
    exact .inl ⟨t, next, hnext, ⟨rfl, hposition⟩, fun _ => trivial, rfl, hafter⟩
  next_error := by
    rintro s _ e next ⟨rfl, hwithin⟩ hnext
    exact .inr ⟨e, next, hnext, rfl, hwithin.error hnext⟩
  putBack_together := by
    rintro s _ t _ ⟨rfl, hwithin⟩ ⟨rfl, hposition⟩ _
    exact ⟨rfl, hwithin.putBack hposition⟩
  next_alone := False.elim
  putBack_alone h _ := h

end Bond

namespace Parser

variable {α : Type} {text : String} {x : Parse α}

/-- The parser has a result, which is a tree or an error that is reported in the text. -/
def Results (x : Parse α) (text : String) : Prop :=
  (∃ a next, x (.ofText text) = .ok a next) ∨
    ∃ e next, x (.ofText text) = .error (.failed e) next ∧ e.position.IsIn text.toList

theorem left_ofText (text : String) : (ofText text).tokens.left = text.toList.length :=
  Nat.zero_add _

/-- A parser that keeps abreast of itself within a text has a result there. -/
theorem results_of_abreast {Q : Claim α}
    (h : (Bond.within text.toList).Abreast .together text.toList.length x x Q) :
    Results x text := by
  have hat : (Bond.within text.toList).At .together (ofText text) (ofText text) :=
    ⟨⟨rfl, TokenStream.within_ofText text⟩, rfl⟩
  have hends := h _ _ hat (left_ofText text)
  unfold Results
  cases hx : x (ofText text) with
  | ok a next => exact .inl ⟨a, next, rfl⟩
  | error halt next =>
    rw [hx] at hends
    cases halt with
    | outOfFuel => exact hends.elim
    | failed e =>
      rcases hends rfl with hlenient | ⟨_, _, -, -, hposition⟩
      · exact hlenient.elim
      · exact .inr ⟨e, next, rfl, hposition⟩

/-! ## Fuel -/

/-- The fuel that a parser of a text has is enough for what its length asks for. -/
theorem length_le_fuel (text : String) : 4 * text.toList.length + 8 ≤ (ofText text).fuel := by
  have hleft := (ofText text).tokens.left_le_remaining
  rw [left_ofText] at hleft
  exact Nat.le_trans (by omega) (le_fullStacks _)

/-- The entry points run the grammar of that fuel. -/
theorem script_ofText (text : String) :
    script (ofText text) = (Grammar.ofFuel (ofText text).fuel).script (ofText text) := rfl

theorem expression_ofText (text : String) :
    expression (ofText text) = (Grammar.ofFuel (ofText text).fuel).expression (ofText text) := rfl

/-- A script ends in a tree or in an error in the text. -/
theorem results_script (text : String) : Results script text := by
  have hfuel := length_le_fuel text
  unfold Results
  rw [script_ofText]
  generalize (ofText text).fuel = fuel at hfuel
  have hjoins := (Bond.within text.toList).joins_ofFuel (Nat.le_refl fuel)
  have hleft : 2 * text.toList.length + 2 ≤ (Grammar.ofFuel fuel).bound :=
    Nat.le_trans (by omega) hfuel
  exact results_of_abreast (hjoins.script hleft [] [] (by omega) (Nat.le_refl fuel))

/-- So does an expression. -/
theorem results_expression (text : String) : Results expression text := by
  have hfuel := length_le_fuel text
  unfold Results
  rw [expression_ofText]
  generalize (ofText text).fuel = fuel at hfuel
  have hjoins := (Bond.within text.toList).joins_ofFuel (Nat.le_refl fuel)
  have hleft : 2 * text.toList.length + 1 ≤ (Grammar.ofFuel fuel).bound :=
    Nat.le_trans (by omega) hfuel
  exact results_of_abreast (hjoins.expression hleft)

/-! ## Tokens -/

/-- The grammar is thrifty however much fuel there is, so the fuel of an entry point is no
    matter. -/
theorem exists_draws_fueled {x : Nat → Parse α} {Q : Nat → Nat → α → Prop}
    (h : ∀ fuel, Affords text.length (price text.length + 5) (x fuel) Q) :
    ∃ drawn ≤ text.length * (text.length + 16) + 5,
      Draws (fun parser => x parser.fuel parser) (ofText text) drawn := by
  have hafford : Affords (ofText text).tokens.left (price text.length + 5)
      (x (ofText text).fuel) Q := by
    rw [left_ofText, String.length_toList]
    exact h _
  obtain ⟨drawn, hdrawn, hdraws⟩ := hafford.exists_draws
  exact ⟨drawn, hdrawn, .fueled hdraws⟩

/-- **Parsing ends**, whatever the text: reading a script and reading an expression take no more
    tokens than this, and give a tree or an error that is reported in the text. -/
theorem parse_ends (text : String) :
    ((∃ drawn ≤ text.length * (text.length + 16) + 5, Draws script (ofText text) drawn) ∧
      ((∃ program, parse text = .ok program) ∨
        ∃ e, parse text = .error (.failed e) ∧ e.position.IsIn text.toList)) ∧
    (∃ drawn ≤ text.length * (text.length + 16) + 5, Draws expression (ofText text) drawn) ∧
      Results expression text := by
  refine ⟨⟨?_, ?_⟩, ?_, results_expression text⟩
  · exact exists_draws_fueled fun fuel => (Grammar.thrifty_ofFuel fuel).script (Nat.le_refl _)
  · unfold parse
    rcases results_script text with ⟨program, next, hok⟩ | ⟨e, next, hfailed, hposition⟩
    · exact .inl ⟨program, by rw [hok]⟩
    · exact .inr ⟨e, by rw [hfailed], hposition⟩
  · exact exists_draws_fueled fun fuel =>
      (Grammar.thrifty_ofFuel fuel).expression 2 (Nat.le_refl 2) (by omega)

end Parser

end Tao
