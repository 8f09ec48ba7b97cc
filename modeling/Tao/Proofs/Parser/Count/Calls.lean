/-
  Calls on one parser, one after another.

  1. **Program** — whoever holds a parser may ask it for a script or for an expression, again and
     again, and also after it has failed; the count of loops and switches stays in the parser.

  2. **Specification** — a call leaves the count as it was, and a script or an expression that is
     accepted has no `break` outside of its own loops and switches.  The exception is a script that
     is refused inside of switches: it leaves the count raised by their number (`Unfinished`).

  3. **How far** — by no more than the number of places that were read in which the word `switch`
     begins (the step is `Grammar.Prudent.script`; `raised_afterAll` takes it to all calls).  No
     smaller bound holds: a text that breaks off inside of `d` switches raises the count by `d`
     (`refuses_brokenOff`).
-/
import Tao.Proofs.Parser.Count.Grammar
import Tao.Proofs.Parser.Ends
import Tao.Proofs.Parser.Spelled
import Tao.Proofs.Parser.Tidy
import Tao.Proofs.Parser.Understands.Script

namespace Tao

/-- What a parser can be asked for. -/
inductive Call where
  | script
  | expression
  deriving DecidableEq, Repr

namespace Parser

/-- Where a run ends, well or not. -/
def endOf {α : Type} (x : Parse α) (p : Parser) : Parser :=
  match x p with
  | .ok _ q | .error _ q => q

/-- The parser after a call, whatever came of it. -/
def after (p : Parser) : Call → Parser
  | .script => endOf script p
  | .expression => endOf expression p

def afterAll (p : Parser) (calls : List Call) : Parser := calls.foldl after p

/-! ## How far the count is raised -/

/-- A script raises the count by its own unfinished switches. -/
theorem tame_script : Tame true script := .fueled fun fuel => (Grammar.prudent_ofFuel fuel).script

/-- An expression does not raise it at all. -/
theorem tame_expression : Tame false expression :=
  .fueled fun fuel => (Grammar.prudent_ofFuel fuel).expression

variable {α β : Type} {x : Parse α} {p q r : Parser}

/-- The count is not lowered, and raised by no more than is read that may be a switch. -/
structure Raised (p q : Parser) : Prop where
  le : p.breakable ≤ q.breakable
  paid : q.breakable + q.tokens.switches ≤ p.breakable + p.tokens.switches

theorem Raised.refl (p : Parser) : Raised p p := ⟨Nat.le_refl _, Nat.le_refl _⟩

theorem Raised.trans (h : Raised p q) (h' : Raised q r) : Raised p r :=
  ⟨Nat.le_trans h.le h'.le, Nat.le_trans h'.paid h.paid⟩

/-- What needs no credit raises the count by no more than it has read. -/
theorem raised_endOf {raising : Bool} (h : Tame raising x) (p : Parser) :
    Raised p (endOf x p) := by
  have hx := h p
  unfold endOf
  cases hresult : x p with
  | ok a q =>
    rw [hresult] at hx
    obtain ⟨hcount, rest, hpaid, -⟩ := hx
    exact ⟨Nat.le_of_eq hcount.symm, by dsimp only; omega⟩
  | error halt q =>
    rw [hresult] at hx
    obtain ⟨n, -, hcount, hpaid, -⟩ := hx
    exact ⟨by dsimp only; omega, by dsimp only; omega⟩

/-- So does each of the two calls. -/
theorem raised_after (p : Parser) (call : Call) : Raised p (p.after call) := by
  cases call with
  | script => exact raised_endOf tame_script p
  | expression => exact raised_endOf tame_expression p

/-- Induction on the calls. -/
theorem raised_afterAll (p : Parser) (calls : List Call) : Raised p (p.afterAll calls) := by
  induction calls generalizing p with
  | nil => exact .refl p
  | cons call calls ih => exact (raised_after p call).trans (ih (p.after call))

/-! ## What a call does to the count -/

/-- A script that is refused leaves the count raised by its unfinished switches, and by no more. -/
theorem unfinished_script_iff (p : Parser) (n : Nat) : Unfinished script p n ↔
    ∃ halt q, script p = .error halt q ∧ q.breakable = p.breakable + n := by
  constructor
  · exact Unfinished.fails
  · rintro ⟨halt, q, hresult, hcount⟩
    have htame := tame_script p
    rw [hresult] at htame
    obtain ⟨m, hunfinished, hstrays⟩ := htame
    obtain rfl : m = n := Nat.add_left_cancel (hstrays.count.symm.trans hcount)
    exact hunfinished

/-- An expression leaves the count alone, refused or not. -/
theorem breakable_endOf_expression (p : Parser) : (endOf expression p).breakable = p.breakable := by
  have htame := tame_expression p
  unfold endOf
  cases hresult : expression p with
  | ok e q =>
    rw [hresult] at htame
    exact htame.1
  | error halt q =>
    rw [hresult] at htame
    obtain ⟨n, -, hstrays⟩ := htame
    exact hstrays.count.trans (congrArg _ (hstrays.steady rfl))

/-! ## Where a parser breaks off -/

/-- On a stream that offers `input`, `x` fails and takes the count from `before` to `after`. -/
def Refuses {α : Type} (before after : Nat) (x : Parse α) (input : List Lexeme) : Prop :=
  ∀ p, p.breakable = before → p.tokens.Offers input →
    ∃ e q, x p = .error (.failed e) q ∧ q.breakable = after

variable {n m k : Nat} {f : α → Parse β} {i j : List Lexeme} {P : α → Prop}

namespace Refuses

theorem fail {e : SyntaxError} : Refuses n n (Tao.fail e : Parse α) i :=
  fun p hn _ => ⟨e, p, rfl, hn⟩

/-- What fails first is all that counts. -/
theorem bind (hx : Refuses n m x i) : Refuses n m (x >>= f) i := by
  intro p hn hoffers
  obtain ⟨e, q, hresult, hm⟩ := hx p hn hoffers
  exact ⟨e, q, EStateM.bind_of_error hresult, hm⟩

/-- What is read before the failure. -/
theorem after (hx : Reads n m x i j P) (hf : ∀ a, P a → Refuses m k (f a) j) :
    Refuses n k (x >>= f) i := by
  intro p hn hoffers
  obtain ⟨a, middle, hresult, hm, hmiddle, ha⟩ := hx p hn hoffers
  obtain ⟨e, q, hlast, hk⟩ := hf a ha middle hm hmiddle
  refine ⟨e, q, ?_, hk⟩
  rw [EStateM.bind_of_ok hresult]
  exact hlast

/-- A loop whose first turn breaks off does so, too. -/
theorem iterate {σ : Type} {turn : σ → Parse (Turn σ α)} {s : σ} {fuel : Nat}
    (h : Refuses n m (turn s) i) (hfuel : 0 < fuel) : Refuses n m (Tao.iterate fuel turn s) i := by
  obtain ⟨fuel, rfl⟩ : ∃ rest, fuel = rest + 1 := ⟨fuel - 1, by omega⟩
  exact h.bind

end Refuses

/-- So many switches, each in the default group of the one before, and in the last one a closing
    parenthesis. -/
def brokenOff : Nat → List Lexeme
  | 0 => [.mark .rightParen, .mark .eof]
  | d + 1 => .mark .kwSwitch :: .mark .leftParen :: .mark .kwNil :: .mark .rightParen ::
      .mark .leftBrace :: .mark .kwDefault :: .mark .colon :: brokenOff d

/-- The text goes on with a switch, or it ends wrongly. -/
theorem exists_of_brokenOff (d : Nat) : ∃ kind rest, brokenOff d = .mark kind :: rest ∧
    (kind = .rightParen ∨ kind = .kwSwitch) := by
  cases d with
  | zero => exact ⟨_, _, rfl, .inl rfl⟩
  | succ d => exact ⟨_, _, rfl, .inr rfl⟩

/-- Each switch takes seven lexemes. -/
theorem length_brokenOff (d : Nat) : (brokenOff d).length = 7 * d + 2 := by
  induction d with
  | zero => rfl
  | succ d ih =>
    unfold brokenOff
    simp only [List.length_cons, ih]
    omega

end Parser

namespace Grammar

open Tao.Parser

variable {g : Grammar} {n size k d : Nat}

/-- No operand begins with a closing parenthesis. -/
theorem refuses_rightParen (k : Nat) :
    Refuses n n (ofFuel (k + 2)).statement [.mark .rightParen, .mark .eof] := by
  have hprimary : Refuses n n (ofFuel k).primary [.mark .rightParen, .mark .eof] := by
    refine .after reads_take fun token htoken => ?_
    rw [htoken]
    exact .fail
  have hprefixed : Refuses n n (ofFuel k).prefixed [.mark .rightParen, .mark .eof] := by
    refine .after reads_take fun token htoken => ?_
    have hkind : token.kind = .rightParen := congrArg Lexeme.kind htoken
    rw [hkind]
    exact .after (reads_putBack htoken) fun _ _ => hprimary
  rw [statement_succ]
  refine .after reads_take fun token htoken => ?_
  have hkind : token.kind = .rightParen := congrArg Lexeme.kind htoken
  rw [hkind]
  refine .after (reads_putBack htoken) fun _ _ => ?_
  unfold bareExpression Grammar.expression
  rw [expressionFrom_succ]
  exact hprefixed.bind.bind

/-- A switch whose first group is refused has raised the count. -/
theorem Understands.refuses_choice (h : g.Understands size)
    (hstatement : Refuses (n + 1) m g.statement (brokenOff d)) (hsize : 7 * d + 8 ≤ size) :
    Refuses n m g.choice (.mark .leftParen :: .mark .kwNil :: .mark .rightParen ::
      .mark .leftBrace :: .mark .kwDefault :: .mark .colon :: brokenOff d) := by
  have hbound := h.bound
  have hlength := length_brokenOff d
  have hsubject : Reads n n g.expression _ _ (· = .literal .nil) := h.operand
    (.enclosed (.nil (o := .mark .rightParen :: .mark .leftBrace :: .mark .kwDefault ::
      .mark .colon :: brokenOff d))) rfl (by simp only [List.length_cons]; omega)
  refine .after hsubject fun subject _ => .after (reads_expectMark _) fun _ _ => ?_
  -- what comes behind the groups, where the count would be lowered, is not reached
  refine .after (.setCount (· + 1)) fun _ _ => (Refuses.iterate ?_ (by omega)).bind
  refine .after (reads_takeMark _) fun token hkind => ?_
  rw [hkind]
  refine .after (reads_expectMark _) fun _ _ => (Refuses.iterate ?_ (by omega)).bind
  obtain ⟨kind, rest, hfirst, hkind⟩ := exists_of_brokenOff d
  rw [hfirst] at hstatement ⊢
  refine .after reads_peekKind fun token htoken => ?_
  rw [htoken]
  rcases hkind with rfl | rfl
  · exact hstatement.bind
  · exact hstatement.bind

/-- Each switch that is not finished has raised the count by one.  Induction on their number. -/
theorem refuses_brokenOff (d n k : Nat) (hk : 7 * d + 12 ≤ k) :
    Refuses n (n + d) (ofFuel k).statement (brokenOff d) := by
  induction d generalizing n k with
  | zero =>
    obtain ⟨k, rfl⟩ : ∃ rest, k = rest + 2 := ⟨k - 2, by omega⟩
    exact refuses_rightParen k
  | succ d ih =>
    obtain ⟨k, rfl⟩ : ∃ rest, k = rest + 1 := ⟨k - 1, by omega⟩
    have hunderstands : (ofFuel k).Understands (7 * d + 8) := understands_ofFuel _ k (by omega)
    have hinside := ih (n + 1) k (by omega)
    rw [Nat.add_right_comm] at hinside
    rw [statement_succ]
    refine .after (reads_takeMark _) fun token hkind => ?_
    rw [hkind]
    exact hunderstands.refuses_choice hinside (Nat.le_refl _)

/-- A script of one function, in whose body it breaks off. -/
theorem refuses_script (d k : Nat) (hk : 7 * d + 12 ≤ k) :
    Refuses n (n + d) (ofFuel k).script (brokenOff d) := by
  have hstatement := refuses_brokenOff d n k hk
  have hbound : 0 < (ofFuel k).bound := Nat.lt_of_lt_of_le (Nat.succ_pos _) hk
  refine .iterate ?_ hbound
  obtain ⟨kind, rest, hfirst, hkind⟩ := exists_of_brokenOff d
  rw [hfirst] at hstatement ⊢
  refine .after reads_peekKind fun start hstart => ?_
  have heof : start.kind ≠ .eof := by
    rw [hstart]
    rcases hkind with rfl | rfl <;> decide
  rw [if_neg heof]
  exact hstatement.bind

end Grammar

namespace Parser

/-! ## A text that breaks off inside of switches -/

/-- These lexemes can be written. -/
theorem writable_brokenOff (d : Nat) : Writable (brokenOff d) := by
  induction d with
  | zero => exact .mark .eof rfl
  | succ d ih =>
    exact .mark (.mark (.mark (.mark (.mark (.mark (.mark ih rfl) rfl) rfl) rfl) rfl) rfl) rfl

/-- The word is met as often as there are switches. -/
theorem switchesIn_brokenOff (d : Nat) : switchesIn (withBlanks (brokenOff d)) = d := by
  induction d with
  | zero => rfl
  | succ d ih =>
    have hfirst : withBlanks (brokenOff (d + 1)) =
        " switch ( nil ) \x7b default :".toList ++ withBlanks (brokenOff d) := rfl
    rw [hfirst]
    simp [switchesIn_cons, ih]

/-- A script that breaks off inside of so many switches leaves the count raised by as many. -/
theorem breakable_after_brokenOff (d : Nat) :
    ((ofText (String.ofList (withBlanks (brokenOff d)))).after .script).breakable = d := by
  have hspelled := (writable_brokenOff d).spelled
  have hlength := hspelled.length_le
  rw [length_brokenOff] at hlength
  have hoffers := hspelled.offers .start
  have htext : (String.ofList (withBlanks (brokenOff d))).toList = _ := String.toList_ofList
  generalize String.ofList (withBlanks (brokenOff d)) = text at htext
  rw [← htext] at hlength hoffers
  have hfuel := length_le_fuel text
  have hrefuses := Grammar.refuses_script (n := 0) d (ofText text).fuel (by omega)
  obtain ⟨e, q, hresult, hcount⟩ := hrefuses (ofText text) rfl hoffers
  show (endOf script (ofText text)).breakable = d
  unfold endOf
  rw [script_ofText, hresult]
  exact hcount.trans (Nat.zero_add d)

/-- **Calls on one parser.**  A script that is accepted leaves the count of loops and switches as it
    was; so does an expression in any case; and a script that is refused raises it just by the
    number of switches that it is refused in.  Over any calls, the count is never lowered, and
    raised by no more than the number of places read where the word `switch` begins; any number is
    reached.  Whatever the count is at first, what is accepted has no `break` outside of its own
    loops and switches. -/
theorem count_after_calls (p : Parser) (calls : List Call) :
    (∀ program q, script p = .ok program q → q.breakable = p.breakable ∧ program.IsTidy) ∧
    ((endOf expression p).breakable = p.breakable ∧
      ∀ e q, expression p = .ok e q → e.Everywhere .tidy) ∧
    (∀ n, Unfinished script p n ↔
      ∃ halt q, script p = .error halt q ∧ q.breakable = p.breakable + n) ∧
    (p.breakable ≤ (p.afterAll calls).breakable ∧
      (p.afterAll calls).breakable + (p.afterAll calls).tokens.switches ≤
        p.breakable + p.tokens.switches) ∧
    ∀ d, ∃ text, (ofText text).tokens.switches = d ∧
      ((ofText text).after .script).breakable = d := by
  refine ⟨fun program q hresult => ?_, ⟨breakable_endOf_expression p, fun e q hresult => ?_⟩,
    unfinished_script_iff p, ?_,
    fun d => ⟨String.ofList (withBlanks (brokenOff d)), ?_, breakable_after_brokenOff d⟩⟩
  · exact (Grammar.tidy_ofFuel p.fuel).script p program q rfl hresult
  · exact ((Grammar.tidy_ofFuel p.fuel).expression p e q rfl hresult).2
  · have hraised := raised_afterAll p calls
    exact ⟨hraised.le, hraised.paid⟩
  · show 0 + switchesIn (String.ofList (withBlanks (brokenOff d))).toList = d
    rw [Nat.zero_add, String.toList_ofList, switchesIn_brokenOff]

end Parser

end Tao
