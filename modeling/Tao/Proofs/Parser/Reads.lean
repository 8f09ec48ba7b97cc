/-
  What parsers read.

  A token stream OFFERS lexemes if its next tokens have them, wherever they stand in the text and
  whether they were handed back or not.  `Reads before after x input output P` says of a parser `x`
  that it succeeds on every stream that offers `input`, leaves one that offers `output`, gives
  something that satisfies `P`, and takes the number of loops and switches around from `before` to
  `after`.

  As for `Gives`, there is one rule for each way to put parsers together, and one for each that
  takes tokens.  Handing a token back is a step like any other: it offers the token again.
-/
import Tao.Proofs.Parser.Gives

namespace Tao

/-- The next tokens have these lexemes. -/
def TokenStream.Offers : List Lexeme → TokenStream → Prop
  | [], _ => True
  | l :: rest, stream =>
    ∃ token next, stream.next = (.ok token, next) ∧ token.lexeme = l ∧ next.Offers rest

/-- What is put back is offered first. -/
theorem TokenStream.Offers.putBack {ls : List Lexeme} {stream : TokenStream}
    (h : stream.Offers ls) (token : Token) : (stream.putBack token).Offers (token.lexeme :: ls) :=
  ⟨token, stream, rfl, rfl, h⟩

namespace Parser

/-- On a stream that offers `input`, `x` gives something that satisfies `P`, and what is left offers
    `output`. -/
def Reads {α : Type} (before after : Nat) (x : Parse α) (input output : List Lexeme)
    (P : α → Prop) : Prop :=
  ∀ parser, parser.breakable = before → parser.tokens.Offers input →
    ∃ a next, x parser = .ok a next ∧ next.breakable = after ∧ next.tokens.Offers output ∧ P a

variable {α β σ : Type} {n m k : Nat} {P Q : α → Prop} {i j o : List Lexeme} {l : Lexeme}
  {x : Parse α} {f : α → Parse β}

namespace Reads

/-! ## Putting parsers together -/

theorem pure {a : α} (h : P a) : Reads n n (pure a) o o P :=
  fun parser hn hoffers => ⟨a, parser, rfl, hn, hoffers, h⟩

/-- One after the other: the first part leaves what the second reads. -/
theorem bind {R : β → Prop} (hx : Reads n m x i j Q) (hf : ∀ a, Q a → Reads m k (f a) j o R) :
    Reads n k (x >>= f) i o R := by
  intro parser hn hoffers
  obtain ⟨a, middle, hresult, hm, hmiddle, hq⟩ := hx parser hn hoffers
  obtain ⟨b, next, hnext, hk, houtput, hr⟩ := hf a hq middle hm hmiddle
  refine ⟨b, next, ?_, hk, houtput, hr⟩
  rw [EStateM.bind_of_ok hresult]
  exact hnext

/-- Where it is known what the first parser gives. -/
theorem bindEq {R : β → Prop} {a : α} (hx : Reads n m x i j (· = a))
    (hf : Reads m k (f a) j o R) : Reads n k (x >>= f) i o R :=
  hx.bind fun _ ha => ha ▸ hf

theorem imp (hx : Reads n m x i o Q) (h : ∀ a, Q a → P a) : Reads n m x i o P := by
  intro parser hn hoffers
  obtain ⟨a, next, hresult, hm, houtput, hq⟩ := hx parser hn hoffers
  exact ⟨a, next, hresult, hm, houtput, h a hq⟩

/-- What is given by another name. -/
theorem map {g : α → β} {a : α} (hx : Reads n m x i o (· = a)) :
    Reads n m (g <$> x) i o (· = g a) :=
  hx.bindEq (pure rfl)

/-- A loop that goes on. -/
theorem iterateAgain {turn : σ → Parse (Turn σ α)} {fuel : Nat} {s : σ} {I : σ → Prop}
    (hturn : Reads n n (turn s) i j fun t => ∃ next, t = .again next ∧ I next)
    (hrest : ∀ next, I next → Reads n n (Tao.iterate fuel turn next) j o P) :
    Reads n n (Tao.iterate (fuel + 1) turn s) i o P := by
  refine hturn.bind fun t ht => ?_
  obtain ⟨next, rfl, hnext⟩ := ht
  exact hrest next hnext

/-- Where it is known with what the loop goes on. -/
theorem iterateAgainEq {turn : σ → Parse (Turn σ α)} {fuel : Nat} {s t : σ}
    (hturn : Reads n n (turn s) i j (· = .again t))
    (hrest : Reads n n (Tao.iterate fuel turn t) j o P) :
    Reads n n (Tao.iterate (fuel + 1) turn s) i o P :=
  hturn.bindEq hrest

/-- A loop that ends. -/
theorem iterateDone {turn : σ → Parse (Turn σ α)} {fuel : Nat} {s : σ}
    (hturn : Reads n n (turn s) i o fun t => ∃ a, t = .done a ∧ P a) :
    Reads n n (Tao.iterate (fuel + 1) turn s) i o P := by
  refine hturn.bind fun t ht => ?_
  obtain ⟨a, rfl, ha⟩ := ht
  exact pure ha

/-- A loop of any number of turns.  `W` says how what the loop has and what is left to read belong
    together; each turn ends the loop or goes on with less to read. -/
theorem iterate {turn : σ → Parse (Turn σ α)} {W : σ → List Lexeme → Prop}
    (hturn : ∀ s i, W s i →
      Reads n n (turn s) i o (fun t => ∃ a, t = .done a ∧ P a) ∨
      ∃ j, j.length < i.length ∧ Reads n n (turn s) i j fun t => ∃ next, t = .again next ∧ W next j)
    {fuel : Nat} {s : σ} (hs : W s i) (hfuel : i.length < fuel) :
    Reads n n (Tao.iterate fuel turn s) i o P := by
  induction fuel generalizing s i with
  | zero => exact absurd hfuel (Nat.not_lt_zero _)
  | succ fuel ih =>
    rcases hturn s i hs with hdone | ⟨j, hless, hagain⟩
    · exact iterateDone hdone
    · exact iterateAgain hagain fun next hnext => ih hnext (by omega)

/-- Changing the count. -/
theorem setCount (f : Nat → Nat) :
    Reads n (f n) (modify fun parser => { parser with breakable := f parser.breakable }) o o
      fun _ => True :=
  fun _ hn hoffers => ⟨_, _, rfl, congrArg f hn, hoffers, trivial⟩

/-- The count may be changed at the end. -/
theorem afterwards (hx : Reads n m x i o P) (f : Nat → Nat) :
    Reads n (f m) (afterwards x fun parser => { parser with breakable := f parser.breakable }) i o
      P := by
  intro parser hn hoffers
  obtain ⟨a, next, hresult, hm, houtput, hp⟩ := hx parser hn hoffers
  refine ⟨a, { next with breakable := f next.breakable }, ?_, congrArg f hm, houtput, hp⟩
  unfold Parser.afterwards
  rw [hresult]

end Reads

/-! ## Tokens -/

/-- Taking a token reads one lexeme. -/
theorem reads_take : Reads n n take (l :: o) o (·.lexeme = l) := by
  intro parser hn hoffers
  obtain ⟨token, tokens, hnext, hlexeme, hrest⟩ := hoffers
  refine ⟨token, { parser with tokens }, ?_, hn, hrest, hlexeme⟩
  unfold take
  rw [hnext]

/-- Where only the kind of what is taken matters. -/
theorem reads_takeMark (kind : Kind) : Reads n n take (.mark kind :: o) o (·.kind = kind) :=
  reads_take.imp fun _ htoken => congrArg Lexeme.kind htoken

/-- Putting a token back offers it again. -/
theorem reads_putBack {token : Token} (h : token.lexeme = l) :
    Reads n n (putBack token) o (l :: o) fun _ => True := by
  intro parser hn hoffers
  exact ⟨(), _, rfl, hn, h ▸ hoffers.putBack token, trivial⟩

/-- Looking at a token leaves it first in the stream. -/
theorem peek_of_next {p : Parser} {t : Token} {next : TokenStream}
    (h : p.tokens.next = (.ok t, next)) :
    peek p = .ok t { p with tokens := next.putBack t } := by
  unfold peek
  rw [EStateM.bind_apply]
  unfold take
  rw [h]
  rfl

/-- Looking meets an error where taking does. -/
theorem peek_of_error {p : Parser} {e : SyntaxError} {next : TokenStream}
    (h : p.tokens.next = (.error e, next)) :
    peek p = .error (.failed e) { p with tokens := next } := by
  unfold peek
  rw [EStateM.bind_apply]
  unfold take
  rw [h]

/-- So one may look at the next lexeme. -/
theorem reads_peek : Reads n n peek (l :: o) (l :: o) (·.lexeme = l) :=
  reads_take.bind fun _ htoken => (reads_putBack htoken).bind fun _ _ => .pure htoken

theorem reads_peekKind : Reads n n peek (l :: o) (l :: o) (·.kind = l.kind) :=
  reads_peek.imp fun _ htoken => congrArg Lexeme.kind htoken

theorem reads_nextIs (kind : Kind) :
    Reads n n (nextIs kind) (l :: o) (l :: o) (· = decide (l.kind = kind)) :=
  reads_peek.bind fun _ htoken => .pure (by rw [← htoken]; rfl)

theorem reads_takeIf {kind : Kind} (h : l.kind = kind) :
    Reads n n (takeIf kind) (l :: o) o (· = true) := by
  refine reads_take.bind fun token htoken => ?_
  have hkind : token.kind = kind := (congrArg Lexeme.kind htoken).trans h
  rw [if_pos hkind]
  exact .pure rfl

theorem reads_takeIf_not {kind : Kind} (h : l.kind ≠ kind) :
    Reads n n (takeIf kind) (l :: o) (l :: o) (· = false) := by
  refine reads_take.bind fun token htoken => ?_
  have hkind : token.kind ≠ kind := fun hkind => h ((congrArg Lexeme.kind htoken).symm.trans hkind)
  rw [if_neg hkind]
  exact (reads_putBack htoken).bind fun _ _ => .pure rfl

theorem reads_expect {kind : Kind} (h : l.kind = kind) :
    Reads n n (expect kind) (l :: o) o (·.lexeme = l) := by
  refine reads_take.bind fun token htoken => ?_
  have hkind : token.kind = kind := (congrArg Lexeme.kind htoken).trans h
  rw [if_pos hkind]
  exact .pure htoken

/-- Takes a mark that must come next. -/
theorem reads_expectMark (kind : Kind) :
    Reads n n (expect kind) (.mark kind :: o) o fun _ => True :=
  (reads_expect rfl).imp fun _ _ => trivial

theorem reads_expectName (text : String) :
    Reads n n expectName (.name text :: o) o (· = text) :=
  (reads_expect rfl).bind fun _ htoken => .pure (congrArg Lexeme.contents htoken)

end Parser

end Tao
