/-
  How many tokens a parser takes.

  `Draws x p n` says that the parser `x`, run from `p`, takes `n` tokens from the stream.  Handing a
  token back costs nothing, but to take it again is to take it once more, and so is to meet a
  lexical error or the end of the text.

  To bound that number, a parser is run on CREDIT.  A token costs one.  What is left of the stream
  stands for a credit of its own, its PRICE: whatever is taken for good lowers the price, by enough
  to pay for the looks ahead that follow, and even for reading to the end of the text and back.
  `Affords` is the judgement; as for `Gives`, there is one rule for each way to put parsers together
  and one for each parser that takes tokens.
-/
import Tao.Parser.Script
import Tao.Proofs.Parser.Abreast.Basic

namespace Tao.Parser

/-! ## Taking tokens -/

/-- Run from a state, `x` takes this many tokens. -/
inductive Draws : {α : Type} → Parse α → Parser → Nat → Prop where
  | pure {α : Type} (a : α) (p : Parser) : Draws (pure a) p 0
  | throw {α : Type} (halt : Halt SyntaxError) (p : Parser) : Draws (throw halt : Parse α) p 0
  | take (p : Parser) : Draws take p 1
  | putBack (token : Token) (p : Parser) : Draws (putBack token) p 0
  | bind {α β : Type} {x : Parse α} {f : α → Parse β} {p q : Parser} {a : α} {n m : Nat}
    (first : Draws x p n) (gives : x p = .ok a q) (rest : Draws (f a) q m) :
    Draws (x >>= f) p (n + m)
  | bindError {α β : Type} {x : Parse α} {f : α → Parse β} {p q : Parser}
    {halt : Halt SyntaxError} {n : Nat} (first : Draws x p n) (fails : x p = .error halt q) :
    Draws (x >>= f) p n
  /-- Changing the count of loops and switches. -/
  | setCount (f : Nat → Nat) (p : Parser) :
    Draws (modify fun parser => { parser with breakable := f parser.breakable }) p 0
  /-- Looking at the count, and at nothing else. -/
  | getCount {α : Type} {f : Parser → Parse α} {p : Parser} {n : Nat}
    (same : ∀ p q, p.breakable = q.breakable → f p = f q) (rest : Draws (f p) p n) :
    Draws (get >>= f) p n
  /-- Changing the count before and afterwards. -/
  | withCount {α : Type} {x : Parse α} {p : Parser} {n : Nat} (before : Nat → Nat)
    (after : Nat → Nat → Nat) (inside : Draws x { p with breakable := before p.breakable } n) :
    Draws (fun parser => afterwards x
      (fun next => { next with breakable := after parser.breakable next.breakable })
      { parser with breakable := before parser.breakable }) p n
  /-- Taking as much fuel as what is left calls for. -/
  | fueled {α : Type} {x : Nat → Parse α} {p : Parser} {n : Nat} (run : Draws (x p.fuel) p n) :
    Draws (fun parser => x parser.fuel parser) p n

/-! ## Prices -/

/-- A credit for what is left of a stream. -/
def price (left : Nat) : Nat := left * (left + 16)

/-- Less to read costs no more. -/
theorem price_mono {left before : Nat} (h : left ≤ before) : price left ≤ price before :=
  Nat.mul_le_mul h (Nat.add_le_add_right h 16)

/-- Less is left: that saves as much as was left before, and a little more. -/
theorem price_gain {left before : Nat} (h : left < before) :
    price left + before + 16 ≤ price before := by
  obtain ⟨n, rfl⟩ : ∃ n, before = n + 1 := ⟨before - 1, by omega⟩
  have hle : price left ≤ price n := price_mono (Nat.le_of_lt_succ h)
  have hrow : n * (n + 16) ≤ n * (n + 1 + 16) := Nat.mul_le_mul_left n (by omega)
  have hlast : (n + 1) * (n + 1 + 16) = n * (n + 1 + 16) + (n + 1 + 16) := Nat.succ_mul _ _
  unfold price at hle ⊢
  omega

/-- Less is left, which saves something. -/
structure Saves (before left : Nat) : Prop where
  less : left < before
  gain : price left + before + 16 ≤ price before

/-- Whoever has less to read has saved what a token costs, and more. -/
theorem saves_of_lt {left before : Nat} (h : left < before) : Saves before left := ⟨h, price_gain h⟩

/-! ## Credit -/

/-- From where so much is left, `x` takes no more tokens than it has credit for.  If it succeeds,
    what is then left, the credit that remains and what it gives satisfy `Q`. -/
def Affords {α : Type} (left credit : Nat) (x : Parse α) (Q : Nat → Nat → α → Prop) : Prop :=
  ∀ p, p.tokens.left = left → ∃ drawn, Draws x p drawn ∧
    match x p with
    | .ok a q => ∃ saved, drawn + saved ≤ credit ∧ Q q.tokens.left saved a
    | .error _ _ => drawn ≤ credit

/-- Less is left than before, and there is credit for it, and this much to spare. -/
def Paid {α : Type} (before spare : Nat) : Nat → Nat → α → Prop :=
  fun left credit _ => left < before ∧ price left + spare ≤ credit

/-- No more is left than before, and there is credit for it, and this much to spare. -/
def Kept {α : Type} (before spare : Nat) : Nat → Nat → α → Prop :=
  fun left credit _ => left ≤ before ∧ price left + spare ≤ credit

/-- What a turn of a loop leaves. -/
def TurnAffords {α σ : Type} (I : Nat → Nat → σ → Prop) (Q : Nat → Nat → α → Prop) :
    Nat → Nat → Turn σ α → Prop
  | left, credit, .again s => I left credit s
  | left, credit, .done a => Q left credit a

variable {α β σ : Type} {left credit : Nat} {x : Parse α} {f : α → Parse β}
  {Q : Nat → Nat → α → Prop} {R : Nat → Nat → β → Prop} {e : SyntaxError}

namespace Affords

/-! ## Putting parsers together -/

theorem pure {a : α} (h : Q left credit a) : Affords left credit (pure a) Q := by
  rintro p rfl
  exact ⟨0, .pure a p, credit, Nat.le_of_eq (Nat.zero_add _), h⟩

theorem fail : Affords left credit (Tao.fail e) Q :=
  fun p _ => ⟨0, .throw _ p, Nat.zero_le _⟩

theorem outOfFuel : Affords left credit (throw .outOfFuel) Q :=
  fun p _ => ⟨0, .throw _ p, Nat.zero_le _⟩

/-- One after the other, on what credit is left. -/
theorem bind (hx : Affords left credit x Q)
    (hf : ∀ left credit a, Q left credit a → Affords left credit (f a) R) :
    Affords left credit (x >>= f) R := by
  intro p hp
  obtain ⟨drawn, hdraws, hfirst⟩ := hx p hp
  rw [EStateM.bind_apply]
  cases hresult : x p with
  | error halt q =>
    rw [hresult] at hfirst
    exact ⟨drawn, hdraws.bindError hresult, hfirst⟩
  | ok a q =>
    rw [hresult] at hfirst
    obtain ⟨saved, hspent, hq⟩ := hfirst
    obtain ⟨more, hmore, hrest⟩ := hf _ _ a hq q rfl
    refine ⟨drawn + more, hdraws.bind hresult hmore, ?_⟩
    dsimp only
    cases hlast : f a q with
    | error halt next =>
      rw [hlast] at hrest
      have hrest : more ≤ saved := hrest
      show drawn + more ≤ credit
      omega
    | ok b next =>
      rw [hlast] at hrest
      obtain ⟨kept, hkept, hr⟩ := hrest
      exact ⟨kept, by omega, hr⟩

theorem failBind : Affords left credit (Tao.fail e >>= f) R :=
  (fail (Q := fun _ _ _ => False)).bind fun _ _ _ h => h.elim

theorem imp (hx : Affords left credit x Q) {R : Nat → Nat → α → Prop}
    (h : ∀ left credit a, Q left credit a → R left credit a) : Affords left credit x R := by
  intro p hp
  obtain ⟨drawn, hdraws, hresult⟩ := hx p hp
  refine ⟨drawn, hdraws, ?_⟩
  cases hx' : x p with
  | error halt q =>
    rw [hx'] at hresult
    exact hresult
  | ok a q =>
    rw [hx'] at hresult
    obtain ⟨saved, hspent, hq⟩ := hresult
    exact ⟨saved, hspent, h _ _ _ hq⟩

/-- More was left at first, and less is to be spared. -/
theorem rebase {before spare spare' : Nat} (hx : Affords left credit x (Paid left spare))
    (hbefore : left ≤ before) (hspare : spare' ≤ spare) :
    Affords left credit x (Paid before spare') := by
  refine hx.imp ?_
  rintro after saved a ⟨hafter, hpaid⟩
  exact ⟨by omega, by omega⟩

theorem map {g : α → β} (hx : Affords left credit x Q)
    (h : ∀ left credit a, Q left credit a → R left credit (g a)) :
    Affords left credit (g <$> x) R :=
  hx.bind fun left credit a hq => .pure (h left credit a hq)

/-- A loop.  Its credit bounds the turns that take something.  Induction on the turns that are left;
    to be out of them costs nothing. -/
theorem iterate {turn : σ → Parse (Turn σ α)} {I : Nat → Nat → σ → Prop}
    (hturn : ∀ left credit s, I left credit s →
      Affords left credit (turn s) (TurnAffords I Q))
    {s : σ} (hs : I left credit s) {fuel : Nat} :
    Affords left credit (Tao.iterate fuel turn s) Q := by
  induction fuel generalizing left credit s with
  | zero => exact .outOfFuel
  | succ fuel ih =>
    refine (hturn left credit s hs).bind fun left credit t ht => ?_
    cases t with
    | again s => exact ih ht
    | done a => exact .pure ht

theorem setCount (g : Nat → Nat) :
    Affords left credit (modify fun parser => { parser with breakable := g parser.breakable })
      fun left' credit' _ => left' = left ∧ credit' = credit := by
  rintro p rfl
  exact ⟨0, .setCount g p, credit, Nat.le_of_eq (Nat.zero_add _), rfl, rfl⟩

theorem getCount {f : Parser → Parse α} (same : ∀ p q, p.breakable = q.breakable → f p = f q)
    (hf : ∀ p, Affords left credit (f p) Q) : Affords left credit (get >>= f) Q := by
  intro p hp
  obtain ⟨drawn, hdraws, hresult⟩ := hf p p hp
  exact ⟨drawn, hdraws.getCount same, hresult⟩

theorem withCount (hx : Affords left credit x Q) (before : Nat → Nat) (after : Nat → Nat → Nat) :
    Affords left credit (fun parser => afterwards x
      (fun next => { next with breakable := after parser.breakable next.breakable })
      { parser with breakable := before parser.breakable }) Q := by
  intro p hp
  obtain ⟨drawn, hdraws, hresult⟩ := hx { p with breakable := before p.breakable } hp
  refine ⟨drawn, hdraws.withCount before after, ?_⟩
  unfold afterwards
  dsimp only
  cases hx' : x { p with breakable := before p.breakable } with
  | error halt q =>
    rw [hx'] at hresult
    exact hresult
  | ok a q =>
    rw [hx'] at hresult
    exact hresult

/-! ## Tokens -/

/-- A token that was taken: it cost one, and it is no longer left. -/
def Taken (left credit : Nat) : Nat → Nat → Token → Prop :=
  fun after saved token =>
    saved + 1 = credit ∧ after + token.weight ≤ left ∧ price after ≤ price left

/-- A token other than the end of the text saves something. -/
theorem Taken.saves {after saved : Nat} {token : Token} {kind : Kind}
    (h : Taken left credit after saved token) (heq : token.kind = kind) (hkind : kind ≠ .eof) :
    Saves left after := by
  have hcount := h.2.1
  rw [Token.weight_of_kind heq hkind] at hcount
  exact saves_of_lt hcount

/-- The same, if the whole lexeme is known. -/
theorem Taken.savesLexeme {after saved : Nat} {token : Token} {l : Lexeme}
    (h : Taken left credit after saved token) (heq : token.lexeme = l) (hl : l.kind ≠ .eof) :
    Saves left after :=
  h.saves (congrArg Lexeme.kind heq) hl

/-- Taking a token spends one. -/
theorem take (hcredit : 0 < credit) :
    Affords left credit Parser.take (Taken left credit) := by
  rintro p rfl
  refine ⟨1, .take p, ?_⟩
  unfold Parser.take
  cases hnext : p.tokens.next with
  | mk result next =>
    cases result with
    | error e => exact hcredit
    | ok token =>
      have hcount := TokenStream.left_next hnext
      exact ⟨credit - 1, by omega, by omega, hcount, price_mono (by dsimp only; omega)⟩

/-- Putting a token back returns nothing. -/
theorem putBack (token : Token) :
    Affords left credit (Parser.putBack token) fun after saved _ =>
      saved = credit ∧ after = left + token.weight := by
  rintro p rfl
  exact ⟨0, .putBack token p, credit, Nat.le_of_eq (Nat.zero_add _), rfl,
    TokenStream.left_putBack p.tokens token⟩

/-- Looking at a token costs one and leaves as much as before. -/
def Seen (left credit : Nat) : Nat → Nat → α → Prop :=
  fun after saved _ => saved + 1 = credit ∧ after ≤ left ∧ price after ≤ price left

/-- So looking at the next token spends one. -/
theorem peek (hcredit : 0 < credit) :
    Affords left credit Parser.peek (Seen left credit) := by
  refine (take hcredit).bind fun taken saved token htaken => ?_
  refine (putBack token).bind ?_
  rintro after _ _ ⟨rfl, rfl⟩
  exact .pure ⟨htaken.1, htaken.2.1, price_mono htaken.2.1⟩

/-- Where it matters that the token that is looked at is the next one to be taken. -/
theorem peekBind {f : Token → Parse β} (hcredit : 0 < credit)
    (hf : ∀ after saved token, Taken left credit after saved token →
      Affords after saved (Parser.putBack token >>= fun _ => f token) R) :
    Affords left credit (Parser.peek >>= f) R := by
  have hpeek : Parser.peek >>= f =
      Parser.take >>= fun token => Parser.putBack token >>= fun _ => f token := by
    unfold Parser.peek
    simp only [bind_assoc, pure_bind]
  rw [hpeek]
  exact (take hcredit).bind hf

/-- To take a token again costs one again. -/
theorem takeAgain {token : Token} {f : Token → Parse β} (hcredit : 0 < credit)
    (hf : Affords left (credit - 1) (f token) R) :
    Affords left credit (Parser.putBack token >>= fun _ => Parser.take >>= f) R := by
  intro p hp
  obtain ⟨drawn, hdraws, hresult⟩ := hf p hp
  have hback := Draws.putBack token p
  have htake := Draws.take { p with tokens := p.tokens.putBack token }
  refine ⟨0 + (1 + drawn), hback.bind rfl (htake.bind rfl hdraws), ?_⟩
  rw [putBack_take]
  cases hlast : f token p with
  | error halt next =>
    rw [hlast] at hresult
    have hresult : drawn ≤ credit - 1 := hresult
    show 0 + (1 + drawn) ≤ credit
    omega
  | ok b next =>
    rw [hlast] at hresult
    obtain ⟨saved, hspent, hr⟩ := hresult
    exact ⟨saved, by omega, hr⟩

theorem nextIs (kind : Kind) (hcredit : 0 < credit) :
    Affords left credit (Parser.nextIs kind) (Seen left credit) :=
  (peek hcredit).bind fun _ _ _ hseen => .pure hseen

/-- Where the token is there, something is saved. -/
theorem takeIf {wanted : Kind} (hwanted : wanted ≠ .eof) (hcredit : 0 < credit) :
    Affords left credit (Parser.takeIf wanted) fun after saved found =>
      Seen left credit after saved found ∧ (found = true → Saves left after) := by
  refine (take hcredit).bind fun taken saved token htaken => ?_
  split
  · next hkind =>
    have hsaves := htaken.saves hkind hwanted
    exact .pure ⟨⟨htaken.1, Nat.le_of_lt hsaves.less, htaken.2.2⟩, fun _ => hsaves⟩
  · refine (putBack token).bind ?_
    rintro after _ _ ⟨rfl, rfl⟩
    exact .pure ⟨⟨htaken.1, htaken.2.1, price_mono htaken.2.1⟩, nofun⟩

/-- A token that must be there is taken for good. -/
theorem expect {wanted : Kind} (hwanted : wanted ≠ .eof) (hcredit : 0 < credit) :
    Affords left credit (Parser.expect wanted) fun after saved _ =>
      saved + 1 = credit ∧ Saves left after := by
  refine (take hcredit).bind fun taken saved token htaken => ?_
  split
  · next hkind => exact .pure ⟨htaken.1, htaken.saves hkind hwanted⟩
  · exact .fail

theorem expectName (hcredit : 0 < credit) :
    Affords left credit Parser.expectName fun after saved _ =>
      saved + 1 = credit ∧ Saves left after :=
  (expect (by decide) hcredit).bind fun _ _ _ h => .pure h

end Affords

end Tao.Parser
