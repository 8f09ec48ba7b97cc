/-
  Parsers that are given ever more fuel.

  What a grammar reads depends on its fuel only as long as there is too little of it.  A parser for
  every amount of fuel SETTLES if on each stream that offers `input` it comes, from some amount on,
  to one and the same result.  How much is enough is never said: it depends on all of the text, of
  which a stream offers but the beginning.

  There is one rule for each way to put parsers together, as for `Reads`; what needs no fuel is read
  by the rules for tokens.  What the entry points read, whose fuel is reckoned from what is left,
  and what settles are the same thing (`Steady.settles_iff`).
-/
import Tao.Proofs.Parser.Abreast.Script

namespace Tao.Parser

/-- On a stream that offers `input`, `x` with fuel enough gives something that satisfies `P`, always
    the same; what is left offers `output`. -/
def Settles {α : Type} (n : Nat) (x : Nat → Parse α) (input output : List Lexeme)
    (P : α → Prop) : Prop :=
  ∀ parser, parser.breakable = n → parser.tokens.Offers input →
    ∃ a next least, (∀ fuel, least ≤ fuel → x fuel parser = .ok a next) ∧
      next.breakable = n ∧ next.tokens.Offers output ∧ P a

variable {α β σ : Type} {n : Nat} {P Q : α → Prop} {i j o : List Lexeme} {x : Nat → Parse α}
  {f : Nat → α → Parse β}

/-- What needs no fuel settles at once. -/
theorem Reads.settles {x : Parse α} (h : Reads n n x i o P) : Settles n (fun _ => x) i o P := by
  intro parser hn hoffers
  obtain ⟨a, next, hresult, hrest⟩ := h parser hn hoffers
  exact ⟨a, next, 0, fun _ _ => hresult, hrest⟩

namespace Settles

/-! ## Putting parsers together -/

theorem pure {a : α} (h : P a) : Settles n (fun _ => pure a) o o P := (Reads.pure h).settles

/-- One after the other: the larger amount of fuel is enough for both. -/
theorem bind {R : β → Prop} (hx : Settles n x i j Q) (hf : ∀ a, Q a → Settles n (f · a) j o R) :
    Settles n (fun fuel => x fuel >>= f fuel) i o R := by
  intro parser hn hoffers
  obtain ⟨a, middle, least, hresult, hm, hmiddle, hq⟩ := hx parser hn hoffers
  obtain ⟨b, next, more, hnext, hrest⟩ := hf a hq middle hm hmiddle
  refine ⟨b, next, max least more, fun fuel hfuel => ?_, hrest⟩
  show (x fuel >>= f fuel) parser = _
  rw [EStateM.bind_of_ok (hresult fuel (by omega))]
  exact hnext fuel (by omega)

/-- Where it is known what the first parser gives. -/
theorem bindEq {R : β → Prop} {a : α} (hx : Settles n x i j (· = a))
    (hf : Settles n (f · a) j o R) : Settles n (fun fuel => x fuel >>= f fuel) i o R :=
  hx.bind fun _ ha => ha ▸ hf

/-- The first level is as good as any. -/
theorem above (h : Settles n (fun fuel => x (fuel + 1)) i o P) : Settles n x i o P := by
  intro parser hn hoffers
  obtain ⟨a, next, least, hresult, hrest⟩ := h parser hn hoffers
  refine ⟨a, next, least + 1, fun fuel hfuel => ?_, hrest⟩
  obtain ⟨fuel, rfl⟩ : ∃ below, fuel = below + 1 := ⟨fuel - 1, by omega⟩
  exact hresult fuel (by omega)

/-- Only what happens from some amount on matters. -/
theorem congr {y : Nat → Parse α} {least : Nat} (h : Settles n x i o P)
    (heq : ∀ fuel, least ≤ fuel → y fuel = x fuel) : Settles n y i o P := by
  intro parser hn hoffers
  obtain ⟨a, next, enough, hresult, hrest⟩ := h parser hn hoffers
  refine ⟨a, next, max least enough, fun fuel hfuel => ?_, hrest⟩
  rw [heq fuel (by omega)]
  exact hresult fuel (by omega)

/-! ## Loops -/

variable {turn : Nat → σ → Parse (Turn σ α)} {s t : σ} {spent : Nat}

/-- What a loop does from where so many turns are spent. -/
theorem iterate_sub (turn : σ → Parse (Turn σ α)) (s : σ) {fuel : Nat} (h : spent + 1 ≤ fuel) :
    Tao.iterate (fuel - spent) turn s = turn s >>= fun t => match t with
      | .again next => Tao.iterate (fuel - (spent + 1)) turn next
      | .done result => Pure.pure result := by
  have hturns : fuel - spent = fuel - (spent + 1) + 1 := by omega
  rw [hturns, Tao.iterate]
  refine congrArg (turn s >>= ·) (funext fun t => ?_)
  cases t <;> rfl

/-- A loop that goes on. -/
theorem iterateAgain (hturn : Settles n (turn · s) i j (· = .again t))
    (hrest : Settles n (fun fuel => Tao.iterate (fuel - (spent + 1)) (turn fuel) t) j o P) :
    Settles n (fun fuel => Tao.iterate (fuel - spent) (turn fuel) s) i o P :=
  (hturn.bind fun _ ht => ht ▸ hrest).congr fun fuel => iterate_sub (turn fuel) s

/-- A loop that ends. -/
theorem iterateDone {a : α} (hturn : Settles n (turn · s) i o (· = .done a)) (ha : P a) :
    Settles n (fun fuel => Tao.iterate (fuel - spent) (turn fuel) s) i o P :=
  (hturn.bind fun _ ht => ht ▸ pure ha).congr fun fuel => iterate_sub (turn fuel) s

end Settles

/-! ## Entry points -/

/-- Reads what an operand is without operators and parts. -/
def primary : Parse Expression := fun parser => (Grammar.ofFuel parser.fuel).primary parser

/-- A parser that more fuel does not change, once there is twice as much of it as is left. -/
def Steady (x : Nat → Parse α) : Prop :=
  ∀ fuel more left, fuel ≤ more → 2 * left + 1 ≤ fuel →
    Bond.same.Abreast .together left (x fuel) (x more) fun _ _ a b => a = b

/-- What is read with any fuel from some amount on settles. -/
theorem Steady.settles (hx : Steady x) {least : Nat}
    (h : ∀ fuel, least ≤ fuel → Reads n n (x fuel) i o P) : Settles n x i o P := by
  intro parser hn hoffers
  let enough := max least (2 * parser.tokens.left + 1)
  obtain ⟨a, next, hresult, hrest⟩ := h enough (Nat.le_max_left _ _) parser hn hoffers
  refine ⟨a, next, enough, fun fuel hfuel => ?_, hrest⟩
  obtain ⟨b, hmore, rfl⟩ := Bond.ok_of_same' (hx _ _ _ hfuel (Nat.le_max_right _ _)) rfl hresult
  exact hmore

/-- The fuel of an entry point is more than what is left asks for. -/
theorem left_lt_fuel (parser : Parser) : 2 * parser.tokens.left + 1 ≤ parser.fuel := by
  have hleft := parser.tokens.left_le_remaining
  have hfuel := le_fullStacks (4 * parser.tokens.remaining + 8)
  unfold Parser.fuel
  omega

/-- The fuel reckoned from what is left is enough. -/
theorem Steady.settles_iff (hx : Steady x) :
    Settles n x i o P ↔ Reads n n (fun parser => x parser.fuel parser) i o P := by
  constructor
  · intro h parser hn hoffers
    obtain ⟨a, next, least, hresult, hrest⟩ := h parser hn hoffers
    have hmore := hresult (max least parser.fuel) (Nat.le_max_left _ _)
    obtain ⟨b, hfuel, rfl⟩ :=
      Bond.ok_of_same (hx _ _ _ (Nat.le_max_right _ _) parser.left_lt_fuel) rfl hmore
    exact ⟨b, next, hfuel, hrest⟩
  · intro h parser hn hoffers
    obtain ⟨a, next, hresult, hrest⟩ := h parser hn hoffers
    refine ⟨a, next, parser.fuel, fun fuel hfuel => ?_, hrest⟩
    obtain ⟨b, hmore, rfl⟩ := Bond.ok_of_same' (hx _ _ _ hfuel parser.left_lt_fuel) rfl hresult
    exact hmore

/-- Levels that have fuel enough read the same. -/
theorem steady_expressionFrom (tier : Precedence) :
    Steady fun fuel => (Grammar.ofFuel fuel).expressionFrom tier := by
  intro fuel more left hle hleft
  refine ((Bond.joins_ofFuel Bond.same hle).expressionFrom .together left tier hleft).imp ?_
  rintro m after e _ ⟨rfl, -⟩
  rfl

theorem steady_primary : Steady fun fuel => (Grammar.ofFuel fuel).primary := by
  intro fuel more left hle hleft
  refine ((Bond.joins_ofFuel Bond.same hle).primary (Nat.le_of_succ_le hleft)).imp ?_
  rintro m after e _ ⟨rfl, -⟩
  rfl

/-- Reading ahead for a lambda. -/
theorem steady_lambdaHead : Steady fun fuel => (Grammar.ofFuel fuel).lambdaHead := by
  intro fuel more left hle hleft
  have hless : left < (Grammar.ofFuel fuel).bound := by
    show left < fuel
    omega
  have hbound : (Grammar.ofFuel fuel).bound ≤ (Grammar.ofFuel more).bound := hle
  refine (Bond.Joins.lambdaHead hbound hless).imp ?_
  rintro m after head head' ⟨hhead, -⟩
  cases hhead with
  | none => rfl
  | some hparams => exact congrArg some (List.forall₂_eq_eq_eq ▸ hparams)

end Tao.Parser
