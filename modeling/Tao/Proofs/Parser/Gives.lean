/-
  What parsers give.

  `Takes I J x P` says of a parser `x` that, run in a state that satisfies `I`, it leaves one that
  satisfies `J`, and that what it gives satisfies `P`.  Nothing is said of a parser that fails.
  There is one rule for each way to put parsers together.

  `Gives before after x P` is the case in which the states are told apart by the number of loops and
  switches around only, which `x` takes from `before` to `after`.  For it there is also one rule for
  each parser that takes tokens: taking a token tells nothing of what is read.
-/
import Tao.Parser.Basic
import Tao.Proofs.Sequence

namespace Tao.Parser

/-- From a state that satisfies `I`, `x` goes to one that satisfies `J` and gives something that
    satisfies `P`. -/
def Takes {α : Type} (I J : Parser → Prop) (x : Parse α) (P : α → Prop) : Prop :=
  ∀ parser a next, I parser → x parser = .ok a next → J next ∧ P a

/-- What `x` gives satisfies `P`, and the count of loops and switches goes from `before` to
    `after`. -/
def Gives {α : Type} (before after : Nat) (x : Parse α) (P : α → Prop) : Prop :=
  ∀ parser a next, parser.breakable = before → x parser = .ok a next → next.breakable = after ∧ P a

variable {α β σ : Type} {n m l : Nat} {P Q : α → Prop}

/-- Does a turn keep an invariant, or end with a result as wanted? -/
def TurnKeeps (I : σ → Prop) (P : α → Prop) : Turn σ α → Prop
  | .again s => I s
  | .done a => P a

/-! ## Putting parsers together -/

namespace Takes

variable {I J K : Parser → Prop}

theorem pure {a : α} (h : P a) : Takes I I (pure a) P := by
  intro parser b next hI hresult
  cases hresult
  exact ⟨hI, h⟩

theorem fail {e : SyntaxError} : Takes I J (Tao.fail e) P := by
  intro parser a next _ hresult
  cases hresult

theorem failBind {e : SyntaxError} {f : α → Parse β} {P : β → Prop} :
    Takes I J (Tao.fail e >>= f) P := by
  intro parser a next _ hresult
  cases hresult

theorem outOfFuel : Takes I J (fun parser => .error .outOfFuel parser) P := by
  intro parser a next _ hresult
  cases hresult

/-- One after the other: the states in between are those that the first part leaves. -/
theorem bind {x : Parse α} {f : α → Parse β} {P : β → Prop} (hx : Takes I J x Q)
    (hf : ∀ a, Q a → Takes J K (f a) P) : Takes I K (x >>= f) P := by
  intro parser b next hI hresult
  obtain ⟨a, middle, hfirst, hrest⟩ := EStateM.exists_of_bind_ok hresult
  obtain ⟨hJ, hq⟩ := hx parser a middle hI hfirst
  exact hf a hq middle b next hJ hrest

theorem imp {x : Parse α} (hx : Takes I J x Q) (h : ∀ a, Q a → P a) : Takes I J x P :=
  fun parser a next hI hresult => (hx parser a next hI hresult).imp_right (h a)

theorem map {x : Parse α} {f : α → β} {P : β → Prop} (hx : Takes I J x Q)
    (h : ∀ a, Q a → P (f a)) : Takes I J (f <$> x) P :=
  hx.bind fun a ha => .pure (h a ha)

/-- A loop keeps what each of its turns does.  Induction on the turns that are left. -/
theorem iterate {turn : σ → Parse (Turn σ α)} {H : σ → Prop} {fuel : Nat}
    (hturn : ∀ s, H s → Takes I I (turn s) (TurnKeeps H P)) {s : σ} (hs : H s) :
    Takes I I (Tao.iterate fuel turn s) P := by
  induction fuel generalizing s with
  | zero => exact .outOfFuel
  | succ fuel ih =>
    refine (hturn s hs).bind fun next hnext => ?_
    cases next with
    | again s => exact ih hnext
    | done a => exact .pure hnext

/-- Changing the state. -/
theorem modify {f : Parser → Parser} (hf : ∀ parser, I parser → J (f parser)) :
    Takes I J (modify f) fun _ => True := by
  intro parser a next hI hresult
  cases hresult
  exact ⟨hf parser hI, trivial⟩

/-- A change of the state may come after, if the parser succeeds. -/
theorem afterwards {x : Parse α} (hx : Takes I J x P) {f : Parser → Parser}
    (hf : ∀ parser, J parser → K (f parser)) : Takes I K (afterwards x f) P := by
  intro parser a next hI hresult
  unfold Parser.afterwards at hresult
  cases hx' : x parser with
  | error halt parser =>
    rw [hx'] at hresult
    cases hresult
  | ok b middle =>
    rw [hx'] at hresult
    cases hresult
    obtain ⟨hJ, hp⟩ := hx parser a middle hI hx'
    exact ⟨hf middle hJ, hp⟩

end Takes

/-! ## Counting loops and switches -/

/-- The same rules, for states that are told apart by the count. -/
theorem Gives.pure {a : α} (h : P a) : Gives n n (pure a) P := Takes.pure h

theorem Gives.fail {e : SyntaxError} : Gives n m (Tao.fail e) P := Takes.fail

theorem Gives.failBind {e : SyntaxError} {f : α → Parse β} {P : β → Prop} :
    Gives n m (Tao.fail e >>= f) P := Takes.failBind

theorem Gives.outOfFuel : Gives n m (fun parser => .error .outOfFuel parser) P := Takes.outOfFuel

/-- The count goes from one part to the next. -/
theorem Gives.bind {x : Parse α} {f : α → Parse β} {P : β → Prop} (hx : Gives n m x Q)
    (hf : ∀ a, Q a → Gives m l (f a) P) : Gives n l (x >>= f) P := Takes.bind hx hf

theorem Gives.imp {x : Parse α} (hx : Gives n m x Q) (h : ∀ a, Q a → P a) : Gives n m x P :=
  Takes.imp hx h

theorem Gives.map {x : Parse α} {f : α → β} {P : β → Prop} (hx : Gives n m x Q)
    (h : ∀ a, Q a → P (f a)) : Gives n m (f <$> x) P := Takes.map hx h

/-- A loop whose turns keep the count keeps it. -/
theorem Gives.iterate {turn : σ → Parse (Turn σ α)} {I : σ → Prop} {fuel : Nat}
    (hturn : ∀ s, I s → Gives n n (turn s) (TurnKeeps I P)) {s : σ} (hs : I s) :
    Gives n n (Tao.iterate fuel turn s) P := Takes.iterate hturn hs

/-- Setting the count is the only step that changes it. -/
theorem Gives.setCount (f : Nat → Nat) :
    Gives n (f n) (modify fun parser => { parser with breakable := f parser.breakable })
      fun _ => True := Takes.modify fun _ => congrArg f

/-- It may be set back at the end. -/
theorem Gives.afterwards {x : Parse α} (hx : Gives n m x P) {f : Parser → Parser}
    (hf : ∀ parser, parser.breakable = m → (f parser).breakable = l) :
    Gives n l (afterwards x f) P := Takes.afterwards hx hf

/-! ## Tokens -/

/-- Taking tokens and putting them back leaves the count. -/
theorem gives_take : Gives n n take fun _ => True := by
  intro parser token next hn hresult
  unfold take at hresult
  split at hresult
  · cases hresult
    exact ⟨hn, trivial⟩
  · cases hresult

theorem gives_putBack (token : Token) : Gives n n (putBack token) fun _ => True := by
  intro parser a next hn hresult
  cases hresult
  exact ⟨hn, trivial⟩

theorem gives_peek : Gives n n peek fun _ => True :=
  gives_take.bind fun token _ => (gives_putBack token).bind fun _ _ => .pure trivial

theorem gives_nextIs (kind : Kind) : Gives n n (nextIs kind) fun _ => True :=
  gives_peek.bind fun _ _ => .pure trivial

theorem gives_takeIf (kind : Kind) : Gives n n (takeIf kind) fun _ => True := by
  refine gives_take.bind fun token _ => ?_
  split
  · exact .pure trivial
  · exact (gives_putBack token).bind fun _ _ => .pure trivial

theorem gives_expect (kind : Kind) : Gives n n (expect kind) fun _ => True := by
  refine gives_take.bind fun token _ => ?_
  split
  · exact .pure trivial
  · exact .fail

theorem gives_expectName : Gives n n expectName fun _ => True :=
  (gives_expect .identifier).bind fun _ _ => .pure trivial

end Tao.Parser
