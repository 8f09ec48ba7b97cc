/-
  The tree that tiers prescribe.

  A CHAIN is an operand with any number of operators after it, each with an operand of its own.  An
  `OperatorTree` has the operators of a chain at its nodes and the operands at its leaves, in order.
  It is GROUPED if every node takes from its neighbours what the tiers let it take: under an
  operator on the left only what binds at least as tightly, on the right only what binds tighter,
  and the other way round for `**`.

  Every chain has exactly one grouped tree.  It is built from the left: a new operator goes down the
  right edge, past every operator that takes it to its right operand (`OperatorTree.snoc`).
-/
import Tao.Precedence
import Tao.Proofs.Parser.Written

namespace Tao

/-! ## Binary operators -/

/-- An operator that stands between two operands. -/
structure BinaryOperator where
  kind : Kind
  isBinary : kind.isBinary = true

namespace BinaryOperator

/-- Every binary operator has a tier. -/
theorem isSome_afterOperand {kind : Kind} (h : kind.isBinary = true) :
    (Precedence.afterOperand? kind).isSome = true := by
  cases kind <;> first | rfl | cases h

/-- The tier of an operator. -/
def tier (p : BinaryOperator) : Precedence :=
  (Precedence.afterOperand? p.kind).get (isSome_afterOperand p.isBinary)

/-- It is the tier that the parser finds. -/
theorem afterOperand_eq (p : BinaryOperator) : Precedence.afterOperand? p.kind = some p.tier :=
  (Option.some_get _).symm

/-- How tightly an operator binds. -/
def rank (p : BinaryOperator) : Nat := p.tier.rank

variable {p q : BinaryOperator}

/-- The tightest one is `**`, which has its tier for itself. -/
theorem rank_starStar (h : p.kind = .starStar) : p.rank = Precedence.exponentiation.rank := by
  obtain ⟨kind, hkind⟩ := p
  subst h
  rfl

/-- All other operators bind less tightly. -/
theorem rank_lt (h : p.kind ≠ .starStar) : p.rank < Precedence.exponentiation.rank := by
  obtain ⟨kind, hkind⟩ := p
  cases kind <;> first | exact absurd rfl h | exact Nat.le_of_ble_eq_true rfl | cases hkind

theorem rank_le (p : BinaryOperator) : p.rank ≤ Precedence.exponentiation.rank := by
  by_cases h : p.kind = .starStar
  · exact Nat.le_of_eq (rank_starStar h)
  · exact Nat.le_of_lt (rank_lt h)

/-- May `q` stand in the left operand of `p`, without parentheses? -/
def AllowsLeft (p q : BinaryOperator) : Prop :=
  if p.kind = .starStar then p.rank < q.rank else p.rank ≤ q.rank

/-- May `q` stand in the right operand of `p`, without parentheses? -/
def AllowsRight (p q : BinaryOperator) : Prop :=
  if p.kind = .starStar then p.rank ≤ q.rank else p.rank < q.rank

instance (p q : BinaryOperator) : Decidable (p.AllowsLeft q) := by
  unfold AllowsLeft
  infer_instance

instance (p q : BinaryOperator) : Decidable (p.AllowsRight q) := by
  unfold AllowsRight
  infer_instance

/-- Of two operators around an operand exactly one takes it. -/
theorem allowsLeft_iff : p.AllowsLeft q ↔ ¬ q.AllowsRight p := by
  unfold AllowsLeft AllowsRight
  split
  · next hstar =>
    have hequal := rank_starStar hstar
    split
    · omega
    · next hother =>
      have hless := rank_lt hother
      omega
  · next hstar =>
    have hless := rank_lt hstar
    split
    · next hother =>
      have hequal := rank_starStar hother
      omega
    · omega

/-- The tier from which the right operand is read. -/
def rightTier (p : BinaryOperator) : Precedence := Precedence.ofRightOperand p.kind p.tier

/-- The right operand of an operator is read from the next tier on, for `**` from its own. -/
theorem rank_rightTier (p : BinaryOperator) :
    p.rightTier.rank = if p.kind = .starStar then p.rank else p.rank + 1 := by
  unfold rightTier Precedence.ofRightOperand
  split
  · rfl
  · refine Precedence.rank_next p.tier fun htier => ?_
    have hle := rank_le p
    unfold rank at hle
    rw [htier] at hle
    exact absurd hle (by decide)

/-- In any case it is not a looser one. -/
theorem rank_le_rightTier (p : BinaryOperator) : p.rank ≤ p.rightTier.rank := by
  rw [rank_rightTier]
  split <;> omega

/-- An operator's right operand is read from the tier on from which it may stand there. -/
theorem allowsRight_iff : p.AllowsRight q ↔ p.rightTier.rank ≤ q.rank := by
  rw [rank_rightTier]
  unfold AllowsRight
  split <;> exact Iff.rfl

/-- To the right goes nothing that binds less tightly. -/
theorem AllowsRight.le (h : p.AllowsRight q) : p.rank ≤ q.rank := by
  unfold AllowsRight at h
  split at h <;> omega

/-- What binds at least as tightly may stand where its better may. -/
theorem AllowsRight.trans {r : BinaryOperator} (h : p.AllowsRight q) (hle : q.rank ≤ r.rank) :
    p.AllowsRight r :=
  allowsRight_iff.2 (Nat.le_trans (allowsRight_iff.1 h) hle)

/-- Nor does it to the left. -/
theorem AllowsLeft.le (h : p.AllowsLeft q) : p.rank ≤ q.rank := by
  unfold AllowsLeft at h
  split at h <;> omega

end BinaryOperator

/-! ## Trees -/

/-- Binary operators over operands. -/
inductive OperatorTree (α : Type) where
  | operand (x : α)
  | node (left : OperatorTree α) (operator : BinaryOperator) (right : OperatorTree α)

namespace OperatorTree

variable {α : Type} {t l r : OperatorTree α} {p q : BinaryOperator} {x y : α}
  {chain : List (BinaryOperator × α)}

/-- The topmost operator; none if the tree is an operand alone. -/
def root? : OperatorTree α → Option BinaryOperator
  | operand _ => none
  | node _ p _ => some p

/-- The first operand. -/
def first : OperatorTree α → α
  | operand x => x
  | node l _ _ => l.first

/-- The operators from left to right, each with the operand after it. -/
def rest : OperatorTree α → List (BinaryOperator × α)
  | operand _ => []
  | node l p r => l.rest ++ (p, r.first) :: r.rest

/-- Does every node take what the tiers let it take? -/
def Grouped : OperatorTree α → Prop
  | operand _ => True
  | node l p r =>
    l.Grouped ∧ r.Grouped ∧ (∀ q ∈ l.root?, p.AllowsLeft q) ∧ ∀ q ∈ r.root?, p.AllowsRight q

instance decidableGrouped : (t : OperatorTree α) → Decidable t.Grouped
  | operand _ => inferInstanceAs (Decidable True)
  | node l p r =>
    have := decidableGrouped l
    have := decidableGrouped r
    inferInstanceAs (Decidable (l.Grouped ∧ r.Grouped ∧ (∀ q ∈ l.root?, p.AllowsLeft q) ∧
      ∀ q ∈ r.root?, p.AllowsRight q))

/-- No operator of a grouped tree binds looser than the topmost one. -/
theorem Grouped.root_le (h : t.Grouped) (hroot : p ∈ t.root?) (hmem : (q, x) ∈ t.rest) :
    p.rank ≤ q.rank := by
  induction t generalizing p with
  | operand y => cases hroot
  | node l top r ihl ihr =>
    cases hroot
    obtain ⟨hl, hr, hleft, hright⟩ := h
    rcases List.mem_append.1 hmem with hmem | hmem
    · -- the left operand has an operator, so it has a topmost one
      cases l with
      | operand => cases hmem
      | node _ below _ => exact Nat.le_trans (hleft below rfl).le (ihl hl rfl hmem)
    · rcases List.mem_cons.1 hmem with heq | hmem
      · cases heq
        exact Nat.le_refl _
      · cases r with
        | operand => cases hmem
        | node _ below _ => exact Nat.le_trans (hright below rfl).le (ihr hr rfl hmem)

/-! ## The tree of a chain -/

/-- The tree with one more operator and its right operand at the end: past every operator that takes
    the new one to its right. -/
def snoc : OperatorTree α → BinaryOperator → α → OperatorTree α
  | operand x, p, y => node (operand x) p (operand y)
  | node l q r, p, y =>
    if q.AllowsRight p then node l q (r.snoc p y) else node (node l q r) p (operand y)

/-- The tree with a whole chain at the end, from left to right. -/
def appendChain (t : OperatorTree α) (chain : List (BinaryOperator × α)) : OperatorTree α :=
  chain.foldl (fun t link => t.snoc link.1 link.2) t

/-- The tree of a chain. -/
def ofChain (first : α) (rest : List (BinaryOperator × α)) : OperatorTree α :=
  (operand first).appendChain rest

/-- A chain may be appended in two parts. -/
theorem appendChain_append (t : OperatorTree α) (chain more : List (BinaryOperator × α)) :
    t.appendChain (chain ++ more) = (t.appendChain chain).appendChain more :=
  List.foldl_append

/-- A new operator leaves the first operand where it was. -/
@[simp] theorem first_snoc : (t.snoc p y).first = t.first := by
  induction t with
  | operand => rfl
  | node l q r _ _ =>
    unfold snoc
    split <;> rfl

/-- It adds to the end of the chain. -/
@[simp] theorem rest_snoc : (t.snoc p y).rest = t.rest ++ [(p, y)] := by
  induction t with
  | operand => rfl
  | node l q r _ ih =>
    unfold snoc
    split
    · simp only [rest, first_snoc, ih, List.append_assoc, List.cons_append]
    · rfl

/-- The topmost operator stays the topmost one, or the new one takes its place. -/
theorem root_snoc (h : q ∈ (t.snoc p y).root?) : q = p ∨ q ∈ t.root? := by
  cases t with
  | operand => exact .inl (Option.some.inj h).symm
  | node l top r =>
    unfold snoc at h
    split at h
    · exact .inr h
    · exact .inl (Option.some.inj h).symm

/-- Going down the right edge keeps a tree grouped.  Induction on this edge. -/
theorem Grouped.snoc (h : t.Grouped) : (t.snoc p y).Grouped := by
  induction t with
  | operand => exact ⟨trivial, trivial, nofun, nofun⟩
  | node l q r _ ih =>
    unfold OperatorTree.snoc
    obtain ⟨hl, hr, hleft, hright⟩ := h
    split
    · next htakes =>
      refine ⟨hl, ih hr, hleft, fun below hbelow => ?_⟩
      rcases root_snoc hbelow with rfl | hbelow
      · exact htakes
      · exact hright below hbelow
    · next hstops =>
      refine ⟨⟨hl, hr, hleft, hright⟩, trivial, ?_, nofun⟩
      rintro _ ⟨⟩
      exact BinaryOperator.allowsLeft_iff.2 hstops

/-- A whole chain leaves the first operand, too. -/
theorem first_appendChain (t : OperatorTree α) (chain : List (BinaryOperator × α)) :
    (t.appendChain chain).first = t.first := by
  induction chain generalizing t with
  | nil => rfl
  | cons link chain ih => exact (ih _).trans first_snoc

theorem rest_appendChain (t : OperatorTree α) (chain : List (BinaryOperator × α)) :
    (t.appendChain chain).rest = t.rest ++ chain := by
  induction chain generalizing t with
  | nil => exact (List.append_nil _).symm
  | cons link chain ih =>
    refine (ih _).trans ?_
    rw [rest_snoc, List.append_assoc]
    rfl

/-- A whole chain keeps a tree grouped. -/
theorem Grouped.appendChain (h : t.Grouped) (chain : List (BinaryOperator × α)) :
    (t.appendChain chain).Grouped := by
  induction chain generalizing t with
  | nil => exact h
  | cons link chain ih => exact ih h.snoc

/-! ## There is no other one -/

/-- A chain that an operator takes to its right goes to its right operand. -/
theorem appendChain_node (h : ∀ link ∈ chain, p.AllowsRight link.1) :
    (node l p r).appendChain chain = node l p (r.appendChain chain) := by
  induction chain generalizing r with
  | nil => rfl
  | cons link chain ih =>
    have hlink := h link List.mem_cons_self
    have hsnoc : (node l p r).snoc link.1 link.2 = node l p (r.snoc link.1 link.2) := if_pos hlink
    show ((node l p r).snoc link.1 link.2).appendChain chain = _
    rw [hsnoc, ih fun other hother => h other (List.mem_cons_of_mem link hother)]
    rfl

/-- A new operator takes the whole tree to its left if it may. -/
theorem snoc_of_allowsLeft (h : ∀ q ∈ t.root?, p.AllowsLeft q) :
    t.snoc p y = node t p (operand y) := by
  cases t with
  | operand => rfl
  | node l q r => exact if_neg (BinaryOperator.allowsLeft_iff.1 (h q rfl))

/-- A grouped tree is the one that is built from its chain.  The chain of a node is that of its left
    operand, its own operator, and that of its right operand, all of which it takes. -/
theorem Grouped.ofChain_eq (h : t.Grouped) : ofChain t.first t.rest = t := by
  induction t with
  | operand => rfl
  | node l p r ihl ihr =>
    obtain ⟨hl, hr, hleft, hright⟩ := h
    have htakes : ∀ link ∈ r.rest, p.AllowsRight link.1 := by
      intro link hmem
      cases r with
      | operand => cases hmem
      | node _ below _ => exact (hright below rfl).trans (hr.root_le rfl hmem)
    calc ofChain (node l p r).first (node l p r).rest
      _ = (ofChain l.first l.rest).appendChain ((p, r.first) :: r.rest) :=
        appendChain_append _ _ _
      _ = (l.snoc p r.first).appendChain r.rest := by rw [ihl hl]; rfl
      _ = (node l p (operand r.first)).appendChain r.rest := by rw [snoc_of_allowsLeft hleft]
      _ = node l p (ofChain r.first r.rest) := appendChain_node htakes
      _ = node l p r := by rw [ihr hr]

end OperatorTree

end Tao
