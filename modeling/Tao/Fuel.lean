/-
  Recursion that is bounded by fuel.

  Parsing and running a script recurse to a depth that only the script decides.  Here such a
  recursion takes a number, its FUEL, which falls by one at every level, and stops with
  `Halt.outOfFuel` when there is none left.  Stopping that way is kept apart from failing, so a
  statement about failures never speaks of a lack of fuel.

  A loop is the other use of fuel: `iterate` repeats a step until it says that it is done.
-/
namespace Tao

/-- Why a computation stopped without a result: it failed, or it ran out of fuel. -/
inductive Halt (ε : Type) where
  | failed (error : ε)
  | outOfFuel
  deriving DecidableEq, Repr

/-- A computation on a state `σ` that can fail with an `ε` or run out of fuel.  The state reached is
    kept in every case. -/
abbrev Fueled (ε σ : Type) := EStateM (Halt ε) σ

/-- Fails with an error, in the state reached. -/
def fail {ε σ α : Type} (error : ε) : Fueled ε σ α := throw (.failed error)

/-! ## Loops -/

/-- What one turn of a loop decides: go on with `next`, or end with `result`. -/
inductive Turn (α β : Type) where
  | again (next : α)
  | done (result : β)

/-- Repeats `turn`, starting from `a`, until it is done, for at most `fuel` turns. -/
def iterate {ε σ α β : Type} (fuel : Nat) (turn : α → Fueled ε σ (Turn α β)) (a : α) :
    Fueled ε σ β :=
  match fuel with
  | 0 => throw .outOfFuel
  | fuel + 1 => do
    match ← turn a with
    | .again next => iterate fuel turn next
    | .done result => pure result

/-! ## Levels -/

/-- The levels of recursion that one native stack carries. -/
def levelsPerStack : Nat := 2048

/-- Computes a value on a stack of its own. -/
def onFreshStack {α : Type} (f : Unit → α) : α := (Task.spawn f).get

/-- A stack of its own changes nothing in the value computed. -/
theorem onFreshStack_eq {α : Type} (f : Unit → α) : onFreshStack f = f () := rfl

/-- The same computation; where `level` is a multiple of `levelsPerStack` it moves to a fresh stack,
    so that the depth of a script is bounded by its fuel alone. -/
def atLevel {ε σ α : Type} (level : Nat) (x : Fueled ε σ α) : Fueled ε σ α := fun s =>
  if level % levelsPerStack = 0 then onFreshStack fun _ => x s else x s

/-- Where a computation runs is of no matter to what it computes, so proofs never see `atLevel`. -/
@[simp] theorem atLevel_eq {ε σ α : Type} (level : Nat) (x : Fueled ε σ α) :
    atLevel level x = x := by
  funext s
  simp [atLevel, onFreshStack_eq]

/-- A number of levels that is at least `n` and just below a multiple of `levelsPerStack`, so that
    the first fresh stack is needed only when a whole stack is used up. -/
def fullStacks (n : Nat) : Nat := (n / levelsPerStack + 1) * levelsPerStack - 1

/-- Rounding up to whole stacks takes away no fuel. -/
theorem le_fullStacks (n : Nat) : n ≤ fullStacks n := by
  unfold fullStacks levelsPerStack
  omega

end Tao
