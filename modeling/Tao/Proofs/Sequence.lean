/-
  One computation after another.

  Parsers, checked changes of the heap and computations on a machine are all computations on a state
  that can fail (`EStateM`).  What a sequence of two of them does is the same for all three:
  `bind_apply` says it at once, and the lemmas after it one ending at a time, forwards and
  backwards.
-/
import Tao.Fuel

namespace EStateM

variable {ε σ α β : Type} {x : EStateM ε σ α} {f : α → EStateM ε σ β} {s s' s'' : σ}

/-- A sequence goes on from the state that its first part reaches, and ends with it if that part
    fails. -/
theorem bind_apply (x : EStateM ε σ α) (f : α → EStateM ε σ β) (s : σ) :
    (x >>= f) s = match x s with
      | .ok a s => f a s
      | .error e s => .error e s :=
  run_bind x f

/-- Where the first part succeeds, what is left to do is the second. -/
theorem bind_of_ok {a : α} (h : x s = .ok a s') : (x >>= f) s = f a s' := by
  rw [bind_apply, h]

/-- Where the first part fails, so does the sequence. -/
theorem bind_of_error {e : ε} (h : x s = .error e s') : (x >>= f) s = .error e s' := by
  rw [bind_apply, h]

/-- A sequence that succeeds did so in both its parts. -/
theorem exists_of_bind_ok {b : β} (h : (x >>= f) s = .ok b s'') :
    ∃ a s', x s = .ok a s' ∧ f a s' = .ok b s'' := by
  rw [bind_apply] at h
  cases hx : x s with
  | ok a s' =>
    rw [hx] at h
    exact ⟨a, s', rfl, h⟩
  | error e s' =>
    rw [hx] at h
    cases h

end EStateM
