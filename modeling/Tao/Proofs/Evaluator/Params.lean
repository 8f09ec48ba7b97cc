/-
  Binding parameters.

  A call binds the parameters of its function in order, each to the argument at its place or to nil.
  The scope stays where it was.  Binding fails if a name is bound already, so it does not fail for
  names that differ, in a scope that binds none of them.
-/
import Mathlib.Data.List.Basic
import Tao.Evaluator.Call

namespace Tao

variable {scope after : Scope} {name : String} {value : Value} {params : List String}
  {arguments : List Value}

namespace Scope

/-- A definition does not move the scope. -/
theorem parent_define (h : scope.define name value = .ok after) : after.parent = scope.parent := by
  unfold define at h
  split at h
  · cases h
  · cases h
    rfl

/-- A name that is not bound can be defined, and the others are bound as before. -/
theorem exists_define (h : scope.get? name = none) (value : Value) :
    ∃ after, scope.define name value = .ok after ∧ ∀ x ≠ name, after.get? x = scope.get? x := by
  refine ⟨{ scope with bindings := scope.bindings ++ [(name, value)] }, ?_, fun x hx => ?_⟩
  · unfold define
    rw [h]
    rfl
  · have hother : (x == name) = false := beq_false_of_ne hx
    unfold get?
    rw [List.lookup_append, List.lookup_cons, hother, List.lookup_nil]
    exact Option.or_none

end Scope

namespace Evaluator

/-- The first parameter is bound, to its argument or to nil, and then the others are. -/
theorem bindParams_cons (scope : Scope) (param : String) (params : List String)
    (arguments : List Value) :
    ∃ value rest, bindParams scope (param :: params) arguments =
      scope.define param value >>= fun next => bindParams next params rest := by
  cases arguments with
  | nil => exact ⟨_, _, rfl⟩
  | cons argument arguments => exact ⟨_, _, rfl⟩

/-- Nor does binding parameters. -/
theorem parent_bindParams (h : bindParams scope params arguments = .ok after) :
    after.parent = scope.parent := by
  induction params generalizing scope arguments with
  | nil =>
    cases h
    rfl
  | cons param params ih =>
    obtain ⟨value, rest, hrest⟩ := bindParams_cons scope param params arguments
    rw [hrest] at h
    cases hdefine : scope.define param value with
    | error e =>
      rw [hdefine] at h
      cases h
    | ok next =>
      rw [hdefine] at h
      exact (ih h).trans (Scope.parent_define hdefine)

/-- Names that differ and are not bound can be bound. -/
theorem exists_bindParams (hdistinct : params.Nodup) (hunbound : ∀ x ∈ params, scope.get? x = none)
    (arguments : List Value) : ∃ after, bindParams scope params arguments = .ok after := by
  induction params generalizing scope arguments with
  | nil => exact ⟨scope, rfl⟩
  | cons param params ih =>
    obtain ⟨hnew, hdistinct⟩ := List.nodup_cons.1 hdistinct
    obtain ⟨hparam, hparams⟩ := List.forall_mem_cons.1 hunbound
    obtain ⟨value, rest, hrest⟩ := bindParams_cons scope param params arguments
    obtain ⟨next, hdefine, hothers⟩ := Scope.exists_define hparam value
    have hnext : ∀ x ∈ params, next.get? x = none := fun x hx => by
      rw [hothers x fun heq => hnew (heq ▸ hx)]
      exact hparams x hx
    rw [hrest, hdefine]
    exact ih hdistinct hnext rest

end Evaluator

end Tao
