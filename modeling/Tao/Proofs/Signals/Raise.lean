/-
  Raising signals.

  The machine on which a completion is RAISED in a scope is the same machine but for the signals of
  that scope, which tell of the completion.  Where no signal was up before, raising a normal
  completion changes nothing, and taking the signals down gives the completion and the machine back.
-/
import Tao.Proofs.Heap.Cells
import Tao.Proofs.Lockstep.Stores
import Tao.Proofs.Signals.Structured

namespace Tao

namespace Completion

/-- The signals that tell of a completion: whether it is a `break`, and what it returned. -/
def signals : Completion → Bool × Option Value
  | normal => (false, none)
  | broke => (true, none)
  | returned value => (false, some value)

/-- Is this not the normal completion? -/
def isAbrupt : Completion → Bool
  | normal => false
  | broke | returned _ => true

end Completion

/-- The scope with the signals of a completion in place of its own. -/
def Scope.raising (s : Scope) (c : Completion) : Scope :=
  { s with broke := c.signals.1, returned := c.signals.2 }

namespace Scope

variable {s : Scope}

/-- A scope without signals. -/
theorem unsignalled_iff : s.signalled = false ↔ s.broke = false ∧ s.returned = none := by
  unfold signalled
  rw [Bool.or_eq_false_iff, Option.isSome_eq_false_iff, Option.isNone_iff_eq_none]

/-- Nothing is raised by completing normally. -/
theorem raising_normal (h : s.signalled = false) : s.raising .normal = s := by
  obtain ⟨bindings, parent, broke, returned⟩ := s
  obtain ⟨hbroke, hreturned⟩ := unsignalled_iff.1 h
  cases hbroke
  cases hreturned
  rfl

/-- A scope is signalled by any other completion. -/
theorem signalled_raising (s : Scope) (c : Completion) :
    (s.raising c).signalled = c.isAbrupt := by
  cases c <;> rfl

end Scope

namespace Machine

/-- Is no signal up in a scope?  This holds of a scope that is gone. -/
def QuietAt (m : Machine) (id : ScopeId) : Prop :=
  ∀ s, m.heap.scopes.get? id = some s → s.signalled = false

/-- The machine on which a completion is raised in a scope. -/
def raiseAt (m : Machine) (id : ScopeId) (c : Completion) : Machine :=
  { m with heap := m.heap.modifyScope id (·.raising c) }

variable {m : Machine} {id other : ScopeId} {c : Completion}

/-- The same of the whole machine. -/
theorem raiseAt_normal (h : m.QuietAt id) : m.raiseAt id .normal = m := by
  have hscopes : m.heap.scopes.modify id (·.raising .normal) = m.heap.scopes := by
    rw [Arena.modify_congr fun s hget => Scope.raising_normal (h s hget)]
    exact Arena.modify_self m.heap.scopes id
  unfold raiseAt Heap.modifyScope
  rw [hscopes]

/-- Only the one scope is changed. -/
theorem get?_raiseAt (m : Machine) (id other : ScopeId) (c : Completion) :
    (m.raiseAt id c).heap.scopes.get? other =
      if other = id then (m.heap.scopes.get? id).map (·.raising c)
      else m.heap.scopes.get? other :=
  Arena.get?_modify m.heap.scopes id other (·.raising c)

theorem scope_of_get? {s : Scope} (h : m.heap.scopes.get? id = some s) :
    m.heap.scope id = .ok s := by
  rw [Heap.scope_eq_elim, h]
  rfl

/-- A scope is read with the signals that were raised in it. -/
theorem scope_raiseAt {s : Scope} (h : m.heap.scopes.get? id = some s) (c : Completion) :
    (m.raiseAt id c).heap.scope id = .ok (s.raising c) := by
  refine scope_of_get? ?_
  rw [get?_raiseAt, if_pos rfl, h]
  rfl

end Machine

namespace Eval

variable {m : Machine} {id : ScopeId} {s : Scope}

/-- Reading whether a signal is up tells whether the completion raised there is abrupt. -/
theorem signalled_raiseAt (h : m.heap.scopes.get? id = some s) (c : Completion) :
    Eval.read (fun heap => do return (← heap.scope id).signalled) (m.raiseAt id c) =
      .ok c.isAbrupt (m.raiseAt id c) := by
  unfold Eval.read
  dsimp only
  rw [Machine.scope_raiseAt h c]
  show EStateM.Result.ok (s.raising c).signalled _ = _
  rw [Scope.signalled_raising]

/-- What is raised is taken down again. -/
theorem lowerSignals_raiseAt (h : m.heap.scopes.get? id = some s) (hquiet : m.QuietAt id)
    (c : Completion) :
    Eval.store (Store.lowerSignals id) (m.raiseAt id c) = .ok c.signals m := by
  refine (Eval.store_change _ _ _ _).trans ?_
  rw [Machine.scope_raiseAt h c]
  -- a completion raised and taken down is the normal one raised
  have hscopes : (m.heap.scopes.modify id (·.raising c)).modify id Scope.withoutSignals =
      m.heap.scopes.modify id (·.raising .normal) := Arena.modify_modify ..
  have hnormal := Machine.raiseAt_normal hquiet
  unfold Machine.raiseAt Heap.modifyScope at hnormal ⊢
  show EStateM.Result.ok c.signals { m with heap := { m.heap with scopes := _ } } = _
  rw [hscopes, hnormal]

/-- Where no signal is up, a `break` raises one. -/
theorem setBroke_quiet (h : m.heap.scopes.get? id = some s) (hquiet : m.QuietAt id) :
    Eval.store (Store.setBroke id) m = .ok () (m.raiseAt id .broke) := by
  unfold Store.setBroke
  rw [Store.change_unit, Eval.store_change, Machine.scope_of_get? h]
  refine congrArg (fun scopes => EStateM.Result.ok ()
    { m with heap := { m.heap with scopes } }) (Arena.modify_congr fun t ht => ?_)
  obtain ⟨-, hreturned⟩ := Scope.unsignalled_iff.1 (hquiet t ht)
  show { t with broke := true } = { t with broke := true, returned := none }
  rw [hreturned]

/-- So does a `return`. -/
theorem setReturned_quiet (h : m.heap.scopes.get? id = some s) (hquiet : m.QuietAt id)
    (value : Value) :
    Eval.store (Store.setReturned id value) m = .ok () (m.raiseAt id (.returned value)) := by
  unfold Store.setReturned
  rw [Store.change_unit, Eval.store_change, Machine.scope_of_get? h]
  refine congrArg (fun scopes => EStateM.Result.ok ()
    { m with heap := { m.heap with scopes } }) (Arena.modify_congr fun t ht => ?_)
  obtain ⟨hbroke, -⟩ := Scope.unsignalled_iff.1 (hquiet t ht)
  show { t with returned := some value } = { t with broke := false, returned := some value }
  rw [hbroke]

end Eval

end Tao
