/-
  What a computation on the heap never does.

  It never fails because a limit was reached, neither that on calls nor that of the sink: such
  errors come from elsewhere, so every error of the heap is ORDINARY.  And it never loses a cell
  nor puts a scope elsewhere: the heap that it leaves EXTENDS the one that it found.  Bindings and
  signals of a scope change, its parent does not.
-/
import Tao.Proofs.Evaluator.Params
import Tao.Proofs.Heap.Cells
import Tao.Proofs.Lockstep.Display

namespace Tao

/-! ## Errors -/

/-- Neither the limit on calls nor the sink is the reason. -/
def RuntimeError.IsOrdinary (e : RuntimeError) : Prop :=
  e.category ≠ .recursion ∧ e.category ≠ .io

/-- A computation that fails by ordinary errors only. -/
def Ordinary {α : Type} (x : Except RuntimeError α) : Prop := ∀ e, x = .error e → e.IsOrdinary

variable {α β : Type}

namespace Ordinary

theorem ok (a : α) : Ordinary (.ok a) := nofun

theorem error {e : RuntimeError} (he : e.IsOrdinary) : Ordinary (.error e : Except _ α) := by
  rintro _ ⟨⟩
  exact he

theorem bind {x : Except RuntimeError α} {f : α → Except RuntimeError β} (hx : Ordinary x)
    (hf : ∀ a, Ordinary (f a)) : Ordinary (x >>= f) := by
  cases x with
  | error e => exact error (hx e rfl)
  | ok a => exact hf a

theorem map {x : Except RuntimeError α} (hx : Ordinary x) (f : α → β) :
    Ordinary (do return f (← x)) :=
  hx.bind fun _ => ok _

/-- For each in turn.  Induction on the items. -/
theorem mapM {f : α → Except RuntimeError β} (items : List α) (hf : ∀ item, Ordinary (f item)) :
    Ordinary (items.mapM f) := by
  induction items with
  | nil => exact ok _
  | cons item rest ih =>
    rw [List.mapM_cons]
    exact (hf item).bind fun _ => ih.bind fun _ => ok _

end Ordinary

/-! ## Reading -/

namespace Heap

variable (heap : Heap)

/-- A stale handle is an ordinary error. -/
theorem ordinary_scope (id : ScopeId) : Ordinary (heap.scope id) := by
  unfold scope
  split
  · exact .ok _
  · exact .error ⟨nofun, nofun⟩

theorem ordinary_object (id : ObjectId) : Ordinary (heap.object id) := by
  unfold object
  split
  · exact .ok _
  · exact .error ⟨nofun, nofun⟩

theorem ordinary_array (id : ArrayId) : Ordinary (heap.array id) := by
  unfold array
  split
  · exact .ok _
  · exact .error ⟨nofun, nofun⟩

/-- What looks at a value meets ordinary errors only. -/
theorem ordinary_truthy (value : Value) : Ordinary (heap.truthy value) := by
  unfold truthy
  split
  case h_5 id => exact (heap.ordinary_object id).map _
  case h_6 id => exact (heap.ordinary_array id).map _
  all_goals exact .ok _

theorem ordinary_valueOf (id : ScopeId) (name : String) : Ordinary (heap.valueOf id name) := by
  have hglobal : ∀ outermost, Ordinary (heap.globalProp outermost name) := by
    intro outermost
    unfold globalProp
    split
    · exact (heap.ordinary_object _).map _
    · exact .error ⟨nofun, nofun⟩
    · exact .ok _
  have hlookup : Ordinary (heap.lookup id name) := by
    unfold lookup
    split
    · exact .ok _
    · exact hglobal _
    · exact .error ⟨nofun, nofun⟩
    · exact .ok _
  refine hlookup.bind fun value => ?_
  cases value with
  | some value => exact .ok value
  | none => exact .error ⟨nofun, nofun⟩

theorem ordinary_memberOfArray (stamp : Nat) (id : ArrayId) (key : String) :
    Ordinary (heap.memberOfArray stamp id key) := by
  refine (heap.ordinary_array id).bind fun cell => ?_
  split
  · exact .ok _
  · split
    · exact .ok _
    · exact .ok _

/-- Induction on the containers that are still closed. -/
theorem ordinary_displayIn (opened : List Container) (value : Value) :
    Ordinary (heap.displayIn opened value) := by
  induction hn : heap.closed opened using Nat.strongRecOn generalizing opened value with
  | ind n ih =>
  subst hn
  cases value with
  | array id =>
    by_cases hopen : .array id ∈ opened
    · rw [displayIn_array_of_mem hopen]
      exact .ok _
    · rw [displayIn_array hopen]
      cases hcell : heap.array id with
      | error e => exact .error (heap.ordinary_array id e hcell)
      | ok cell =>
        have hless := closed_cons (array_mem_containers hcell) hopen
        exact (Ordinary.mapM _ fun element => ih _ hless _ element rfl).map _
  | object id =>
    by_cases hopen : .object id ∈ opened
    · rw [displayIn_object_of_mem hopen]
      exact .ok _
    · rw [displayIn_object hopen]
      cases hcell : heap.object id with
      | error e => exact .error (heap.ordinary_object id e hcell)
      | ok cell =>
        have hless := closed_cons (object_mem_containers hcell) hopen
        exact (Ordinary.mapM _ fun (_, part) => (ih _ hless _ part rfl).map _).map _
  | _ =>
    rw [displayIn]
    exact .ok _

/-- Nor does displaying, which has no limit of its own. -/
theorem ordinary_display (value : Value) : Ordinary (heap.display value) :=
  heap.ordinary_displayIn [] value

end Heap

/-- An index that is out of range is an ordinary error. -/
theorem ArrayCell.ordinary_place (cell : ArrayCell) (index : Int64) :
    Ordinary (cell.place index) := by
  unfold ArrayCell.place
  split
  · exact .error ⟨nofun, nofun⟩
  · exact .ok _

theorem ArrayCell.ordinary_get (cell : ArrayCell) (index : Int64) : Ordinary (cell.get index) :=
  (cell.ordinary_place index).map _

/-- Defining a name that is bound already is an ordinary error. -/
theorem Scope.ordinary_define (scope : Scope) (name : String) (value : Value) :
    Ordinary (scope.define name value) := by
  unfold Scope.define
  split
  · exact .error ⟨nofun, nofun⟩
  · exact .ok _

theorem ordinary_charAt (text : String) (index : Int64) : Ordinary (charAt text index) := by
  unfold charAt
  split
  · exact .ok _
  · exact .error ⟨nofun, nofun⟩

/-- A size that is none is an ordinary error. -/
theorem ordinary_arraySize (arguments : List Value) : Ordinary (arraySize arguments) := by
  unfold arraySize
  split
  · exact .ok _
  · split
    · exact .error ⟨nofun, nofun⟩
    · split
      · exact .ok _
      · exact .error ⟨nofun, nofun⟩
  · exact .error ⟨nofun, nofun⟩

/-! ## Operators -/

/-- Operators fail by the types of their operands. -/
theorem ordinary_applyUnary (operator : Kind) (operand : Value) :
    Ordinary (applyUnary operator operand) := by
  unfold applyUnary
  split
  · split <;> first | exact .ok _ | exact .error ⟨nofun, nofun⟩
  · exact .error ⟨nofun, nofun⟩

/-- On numbers they fail because of a divisor or a shift. -/
theorem ordinary_applyToNumbers (operator : Kind) (l r : Int64) :
    Ordinary (applyToNumbers operator l r) := by
  have hleft : Ordinary (shiftLeft l r) := by
    unfold shiftLeft
    split
    · exact .error ⟨nofun, nofun⟩
    · split <;> exact .ok _
  have hright : Ordinary (shiftRight l r) := by
    unfold shiftRight
    split
    · exact .error ⟨nofun, nofun⟩
    · split <;> exact .ok _
  unfold applyToNumbers
  split
  case h_7 => exact hleft.map _
  case h_8 => exact hright.map _
  all_goals first
    | exact .ok _
    | exact .error ⟨nofun, nofun⟩
    | (split <;> first | exact .ok _ | exact .error ⟨nofun, nofun⟩)

theorem ordinary_applyBinary (operator : Kind) (left right : Value) :
    Ordinary (applyBinary operator left right) := by
  unfold applyBinary
  split
  · exact ordinary_applyToNumbers operator _ _
  · split <;> first | exact .ok _ | exact .error ⟨nofun, nofun⟩
  · split <;> first | exact .ok _ | exact .error ⟨nofun, nofun⟩
  · split <;> first | exact .ok _ | exact .error ⟨nofun, nofun⟩
  · exact .error ⟨nofun, nofun⟩

/-! ## Calls -/

namespace Evaluator

/-- Too few arguments are an ordinary error. -/
theorem ordinary_bindParams (scope : Scope) (params : List String) (arguments : List Value) :
    Ordinary (bindParams scope params arguments) := by
  induction params generalizing scope arguments with
  | nil => exact .ok _
  | cons param params ih =>
    obtain ⟨value, rest, hrest⟩ := bindParams_cons scope param params arguments
    rw [hrest]
    exact (scope.ordinary_define param value).bind fun next => ih next rest

theorem ordinary_lengthOf (heap : Heap) (arguments : List Value) :
    Ordinary (lengthOf heap arguments) := by
  unfold lengthOf
  split
  · exact .ok _
  · exact (heap.ordinary_array _).map _
  · exact (heap.ordinary_object _).map _
  · exact .error ⟨nofun, nofun⟩
  · exact .error ⟨nofun, nofun⟩

/-- An argument that is no function is an ordinary error. -/
theorem ordinary_functionArgument (method : ArrayMethod) (arguments : List Value) :
    Ordinary (functionArgument method arguments) := by
  unfold functionArgument
  split
  · exact .ok _
  · exact .ok _
  · exact .error ⟨nofun, nofun⟩
  · exact .error ⟨nofun, nofun⟩

/-- So is an array that is no longer there. -/
theorem ordinary_elementNow (array : ArrayId) (place : Nat) (heap : Heap) :
    Ordinary (elementNow array place heap) :=
  (heap.ordinary_array array).map _

end Evaluator

/-! ## Cells that stay -/

/-- Every scope of the one heap is in the other and has the same parent there, and objects and
    arrays are in the other, too.  This is said of well-formed heaps, and the other one is well
    formed, too. -/
def Heap.Extends (before after : Heap) : Prop :=
  before.WellFormed → after.WellFormed ∧
    (∀ id scope, before.scopes.get? id = some scope →
      ∃ later, after.scopes.get? id = some later ∧ later.parent = scope.parent) ∧
    ∀ node, before.Resolves node → after.Resolves node

namespace Heap.Extends

variable {before heap after : Heap}

theorem refl (heap : Heap) : heap.Extends heap := fun h =>
  ⟨h, fun _ scope hscope => ⟨scope, hscope, rfl⟩, fun _ hthere => hthere⟩

theorem trans (h : before.Extends heap) (h' : heap.Extends after) : before.Extends after := by
  intro hbefore
  obtain ⟨hheap, hkeeps, hthere⟩ := h hbefore
  obtain ⟨hafter, hkeeps', hthere'⟩ := h' hheap
  refine ⟨hafter, fun id scope hscope => ?_, fun node hnode => hthere' node (hthere node hnode)⟩
  obtain ⟨later, hlater, hparent⟩ := hkeeps id scope hscope
  obtain ⟨last, hlast, hparent'⟩ := hkeeps' id later hlater
  exact ⟨last, hlast, hparent'.trans hparent⟩

/-- A new cell takes a slot of its own. -/
theorem addScope (heap : Heap) (scope : Scope) : heap.Extends (heap.addScope scope).1 := by
  intro hheap
  refine ⟨hheap.addScope scope, fun id old hold => ⟨old, ?_, rfl⟩,
    fun _ hnode => (resolves_addScope hheap scope).2 (.inr hnode)⟩
  have hnew : heap.scopes.get? (heap.addScope scope).2 = none := Arena.get?_new hheap.scopes scope
  rw [get?_addScope hheap, if_neg, hold]
  rintro rfl
  rw [hnew] at hold
  cases hold

theorem addObject (heap : Heap) (cell : ObjectCell) : heap.Extends (heap.addObject cell).1 :=
  fun hheap => ⟨hheap.addObject cell, fun _ scope hscope => ⟨scope, hscope, rfl⟩,
    fun _ hnode => (resolves_addObject hheap cell).2 (.inr hnode)⟩

theorem addArray (heap : Heap) (cell : ArrayCell) : heap.Extends (heap.addArray cell).1 :=
  fun hheap => ⟨hheap.addArray cell, fun _ scope hscope => ⟨scope, hscope, rfl⟩,
    fun _ hnode => (resolves_addArray hheap cell).2 (.inr hnode)⟩

/-- A scope may be changed in all but its parent. -/
theorem modifyScope (heap : Heap) (id : ScopeId) {f : Scope → Scope}
    (hf : ∀ scope, (f scope).parent = scope.parent) : heap.Extends (heap.modifyScope id f) := by
  intro hheap
  refine ⟨hheap.modifyScope id f, fun other scope hscope => ?_,
    fun _ hnode => resolves_modifyScope.2 hnode⟩
  show ∃ later, (heap.scopes.modify id f).get? other = some later ∧ _
  rw [Arena.get?_modify]
  by_cases hother : other = id
  · subst hother
    rw [if_pos rfl, hscope]
    exact ⟨f scope, rfl, hf scope⟩
  · rw [if_neg hother]
    exact ⟨scope, hscope, rfl⟩

theorem modifyObject (heap : Heap) (id : ObjectId) (f : ObjectCell → ObjectCell) :
    heap.Extends (heap.modifyObject id f) :=
  fun hheap => ⟨hheap.modifyObject id f, fun _ scope hscope => ⟨scope, hscope, rfl⟩,
    fun _ hnode => resolves_modifyObject.2 hnode⟩

theorem modifyArray (heap : Heap) (id : ArrayId) (f : ArrayCell → ArrayCell) :
    heap.Extends (heap.modifyArray id f) :=
  fun hheap => ⟨hheap.modifyArray id f, fun _ scope hscope => ⟨scope, hscope, rfl⟩,
    fun _ hnode => resolves_modifyArray.2 hnode⟩

end Heap.Extends

/-! ## Stores -/

/-- A change of the heap that only extends it and fails by ordinary errors only. -/
def Store.IsSteady (x : Store α) : Prop := ∀ heap,
  match x heap with
  | .ok _ after => heap.Extends after
  | .error e after => heap.Extends after ∧ e.IsOrdinary

namespace Store

/-- All checked changes look first and change then. -/
theorem isSteady_afterRead {f : Heap → Except RuntimeError α} {g : α → Store β}
    (hf : ∀ heap, Ordinary (f heap))
    (hg : ∀ a heap, ∃ b after, g a heap = .ok b after ∧ heap.Extends after) :
    IsSteady (read f >>= g) := by
  intro heap
  show match EStateM.bind (read f) g heap with
    | .ok _ after => heap.Extends after
    | .error e after => heap.Extends after ∧ e.IsOrdinary
  unfold EStateM.bind read
  cases hread : f heap with
  | error e => exact ⟨.refl heap, hf heap e hread⟩
  | ok a =>
    obtain ⟨b, after, heq, hafter⟩ := hg a heap
    dsimp only
    rw [heq]
    exact hafter

/-- Each store reads a cell and then changes one, or fails before it does. -/
theorem isSteady_putProp (id : ObjectId) (key : String) (value : Value) :
    IsSteady (putProp id key value) :=
  isSteady_afterRead (fun heap => heap.ordinary_object id)
    fun _ heap => ⟨_, _, rfl, .modifyObject heap id _⟩

theorem isSteady_setElement (id : ArrayId) (index : Int64) (value : Value) :
    IsSteady (setElement id index value) :=
  isSteady_afterRead
    (fun heap => (heap.ordinary_array id).bind fun cell => cell.ordinary_place index)
    fun _ heap => ⟨_, _, rfl, .modifyArray heap id _⟩

theorem isSteady_putArrayProp (id : ArrayId) (key : String) (value : Value) :
    IsSteady (putArrayProp id key value) :=
  isSteady_afterRead (fun heap => heap.ordinary_array id)
    fun _ heap => ⟨_, _, rfl, .modifyArray heap id _⟩

theorem isSteady_pushElements (id : ArrayId) (values : List Value) :
    IsSteady (pushElements id values) :=
  isSteady_afterRead (fun heap => (heap.ordinary_array id).map _)
    fun _ heap => ⟨_, _, rfl, .modifyArray heap id _⟩

theorem isSteady_popElement (id : ArrayId) : IsSteady (popElement id) :=
  isSteady_afterRead (fun heap => (heap.ordinary_array id).map _)
    fun _ heap => ⟨_, _, rfl, .modifyArray heap id _⟩

theorem isSteady_setReturned (id : ScopeId) (value : Value) : IsSteady (setReturned id value) :=
  isSteady_afterRead (fun heap => heap.ordinary_scope id)
    fun _ heap => ⟨_, _, rfl, .modifyScope heap id fun _ => rfl⟩

theorem isSteady_setBroke (id : ScopeId) : IsSteady (setBroke id) :=
  isSteady_afterRead (fun heap => heap.ordinary_scope id)
    fun _ heap => ⟨_, _, rfl, .modifyScope heap id fun _ => rfl⟩

theorem isSteady_lowerSignals (id : ScopeId) : IsSteady (lowerSignals id) :=
  isSteady_afterRead (fun heap => (heap.ordinary_scope id).map _)
    fun _ heap => ⟨_, _, rfl, .modifyScope heap id fun _ => rfl⟩

theorem isSteady_define (id : ScopeId) (name : String) (value : Value) :
    IsSteady (define id name value) :=
  isSteady_afterRead
    (fun heap => (heap.ordinary_scope id).bind fun scope => scope.ordinary_define name value)
    fun _ heap => ⟨_, _, rfl, .modifyScope heap id fun _ => rfl⟩

/-- A name is assigned in the scope that binds it. -/
theorem isSteady_assign (id : ScopeId) (name : String) (value : Value) :
    IsSteady (assign id name value) := by
  refine isSteady_afterRead (fun heap => ?_)
    fun owner heap => ⟨_, _, rfl, .modifyScope heap owner fun _ => rfl⟩
  unfold assignmentOwner
  split
  · exact .ok _
  · exact .error ⟨nofun, nofun⟩
  · exact .error ⟨nofun, nofun⟩
  · exact .error ⟨nofun, nofun⟩

end Store

end Tao
