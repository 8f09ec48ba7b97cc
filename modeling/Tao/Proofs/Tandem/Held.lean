/-
  What is held is spared.

  1. **Specification** (`Machine.Spares`) — a cell that a held value refers to is there as long as
     the value is held, however often garbage is collected in the meantime.

  2. **The crux** — a loop lets go of values by going back to a mark, and of a mark alone nothing is
     known.  So a run is compared with one that holds nothing in the beginning, and whose collector
     gets the values as additional roots (`Eval.collectAlso`).  The two go in tandem; in the second
     one the cells are spared wherever a loop goes back to.

  Nothing is assumed of the other values that a machine holds or of the rest of its heap: handles in
  there may well be stale.
-/
import Tao.Proofs.Tandem.Run

namespace Tao

/-- Collects garbage as usual, but with more values as roots. -/
def Eval.collectAlso (below : List Value) : Eval Unit := fun m =>
  if m.heap.live ≤ m.nextGc then .ok () m
  else
    let (heap, _) := m.heap.collect (m.root :: m.scope :: m.frames) (m.held ++ below)
    let nextGc := max m.config.gcThreshold (heap.live * 2)
    .ok () { m with heap, nextGc }

/-- The heap of a later machine is well formed, and the cells that the held values of an earlier one
    refer to are still there. -/
structure Machine.Spares (m later : Machine) : Prop where
  wellFormed : later.heap.WellFormed
  there : ∀ value ∈ m.held, ∀ node, value.RefersTo node → m.heap.Resolves node →
    later.heap.Resolves node

namespace Tandem

/-- The left run holds the values `below` beneath whatever the right one holds, and these nodes are
    there. -/
def rooting (below : List Value) (nodes : Node → Prop) : Tandem where
  Meets m m' := m = { m' with held := m'.held ++ below } ∧ m'.heap.WellFormed ∧
    ∀ node, nodes node → m'.heap.Resolves node
  HeldAlike us vs := us = vs ++ below
  Matches halt halt' := halt = halt'
  excuses _ := False
  Ahead _ _ := True
  lasting := False
  Fits _ _ := True

variable {below : List Value} {nodes : Node → Prop} {here : Option ScopeId} {α : Type}
  {x y : Eval α} {m : Machine}

/-- More roots change nothing that a run can see, apart from what its collector leaves. -/
theorem lawful_rooting : (rooting below nodes).Lawful where
  heap := by
    rintro _ m ⟨rfl, -⟩
    rfl
  root := by
    rintro _ m ⟨rfl, -⟩
    rfl
  entryPoint := by
    rintro _ m ⟨rfl, -⟩
    rfl
  stamps := by
    rintro _ m ⟨rfl, -⟩
    rfl
  -- a change of the heap frees nothing, so the nodes are still there
  setHeap := by
    rintro _ m heap ⟨rfl, hwf, hthere⟩ hextends
    obtain ⟨hafter, -, hkept⟩ := hextends hwf
    exact ⟨rfl, hafter, fun node hnode => hkept node (hthere node hnode)⟩
  stamped := by
    rintro _ m ⟨rfl, hheap⟩
    exact ⟨rfl, hheap⟩
  heldTotal vs := ⟨vs ++ below, rfl⟩
  heldCons h u := congrArg (u :: ·) h
  held hm := congrArg Machine.held hm.1
  setHeld := by
    rintro _ m _ vs rfl ⟨rfl, hheap⟩
    exact ⟨rfl, hheap⟩
  enter := by
    rintro _ m ⟨rfl, hheap⟩ scope
    exact ⟨rfl, hheap⟩
  leave := by
    rintro _ m _ n ⟨rfl, -⟩ ⟨rfl, hheap⟩
    exact ⟨rfl, hheap⟩
  deepen := by
    rintro _ m ⟨rfl, hheap⟩
    exact ⟨rfl, hheap⟩
  surface := by
    rintro _ m _ n ⟨rfl, -⟩ ⟨rfl, hheap⟩
    exact ⟨rfl, hheap⟩
  checkDepth := .checkDepth (fun hm => by rw [hm.1]) (fun hm => by rw [hm.1]) fun _ => rfl
  fitsLater _ _ := trivial
  fitsInside _ := trivial
  ordinary _ := rfl
  outOfFuel _ _ := trivial

theorem goes_write_rooting (text : String) :
    (rooting below nodes).Goes here (Eval.write text) (Eval.write text) := by
  refine .write (fun hm => by rw [hm.1]) ?_ rfl fun _ _ _ => trivial
  rintro _ m sink ⟨rfl, hheap⟩ -
  exact ⟨rfl, hheap⟩

/-- Both collectors get the same roots, and nodes that those refer to are spared. -/
theorem goes_collect_rooting
    (hnodes : ∀ node, nodes node → ∃ value ∈ below, value.RefersTo node) :
    (rooting below nodes).Goes here Eval.collectIfGrown (Eval.collectAlso below) := by
  refine ⟨?_, fun _ _ _ => trivial⟩
  rintro _ m ⟨rfl, hwf, hthere⟩ -
  unfold Eval.collectIfGrown Eval.collectAlso
  dsimp only
  by_cases hsmall : m.heap.live ≤ m.nextGc
  · rw [if_pos hsmall, if_pos hsmall]
    exact .ok ⟨rfl, hwf, hthere⟩ .refl
  · rw [if_neg hsmall, if_neg hsmall]
    refine .ok ⟨rfl, hwf.collected _ _, fun node hnode => ?_⟩ ⟨rfl, rfl, False.elim⟩
    obtain ⟨value, hvalue, hrefers⟩ := hnodes node hnode
    apply Heap.resolves_collected
    exact .value (List.mem_append_right _ hvalue) hrefers (hthere node hnode)

/-- All other parts go together, level by level. -/
theorem runs_rooting (hnodes : ∀ node, nodes node → ∃ value ∈ below, value.RefersTo node)
    (n : Nat) : (rooting below nodes).Runs (Evaluator.ofFuel n)
      (Evaluator.watched (.doing (Eval.collectAlso below) Eval.write) n) := by
  rw [← Evaluator.watched_doing_usual]
  exact runs_doing lawful_rooting (fun _ _ => trivial) (fun _ => goes_collect_rooting hnodes)
    goes_write_rooting (.inl ⟨rfl, rfl⟩)

/-- The nodes that a machine has to spare. -/
def spared (m : Machine) (node : Node) : Prop :=
  (∃ value ∈ m.held, value.RefersTo node) ∧ m.heap.Resolves node

/-- A run that goes with one that holds nothing in the beginning spares what it held itself. -/
theorem spares_of_goes (hwf : m.heap.WellFormed)
    (h : (rooting m.held (spared m)).Goes (some m.scope) x y) : m.Spares (x.reached m) := by
  have hends := h.together m { m with held := [] } ⟨rfl, hwf, fun _ hnode => hnode.2⟩ (by
    rintro _ ⟨⟩
    exact ⟨rfl, rfl, trivial⟩)
  have hmeets : ∀ {later later'}, (rooting m.held (spared m)).Meets later later' →
      m.Spares later := by
    rintro _ later' ⟨rfl, hwf', hthere⟩
    refine ⟨hwf', fun value hvalue node hrefers hnode => ?_⟩
    exact hthere node ⟨⟨value, hvalue, hrefers⟩, hnode⟩
  unfold Eval.reached
  generalize x m = r at hends
  generalize y { m with held := [] } = s at hends
  cases hends with
  | ok meets _ => exact hmeets meets
  | error _ meets => exact hmeets meets
  | stopped excused _ => exact excused.elim

end Tandem

namespace Evaluator

variable {m : Machine}

/-- The values held now may be the additional roots. -/
theorem runs_spared (m : Machine) (n : Nat) :
    (Tandem.rooting m.held (Tandem.spared m)).Runs (ofFuel n)
      (watched (.doing (Eval.collectAlso m.held) Eval.write) n) :=
  Tandem.runs_rooting (fun _ hnode => hnode.1) n

/-- A call spares what is held where it is made. -/
theorem spares_call (hwf : m.heap.WellFormed) (n : Nat) (callee : Value) (arguments : List Value) :
    m.Spares (((ofFuel n).call callee arguments).reached m) :=
  Tandem.spares_of_goes hwf ((runs_spared m n).call callee arguments).anywhere

/-- The same of evaluating an expression. -/
theorem spares_evaluate (hwf : m.heap.WellFormed) (n : Nat) (e : Expression) :
    m.Spares (((ofFuel n).evaluate e).reached m) :=
  Tandem.spares_of_goes hwf ((runs_spared m n).evaluate m.scope e)

/-- The same of evaluating several, one after another. -/
theorem spares_evaluateAll (hwf : m.heap.WellFormed) (n : Nat) (es : List Expression) :
    m.Spares ((es.mapM (ofFuel n).evaluate).reached m) :=
  Tandem.spares_of_goes hwf ((runs_spared m n).evaluateAll Tandem.lawful_rooting es)

end Evaluator

end Tao
