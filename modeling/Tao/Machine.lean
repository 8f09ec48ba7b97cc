/-
  The state of a run.

  A machine holds the heap, the scope that statements currently run in, and the sink for printed
  text.  What statements still under way need is held where a collection can find it: `frames` are
  the scopes to come back to and `held` the values computed since the statements began.

  `Eval` is the type of computations on a machine.  The combinators here give back, whether the
  computation inside fails or not, what they changed for its duration.
-/
import Tao.Fuel
import Tao.Heap.Collect
import Tao.Heap.Display
import Tao.Heap.Member
import Tao.Heap.Names
import Tao.Sink

namespace Tao

/-- The limits of a run and where it begins. -/
structure Config where
  /-- The deepest nesting of calls of functions that scripts define. -/
  maxCallDepth : Nat := 2000
  /-- The number of cells above which the first collection takes place. -/
  gcThreshold : Nat := 4096
  /-- The function that is called once the statements of a script have run. -/
  entryPoint : String := "main"
  deriving DecidableEq, Repr, Inhabited

/-- The state of a run. -/
structure Machine where
  heap : Heap
  /-- The active scope. -/
  scope : ScopeId
  /-- The outermost scope. -/
  root : ScopeId
  config : Config
  sink : Sink
  /-- The number of calls under way of functions that scripts define. -/
  depth : Nat
  /-- The scopes to come back to, innermost first. -/
  frames : List ScopeId
  /-- The values that statements under way have computed, last one first. -/
  held : List Value
  /-- The number of cells above which the next collection takes place. -/
  nextGc : Nat
  /-- The next stamp to be given out. -/
  stamps : Nat
  deriving Inhabited

/-- The machine before any script has run: the global object and the outermost scope are there. -/
def Machine.start (config : Config) (sink : Sink) : Machine :=
  let (heap, global) := Heap.empty.addGlobal
  let (heap, root) := heap.addScope (.outermost global)
  { heap, scope := root, root, config, sink, depth := 0, frames := [], held := [],
    nextGc := config.gcThreshold, stamps := 0 }

/-- Computations on a machine. -/
abbrev Eval := Fueled RuntimeError Machine

namespace Eval

/-! ## Parts of the machine -/

/-- Computes something from the heap without changing it. -/
@[inline] def read {α : Type} (f : Heap → Except RuntimeError α) : Eval α := fun m =>
  match f m.heap with
  | .ok a => .ok a m
  | .error e => .error (.failed e) m

/-- Runs a computation on the heap. -/
@[inline] def store {α : Type} (x : Store α) : Eval α := fun m =>
  match x m.heap with
  | .ok a heap => .ok a { m with heap }
  | .error e heap => .error (.failed e) { m with heap }

/-- Makes a cell. -/
@[inline] def make {α : Type} (f : Heap → Heap × α) : Eval α := fun m =>
  match f m.heap with
  | (heap, a) => .ok a { m with heap }

/-- Writes a text to the sink. -/
def write (text : String) : Eval Unit := fun m =>
  match Sink.write text m.sink with
  | .ok _ sink => .ok () { m with sink }
  | .error e sink => .error (.failed e) { m with sink }

/-- The active scope. -/
def activeScope : Eval ScopeId := fun m => .ok m.scope m

/-- A stamp that was never given out before. -/
def freshStamp : Eval Nat := fun m => .ok m.stamps { m with stamps := m.stamps + 1 }

/-- Is this value true? -/
def truthy (value : Value) : Eval Bool := read (·.truthy value)

/-- Makes a scope inside of `parent`. -/
def newScope (parent : ScopeId) : Eval ScopeId := make (·.addScope (.inside (some parent)))

/-! ## Values under way -/

/-- Keeps a value alive until the statement under way ends. -/
def keep (value : Value) : Eval Unit := fun m =>
  .ok () { m with held := value :: m.held }

/-- Runs `x` and keeps its value alive. -/
def kept (x : Eval Value) : Eval Value := do
  let value ← x
  keep value
  return value

/-- The values kept alive. -/
def held : Eval (List Value) := fun m => .ok m.held m

/-- Goes back to the values that were kept alive before. -/
def setHeld (held : List Value) : Eval Unit := fun m => .ok () { m with held }

/-- Runs `x` and lets go of the values it kept alive, even if it fails. -/
def lettingGo {α : Type} (x : Eval α) : Eval α := fun m =>
  let held := m.held
  match x m with
  | .ok a m => .ok a { m with held }
  | .error e m => .error e { m with held }

/-! ## Scopes and calls under way -/

/-- Runs `x` with `scope` as the active scope and comes back to the present one, even if it
    fails. -/
def within {α : Type} (scope : ScopeId) (x : Eval α) : Eval α := fun m =>
  let previous := m.scope
  let frames := m.frames
  match x { m with scope, frames := previous :: frames } with
  | .ok a m => .ok a { m with scope := previous, frames }
  | .error e m => .error e { m with scope := previous, frames }

/-- Runs `x` one call deeper, unless the calls under way are as many as are allowed; the depth is
    given back even if it fails. -/
def deeper {α : Type} (x : Eval α) : Eval α := fun m =>
  let depth := m.depth
  match x { m with depth := depth + 1 } with
  | .ok a m => .ok a { m with depth }
  | .error e m => .error e { m with depth }

/-! ## Garbage -/

/-- Collects garbage if the heap has outgrown its allowance, and sets the next one.  This happens
    between statements only: whatever is still needed is then in a scope to come back to or among
    the values kept alive. -/
def collectIfGrown : Eval Unit := fun m =>
  if m.heap.live ≤ m.nextGc then .ok () m
  else
    let (heap, _) := m.heap.collect (m.root :: m.scope :: m.frames) m.held
    let nextGc := max m.config.gcThreshold (heap.live * 2)
    .ok () { m with heap, nextGc }

end Eval

end Tao
