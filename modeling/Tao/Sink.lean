/-
  Where printed text goes.

  A sink takes whole writes.  It may have a limit on the bytes it holds: a write that would exceed
  it is refused and leaves the sink as it was.
-/
import Tao.RuntimeError

namespace Tao

/-- What was written so far, the limit on its bytes, and whether a flush fails. -/
structure Sink where
  written : String
  limit : Option Nat
  failsFlush : Bool
  deriving DecidableEq, Repr, Inhabited

namespace Sink

/-- An empty sink without limit that flushes well. -/
def unlimited : Sink := ⟨"", none, false⟩

/-- Does a text still fit in? -/
def fits (sink : Sink) (text : String) : Bool :=
  match sink.limit with
  | some limit => sink.written.utf8ByteSize + text.utf8ByteSize ≤ limit
  | none => true

/-- Writes a text as a whole.  The empty text is not written at all, so it always fits. -/
def write (text : String) : EStateM RuntimeError Sink Unit := fun sink =>
  if text.isEmpty then .ok () sink
  else if sink.fits text then .ok () { sink with written := sink.written ++ text }
  else .error .sinkFull sink

/-- The sink with what was written taken out. -/
def emptied (sink : Sink) : Sink := { sink with written := "" }

end Sink

end Tao
