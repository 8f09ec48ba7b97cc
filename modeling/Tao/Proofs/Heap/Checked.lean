/-
  Checked changes.

  Every checked change of the heap reads something, then changes one cell and gives a result that
  depends on what was read; `Store.change` is that pattern.  Where the check fails the heap is as it
  was.
-/
import Tao.Heap.Basic
import Tao.Proofs.Sequence

namespace Tao

namespace Store

variable {α β : Type}

/-- Reads, changes the heap, and gives a result. -/
def change (f : Heap → Except RuntimeError α) (g : α → Heap → Heap) (h : α → β) : Store β := do
  let a ← read f
  modify (g a)
  return h a

theorem read_apply (f : Heap → Except RuntimeError α) (heap : Heap) :
    read f heap = match f heap with
      | .ok a => .ok a heap
      | .error e => .error e heap := rfl

/-- A checked change reads, and goes on only if there is something to read. -/
theorem change_apply (f : Heap → Except RuntimeError α) (g : α → Heap → Heap) (h : α → β)
    (heap : Heap) : change f g h heap = match f heap with
      | .ok a => .ok (h a) (g a heap)
      | .error e => .error e heap := by
  unfold change
  rw [EStateM.bind_apply, read_apply]
  cases f heap <;> rfl

/-- The same without a result. -/
theorem change_unit (f : Heap → Except RuntimeError α) (g : α → Heap → Heap) :
    (do let a ← read f; modify (g a)) = change f g fun _ => () := by
  funext heap
  unfold change
  rw [EStateM.bind_apply, EStateM.bind_apply, read_apply]
  cases f heap <;> rfl

/-- The heap that a checked change comes to, whether it fails or not. -/
def after (x : Store Unit) (heap : Heap) : Heap :=
  match x heap with
  | .ok _ after => after
  | .error _ after => after

/-- The heap after a change that was made. -/
theorem after_of_ok {x : Store Unit} {heap next : Heap} (h : x heap = .ok () next) :
    x.after heap = next := by
  unfold after
  rw [h]

/-- The heap after a change that failed. -/
theorem after_of_error {x : Store Unit} {heap next : Heap} {e : RuntimeError}
    (h : x heap = .error e next) : x.after heap = next := by
  unfold after
  rw [h]

/-! ## A check, and then a change -/

variable {f : Heap → Except RuntimeError α} {g : α → Heap → Heap} {heap : Heap} {a : α}
  {e : RuntimeError}

/-- Where the check gives something, the change is made. -/
theorem change_of_check_ok (h : f heap = .ok a) :
    (read f >>= fun a => modify (g a) : Store Unit) heap = .ok () (g a heap) := by
  rw [EStateM.bind_apply, read_apply, h]
  rfl

/-- Where the check fails, the heap is as it was. -/
theorem no_change_of_check_error (h : f heap = .error e) :
    (read f >>= fun a => modify (g a) : Store Unit) heap = .error e heap := by
  rw [EStateM.bind_apply, read_apply, h]

/-- A change was made only if the check gave something. -/
theorem check_of_change_ok {next : Heap}
    (h : (read f >>= fun a => modify (g a) : Store Unit) heap = .ok () next) :
    ∃ a, f heap = .ok a := by
  cases hcheck : f heap with
  | ok a => exact ⟨a, rfl⟩
  | error e => cases (no_change_of_check_error hcheck).symm.trans h

/-- All that can fail is the check. -/
theorem check_of_change_error {next : Heap}
    (h : (read f >>= fun a => modify (g a) : Store Unit) heap = .error e next) :
    f heap = .error e := by
  cases hcheck : f heap with
  | ok a => cases (change_of_check_ok hcheck).symm.trans h
  | error e' =>
    cases (no_change_of_check_error hcheck).symm.trans h
    rfl

/-- Either way the heap is as it was, or as one change makes it. -/
theorem after_check (f : Heap → Except RuntimeError α) (g : α → Heap → Heap) (heap : Heap) :
    (read f >>= fun a => modify (g a) : Store Unit).after heap = heap ∨
      ∃ a, (read f >>= fun a => modify (g a) : Store Unit).after heap = g a heap := by
  cases hcheck : f heap with
  | error e => exact .inl (after_of_error (no_change_of_check_error hcheck))
  | ok a => exact .inr ⟨a, after_of_ok (change_of_check_ok hcheck)⟩

end Store

end Tao
