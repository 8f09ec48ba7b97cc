/-
  Texts of values in lockstep.

  Alike values have the same text: containers are told apart by their handles only where an open one
  is met again, and what is paired is open on the left if and only if it is on the right.  The
  induction is the one by which the text of a value ends: on the containers that are still closed.
-/
import Tao.Proofs.Heap.Shown
import Tao.Proofs.Lockstep.Laws

namespace Tao

/-- Are two containers paired? -/
inductive Container.Alike (p : Pairing) : Container → Container → Prop where
  | object {a b : ObjectId} (paired : p.object a b) : Alike p (.object a) (.object b)
  | array {a b : ArrayId} (paired : p.array a b) : Alike p (.array a) (.array b)

namespace Regime

variable {R : Regime} {j : Joint} {u v : Value}

/-- Two pairs of containers have the same left one if and only if they have the same right one. -/
theorem container_eq_iff (hR : R.Lawful) (hs : R.Sound j) {c c' d d' : Container}
    (h : Container.Alike j.pairing c d) (h' : Container.Alike j.pairing c' d') :
    c = c' ↔ d = d' := by
  cases h with
  | object hab =>
    cases h' with
    | object hab' =>
      rw [Container.object.injEq, Container.object.injEq]
      exact hR.objectUnique hs hab hab'
    | array _ => exact ⟨nofun, nofun⟩
  | array hab =>
    cases h' with
    | object _ => exact ⟨nofun, nofun⟩
    | array hab' =>
      rw [Container.array.injEq, Container.array.injEq]
      exact hR.arrayUnique hs hab hab'

/-- What is paired is open on the left if and only if it is on the right.  Induction on what was
    opened. -/
theorem mem_opened_iff (hR : R.Lawful) (hs : R.Sound j) {c d : Container} {cs ds : List Container}
    (hopened : List.Forall₂ (Container.Alike j.pairing) cs ds)
    (h : Container.Alike j.pairing c d) : c ∈ cs ↔ d ∈ ds := by
  induction hopened with
  | nil => exact ⟨fun h => absurd h List.not_mem_nil, fun h => absurd h List.not_mem_nil⟩
  | cons hhead _ ih => rw [List.mem_cons, List.mem_cons, ih, container_eq_iff hR hs h hhead]

/-- Values that are alike have the same text inside of containers that are.  Strong induction on the
    containers that are closed. -/
theorem Reads.displayIn (hR : R.Lawful) (hs : R.Sound j) {cs ds : List Container}
    (hopened : List.Forall₂ (Container.Alike j.pairing) cs ds) (huv : R.Alike j u v) :
    R.Reads Eq (j.left.heap.displayIn cs u) (j.right.heap.displayIn ds v) := by
  induction hn : j.left.heap.closed cs using Nat.strongRecOn generalizing cs ds u v with
  | ind n ih =>
  subst hn
  cases huv with
  | @array a b hab =>
    -- the container is open on both sides or on neither
    have hmem := mem_opened_iff hR hs hopened (.array hab)
    by_cases hopen : .array a ∈ cs
    · rw [Heap.displayIn_array_of_mem hopen, Heap.displayIn_array_of_mem (hmem.1 hopen)]
      exact .ok rfl
    · rw [Heap.displayIn_array hopen, Heap.displayIn_array fun h => hopen (hmem.2 h)]
      refine (hR.array hs hab).withLeft.bind fun c d ⟨hleft, hcd⟩ => ?_
      refine (Reads.mapM_eq hcd.elements fun x y hxy => ?_).map fun xs ys h => ?_
      · exact ih _ (Heap.closed_cons (Heap.array_mem_containers hleft) hopen)
          (.cons (.array hab) hopened) hxy rfl
      · rw [h]
  | @object a b hab =>
    have hmem := mem_opened_iff hR hs hopened (.object hab)
    by_cases hopen : .object a ∈ cs
    · rw [Heap.displayIn_object_of_mem hopen, Heap.displayIn_object_of_mem (hmem.1 hopen)]
      exact .ok rfl
    · rw [Heap.displayIn_object hopen, Heap.displayIn_object fun h => hopen (hmem.2 h)]
      refine (hR.object hs hab).withLeft.bind fun c d ⟨hleft, hcd⟩ => ?_
      refine (Reads.mapM_eq hcd fun x y hxy => ?_).map fun xs ys h => ?_
      · have hpart := ih _ (Heap.closed_cons (Heap.object_mem_containers hleft) hopen)
          (.cons (.object hab) hopened) hxy.2 rfl
        refine hpart.map fun text text' htext => ?_
        rw [hxy.1, htext]
      · rw [h]
  | string text =>
    rw [Heap.displayIn, Heap.displayIn]
    refine .ok ?_
    cases hopened <;> rfl
  | nil | boolean _ | number _ | function _ _ | print | println | len | arrayMethod _ _ _
  | stringMethod _ _ _ | maker _ =>
    rw [Heap.displayIn, Heap.displayIn]
    exact .ok rfl

/-- Alike values have the same text. -/
theorem Reads.display (hR : R.Lawful) (hs : R.Sound j) (huv : R.Alike j u v) :
    R.Reads Eq (j.left.heap.display u) (j.right.heap.display v) :=
  .displayIn hR hs .nil huv

end Regime

end Tao
