/-
  Members and places in lockstep.

  Reading and storing under a key is decided by the types of target and key.  What is found in a
  container is alike because the containers are; characters and members of strings have no handles,
  or are made anew under a stamp that both runs give out.
-/
import Tao.Proofs.Lockstep.Stores

namespace Tao

/-- Are two places the same, their parts related? -/
inductive Place.Rel (r : Value → Value → Prop) : Place → Place → Prop where
  | name (text : String) : Rel r (.name text) (.name text)
  | slot {t t' k k' : Value} (target : r t t') (key : r k k') : Rel r (.slot t k) (.slot t' k')

/-- A value without handles: it is alike to itself whatever is paired. -/
def Value.IsPlain (value : Value) : Prop := ∀ shape p, value.Alike shape p value

/-- Numbers, truth values and strings have no handles. -/
theorem Value.isPlain_number (n : Int64) : (Value.number n).IsPlain := fun _ _ => .number n

theorem Value.isPlain_boolean (b : Bool) : (Value.boolean b).IsPlain := fun _ _ => .boolean b

theorem Value.isPlain_string (s : String) : (Value.string s).IsPlain := fun _ _ => .string s

/-- A computation that looks at no handle: it gives a value without handles, and does not fail by a
    stale one. -/
def GivesPlain : Except RuntimeError Value → Prop
  | .ok value => value.IsPlain
  | .error e => e.category ≠ .internal

/-- A character of a string has no handle, and there being none is an error of its own. -/
theorem givesPlain_charAt (text : String) (index : Int64) : GivesPlain (charAt text index) := by
  unfold charAt
  split
  · exact Value.isPlain_string _
  · exact nofun

namespace Regime

variable {R : Regime} {exact : Bool} {j : Joint} {u v t t' : Value}

/-- What looks at no handle reads alike on both sides, as it is one and the same. -/
theorem Reads.plain (hR : R.Lawful) {x : Except RuntimeError Value} (hx : GivesPlain x) :
    R.Reads (R.Alike j) x x := by
  cases x with
  | ok value => exact .ok (hx R.shape j.pairing)
  | error e => exact .error (hR.admits hx)

/-! ## Members -/

/-- An element of paired arrays. -/
theorem Reads.element (hR : R.Lawful) (hs : R.Sound j) {a b : ArrayId}
    (hab : j.pairing.array a b) (index : Int64) :
    R.Reads (R.Alike j) (do (← j.left.heap.array a).get index)
      (do (← j.right.heap.array b).get index) := by
  refine (hR.array hs hab).bind fun c d hcd => ?_
  unfold ArrayCell.get
  rw [hcd.place_eq index]
  refine Reads.map (Q := Eq) (.same hR fun e he => ?_) fun place _ h => h ▸ hcd.getD place
  unfold ArrayCell.place at he
  split at he
  · cases he
    nofun
  · cases he

/-- A member of paired arrays: a property, the length, or a method with the stamp that both runs
    give out. -/
theorem Reads.memberOfArray (hR : R.Lawful) (hs : R.Sound j) {a b : ArrayId}
    (hab : j.pairing.array a b) (stamp : Nat) (key : String) :
    R.Reads (R.Alike j) (j.left.heap.memberOfArray stamp a key)
      (j.right.heap.memberOfArray stamp b key) := by
  refine (hR.array hs hab).bind fun c d hcd => ?_
  by_cases hlength : key = "length"
  · rw [if_pos hlength, if_pos hlength, hcd.size_eq]
    exact .ok (.number _)
  · rw [if_neg hlength, if_neg hlength]
    cases ArrayMethod.ofName? key with
    | some method => exact .ok (.arrayMethod stamp method hab)
    | none => exact .ok (optionRel_getD (hcd.props.lookup key) .nil)

/-- Reading under a key.  Case analysis on the types of target and key, which are the same on both
    sides. -/
theorem Steps.loadSlot (hR : R.Lawful) (hs : R.Sound j) (ht : R.Alike j t t')
    (hk : R.Alike j u v) : R.Steps exact j (loadSlot t u) (loadSlot t' v) R.Alike := by
  unfold Tao.loadSlot
  cases ht with
  | object hab =>
    cases hk with
    | string key =>
      refine .readAlike hR hs ?_
      exact (hR.object hs hab).map fun _ _ hcd => optionRel_getD (hcd.get? key) .nil
    | _ => exact .fail hR hs nofun
  | array hab =>
    cases hk with
    | string key =>
      -- a method that is loaded has a stamp of its own, the same on both sides
      refine (Steps.freshStamp hR hs).bind fun now stamp stamp' hs _ ⟨hpairing, hstamp⟩ => ?_
      subst hstamp
      exact .readAlike hR hs (.memberOfArray hR hs (hpairing ▸ hab) stamp key)
    | number index =>
      refine .readAlike hR hs ?_
      exact .element hR hs hab index
    | _ => exact .fail hR hs nofun
  | string text =>
    cases hk with
    | string key =>
      refine (Steps.freshStamp hR hs).bind fun now stamp stamp' hs _ ⟨_, hstamp⟩ => ?_
      subst hstamp
      exact .pure hs (.ofMemberOfString stamp text key)
    | number index =>
      refine .readAlike hR hs ?_
      exact .plain hR (givesPlain_charAt text index)
    | _ => exact .fail hR hs nofun
  | _ => exact .fail hR hs nofun

/-- Storing under a key.  The same case analysis. -/
theorem Steps.storeSlot (hR : R.Lawful) (hs : R.Sound j) {k k' : Value} (ht : R.Alike j t t')
    (hk : R.Alike j k k') (huv : R.Alike j u v) :
    R.Steps exact j (storeSlot t k u) (storeSlot t' k' v) fun _ _ _ => True := by
  cases ht with
  | object hab =>
    cases hk with
    | string key => exact .putProp hR hs hab key huv
    | _ => exact .fail hR hs nofun
  | array hab =>
    cases hk with
    | string key =>
      show R.Steps exact j (if isOwnMember key then _ else _) (if isOwnMember key then _ else _) _
      split
      · exact .fail hR hs nofun
      · exact .putArrayProp hR hs hab key huv
    | number index => exact .setElement hR hs hab index huv
    | _ => exact .fail hR hs nofun
  | string text => cases hk <;> exact .fail hR hs nofun
  | _ => exact .fail hR hs nofun

/-! ## Places -/

/-- Reading a name from the active scopes. -/
theorem Steps.nameValue (hR : R.Lawful) (hs : R.Sound j) (text : String) :
    R.Steps exact j (Place.name text).load (Place.name text).load R.Alike := by
  refine (Steps.activeScope hR hs).bind fun now a b hs _ ⟨hnow, _, _, hab⟩ => ?_
  subst hnow
  exact .readAlike hR hs (.valueOf hR hs hab text)

/-- Reading a place whose parts are pinned. -/
theorem Steps.load (hR : R.Lawful) (hs : R.Sound j) {p q : Place}
    (hpq : Place.Rel (R.Pinned j) p q) : R.Steps exact j p.load q.load R.Alike := by
  cases hpq with
  | name text => exact .nameValue hR hs text
  | slot ht hk => exact .loadSlot hR hs ht.alike hk.alike

/-- Storing to a place whose parts are pinned. -/
theorem Steps.store (hR : R.Lawful) (hs : R.Sound j) {p q : Place}
    (hpq : Place.Rel (R.Pinned j) p q) (huv : R.Alike j u v) :
    R.Steps exact j (p.store u) (q.store v) fun _ _ _ => True := by
  cases hpq with
  | name text =>
    refine (Steps.activeScope hR hs).bind fun now a b hs _ ⟨hnow, _, _, hab⟩ => ?_
    subst hnow
    exact .assign hR hs hab text huv
  | slot ht hk => exact .storeSlot hR hs ht.alike hk.alike huv

/-- A place whose parts are pinned stays so. -/
theorem Leads.place {base now : Joint} (h : R.Leads exact base now) {p q : Place}
    (hpq : Place.Rel (R.Pinned base) p q) : Place.Rel (R.Pinned now) p q := by
  cases hpq with
  | name text => exact .name text
  | slot ht hk => exact .slot (h.pinned _ _ ht) (h.pinned _ _ hk)

end Regime

end Tao
