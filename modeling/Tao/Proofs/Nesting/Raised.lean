/-
  Raising the limit on calls.

  The limit is looked at where a function is called and nowhere else, so a run that does not hit it
  is the same at every higher limit.  A run that hits it is the beginning of the run at a higher
  limit: whatever it has printed, the other one prints first.  Both are one statement about two runs
  in tandem, of which the left one has the lower limit, and not more fuel.
-/
import Mathlib
import Tao.Proofs.Tandem.Parallel
import Tao.Proofs.Unobservable

namespace Tao

/-- The machine with another limit on calls. -/
def Machine.limitedTo (m : Machine) (limit : Nat) : Machine :=
  { m with config := { m.config with maxCallDepth := limit } }

namespace Parallel

/-- Two runs at the limits `d` and `d'` with the same sink.  The left one may stop at its limit, if
    that is the lower one, or for lack of fuel. -/
def raising (d d' : Nat) : Parallel where
  Agree c s c' s' := c.maxCallDepth = d ∧ c' = { c with maxCallDepth := d' } ∧ s' = s ∧
    s.failsFlush = false
  Matches halt halt' := halt = halt' ∧
    ∀ e, halt = .failed e → e.category = .recursion → e = .callsTooDeep d
  excuses halt := halt = .outOfFuel ∨ d < d' ∧ halt = .failed (.callsTooDeep d)
  Ahead s s' := s.failsFlush = false ∧ s'.failsFlush = false ∧
    ∃ more, s'.written = s.written ++ more

variable {d d' : Nat}

/-- The machines of two runs that meet differ in their limits only. -/
theorem meets_raising_iff {m m' : Machine} : (raising d d').tandem.Meets m m' ↔
    m.config.maxCallDepth = d ∧ m' = m.limitedTo d' ∧ m.sink.failsFlush = false := by
  constructor
  · rintro ⟨_, _, rfl, hlimit, rfl, rfl, hflush⟩
    exact ⟨hlimit, rfl, hflush⟩
  · rintro ⟨hlimit, rfl, hflush⟩
    exact ⟨_, _, rfl, hlimit, rfl, rfl, hflush⟩

theorem ahead_raising_refl {s : Sink} (h : s.failsFlush = false) : (raising d d').Ahead s s :=
  ⟨h, h, "", by rw [String.append_empty]⟩

/-- Where the limit is looked at. -/
theorem goes_checkDepth_raising (hle : d ≤ d') :
    (raising d d').tandem.Goes none Evaluator.checkDepth Evaluator.checkDepth := by
  refine ⟨fun m m' hm _ => ?_, .checkDepth⟩
  obtain ⟨hlimit, rfl, hflush⟩ := meets_raising_iff.1 hm
  have hleft : Evaluator.checkDepth m =
      if d ≤ m.depth then .error (.failed (.callsTooDeep d)) m else .ok () m := by
    rw [← hlimit]
    rfl
  rw [hleft]
  by_cases hdeep : d ≤ m.depth
  · rw [if_pos hdeep]
    -- under the lower limit the run stops here; the other one goes on unless the limits are equal
    rcases hle.lt_or_eq with hlt | rfl
    · have hahead : (raising d d').Ahead m.sink m.sink := ahead_raising_refl hflush
      refine .stopped (.inr ⟨hlt, rfl⟩) ?_
      have hreached : final (Evaluator.checkDepth (m.limitedTo d')) = m.limitedTo d' :=
        Evaluator.reached_checkDepth (m.limitedTo d')
      rw [hreached]
      exact hahead
    · have hright : Evaluator.checkDepth (m.limitedTo d) =
          .error (.failed (.callsTooDeep d)) (m.limitedTo d) := if_pos hdeep
      rw [hright]
      exact .error ⟨rfl, by rintro _ ⟨⟩ -; rfl⟩ hm
  · have hright : Evaluator.checkDepth (m.limitedTo d') = .ok () (m.limitedTo d') :=
      if_neg fun hdeep' => hdeep (hle.trans hdeep')
    rw [if_neg hdeep, hright]
    exact .ok hm .refl

/-- The limit is asked for by calls alone, so all else may go the same way. -/
theorem lawful_raising (hle : d ≤ d') : (raising d d').Lawful where
  entryPoint := by
    rintro c s _ _ ⟨-, rfl, -, -⟩
    rfl
  gcThreshold := by
    rintro c s _ _ ⟨-, rfl, -, -⟩
    rfl
  checkDepth := goes_checkDepth_raising hle
  ordinary := by
    rintro e he
    refine ⟨rfl, ?_⟩
    rintro _ ⟨⟩ hrecursion
    exact absurd hrecursion he.1
  outOfFuel := by
    rintro c s _ _ - ⟨-, -, rfl, hflush⟩
    exact ahead_raising_refl hflush
  flush := by
    rintro c s _ _ ⟨-, -, rfl, hflush⟩
    exact ⟨hflush, hflush⟩
  flushAhead h := ⟨h.1, h.2.1⟩

/-- A sink that is ahead remains so when more is written to it. -/
theorem staysAhead_write_raising (text : String) :
    (raising d d').tandem.StaysAhead (Eval.write text) := by
  rintro stopped m ⟨hstopped, hflush, more, hmore⟩
  unfold Eval.reached
  rw [Eval.write_apply]
  by_cases hempty : text.isEmpty = true
  · rw [if_pos hempty]
    exact ⟨hstopped, hflush, more, hmore⟩
  · rw [if_neg hempty]
    by_cases hfits : m.sink.fits text = true
    · rw [if_pos hfits]
      refine ⟨hstopped, hflush, more ++ text, ?_⟩
      rw [← String.append_assoc, ← hmore]
    · rw [if_neg hfits]
      exact ⟨hstopped, hflush, more, hmore⟩

/-- Both write the same to the same sink. -/
theorem goes_write_raising (text : String) :
    (raising d d').tandem.Goes none (Eval.write text) (Eval.write text) := by
  refine .write ?_ ?_ ⟨rfl, by rintro _ ⟨⟩ h; cases h⟩ (staysAhead_write_raising text)
  · rintro m _ ⟨_, _, rfl, -, -, rfl, -⟩
    rfl
  · rintro m m' sink hm hflushes
    obtain ⟨hlimit, rfl, hflush⟩ := meets_raising_iff.1 hm
    exact meets_raising_iff.2 ⟨hlimit, rfl, hflushes.trans hflush⟩

/-- The runs of a script, the left one with at most as much fuel. -/
theorem ends_raising (program : Program) {m : Machine} (hflush : m.sink.failsFlush = false)
    (hle : d ≤ d') {fuel fuel' : Nat} (hfuel : fuel ≤ fuel') :
    (raising d d').tandem.Ends (m.limitedTo d) (m.limitedTo d')
      (program.run fuel (m.limitedTo d)) (program.run fuel' (m.limitedTo d')) := by
  rw [← Program.runWatched_doing_usual, ← Program.runWatched_doing_usual]
  exact (lawful_raising hle).ends goes_write_raising (.inr ⟨.inl rfl, hfuel⟩) program
    (meets_raising_iff.2 ⟨rfl, rfl, hflush⟩)

end Parallel

/-- A run that ends is the same with more fuel. -/
theorem Program.run_moreFuel (program : Program) {m : Machine} (hflush : m.sink.failsFlush = false)
    {fuel fuel' : Nat} (hfuel : fuel ≤ fuel') (hends : program.Ends fuel m) :
    program.run fuel' m = program.run fuel m := by
  have h := Parallel.ends_raising program hflush (Nat.le_refl m.config.maxCallDepth) hfuel
  have hsame : m.limitedTo m.config.maxCallDepth = m := rfl
  rw [hsame] at h
  unfold Ends at hends
  generalize program.run fuel m = r at h hends
  generalize program.run fuel' m = s at h
  cases h with
  | ok meets _ =>
    obtain ⟨hlimit, rfl, -⟩ := Parallel.meets_raising_iff.1 meets
    rw [← hlimit]
    rfl
  | error matched meets =>
    obtain ⟨rfl, -⟩ := matched
    obtain ⟨hlimit, rfl, -⟩ := Parallel.meets_raising_iff.1 meets
    rw [← hlimit]
    rfl
  | stopped excused ahead =>
    rcases excused with rfl | ⟨hlt, -⟩
    · exact absurd rfl (hends _)
    · exact absurd hlt (Nat.lt_irrefl _)

/-- What a higher limit on calls changes.

    Nothing, in a run that ends by anything but the error for too deep a recursion: the result, the
    sink, the heap and everything else in the machine are the same.

    A run that does end by this error says which limit it hit, its own, and what it has printed is
    the beginning of what any run at the higher limit prints that ends. -/
theorem Program.run_limit_raised (program : Program) {m : Machine}
    (hflush : m.sink.failsFlush = false) {d d' : Nat} (hle : d ≤ d') (fuel : Nat) :
    (∀ value n, program.run fuel (m.limitedTo d) = .ok value n →
      program.run fuel (m.limitedTo d') = .ok value (n.limitedTo d')) ∧
    (∀ e n, program.run fuel (m.limitedTo d) = .error (.failed e) n → e.category ≠ .recursion →
      program.run fuel (m.limitedTo d') = .error (.failed e) (n.limitedTo d')) ∧
    ∀ e n, program.run fuel (m.limitedTo d) = .error (.failed e) n → e.category = .recursion →
      e = .callsTooDeep d ∧
      ∀ fuel', program.Ends fuel' (m.limitedTo d') →
        ∃ more, ((program.run fuel').reached (m.limitedTo d')).sink.written =
          n.sink.written ++ more := by
  have h := Parallel.ends_raising program hflush hle (Nat.le_refl fuel)
  refine ⟨fun value n hrun => ?_, fun e n hrun hother => ?_,
    fun e n hrun hrecursion => ⟨?_, fun fuel' hends => ?_⟩⟩
  · rw [hrun] at h
    generalize program.run fuel (m.limitedTo d') = s at h ⊢
    cases h with
    | ok meets _ =>
      obtain ⟨-, rfl, -⟩ := Parallel.meets_raising_iff.1 meets
      rfl
  · rw [hrun] at h
    generalize program.run fuel (m.limitedTo d') = s at h ⊢
    cases h with
    | error matched meets =>
      obtain ⟨rfl, -⟩ := matched
      obtain ⟨-, rfl, -⟩ := Parallel.meets_raising_iff.1 meets
      rfl
    | stopped excused _ =>
      rcases excused with hfuel | ⟨-, hdeep⟩
      · cases hfuel
      · cases hdeep
        exact absurd rfl hother
  · rw [hrun] at h
    generalize program.run fuel (m.limitedTo d') = s at h
    cases h with
    | error matched _ => exact matched.2 e rfl hrecursion
    | stopped excused _ =>
      rcases excused with hfuel | ⟨-, hdeep⟩
      · cases hfuel
      · cases hdeep
        rfl
  · -- the run at the higher limit may as well have more fuel
    have hmore := program.run_moreFuel (m := m.limitedTo d') hflush (Nat.le_max_right fuel fuel')
      hends
    have h := Parallel.ends_raising program hflush hle (Nat.le_max_left fuel fuel')
    unfold Eval.reached
    rw [← hmore]
    rw [hrun] at h
    generalize program.run (max fuel fuel') (m.limitedTo d') = s at h
    cases h with
    | error _ meets =>
      obtain ⟨-, rfl, -⟩ := Parallel.meets_raising_iff.1 meets
      exact ⟨"", (String.append_empty).symm⟩
    | stopped _ ahead =>
      obtain ⟨-, -, more, hwritten⟩ := ahead
      refine ⟨more, ?_⟩
      cases s <;> exact hwritten

/-- A script in which one function calls another and both print:
    `function inner() { print("b"); } function main() { print("a"); inner(); }`. -/
def Program.callingInner : Program :=
  ⟨[.function ⟨some "inner", [],
      [.expression (.call (.name "print") [.literal (.string "b")])]⟩,
    .function ⟨some "main", [],
      [.expression (.call (.name "print") [.literal (.string "a")]),
        .expression (.call (.name "inner") [])]⟩]⟩

/-- At limit 1 the inner call is one too many, after `a` was printed; at limit 2 it is not. -/
theorem Program.run_limit_raised_callingInner :
    (∃ n, callingInner.run 9 (Machine.limitedTo (.start {} .unlimited) 1) =
        .error (.failed (.callsTooDeep 1)) n ∧ n.sink.written = "a" ∧
      ∃ more, ((callingInner.run 9).reached
        (Machine.limitedTo (.start {} .unlimited) 2)).sink.written = n.sink.written ++ more) ∧
    ∃ n, callingInner.run 9 (Machine.limitedTo (.start {} .unlimited) 2) = .ok .nil n ∧
      callingInner.run 9 (Machine.limitedTo (.start {} .unlimited) 7) =
        .ok .nil (n.limitedTo 7) := by
  have hfirst := callingInner.run_limit_raised (m := .start {} .unlimited) rfl
    (by decide : 1 ≤ 2) 9
  have hsecond := callingInner.run_limit_raised (m := .start {} .unlimited) rfl
    (by decide : 2 ≤ 7) 9
  have hlow : callingInner.run 9 (Machine.limitedTo (.start {} .unlimited) 1) =
      .error (.failed (.callsTooDeep 1)) _ := Eval.apply_of_outcome_error (by cbv)
  have hhigh : callingInner.run 9 (Machine.limitedTo (.start {} .unlimited) 2) = .ok .nil _ :=
    Eval.apply_of_outcome_ok (by cbv)
  have hends : callingInner.Ends 9 (Machine.limitedTo (.start {} .unlimited) 2) := by
    intro m hfuel
    rw [hhigh] at hfuel
    cases hfuel
  exact ⟨⟨_, hlow, by cbv, (hfirst.2.2 _ _ hlow rfl).2 9 hends⟩, _, hhigh,
    hsecond.1 _ _ hhigh⟩

end Tao
