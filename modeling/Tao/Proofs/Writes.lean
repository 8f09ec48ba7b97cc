/-
  Sinks that refuse a write only cut a run short.

  The texts that a run writes are told apart by writing something else in their place: if every text
  is replaced by another one, so is what the sink holds in the end, text by text
  (`Program.Writes`).  To find them the run is made to write a RECORD of each text, in which its end
  is marked, and compared in tandem with other runs: those that write other texts in place of the
  same ones, and the one whose sink has a limit and that stops when a write is refused.

  A third run, on a sink without limit, is stopped by its writer where the limit would be exceeded.
  It shows on which machine the refused write took place, and that this is where the run has ended.
-/
import Mathlib
import Tao.Proofs.Tandem.Parallel

namespace Tao

/-! ## What is said of the texts written -/

/-- Writes `f text` in the place of every text that is not empty. -/
def Eval.writeAs (f : String → String) (text : String) : Eval Unit :=
  if text.isEmpty then pure () else Eval.write (f text)

/-- Writes a text, or halts if more would be written than the limit allows. -/
def Eval.writeUpTo (limit : Nat) (halt : Halt RuntimeError) (text : String) : Eval Unit := do
  Eval.require (fun m => m.sink.written.utf8ByteSize + text.utf8ByteSize ≤ limit) halt
  Eval.write text

/-- The machine with an empty sink that has this limit and flushes well. -/
def Machine.printingTo (m : Machine) (limit : Option Nat) : Machine :=
  { m with sink := ⟨"", limit, false⟩ }

/-- The machine with this limit on its sink. -/
def Machine.sinkLimited (m : Machine) (limit : Nat) : Machine :=
  { m with sink := { m.sink with limit := some limit } }

/-- A run writes these texts, one after another: whatever is written in the place of each, this is
    what a sink without limit holds in the end. -/
structure Program.Writes (program : Program) (fuel : Nat) (m : Machine) (texts : List String) :
    Prop where
  nonempty : ∀ text ∈ texts, text ≠ ""
  written : ∀ f : String → String,
    ((program.runWatched (.doing Eval.collectIfGrown (Eval.writeAs f)) fuel).reached
      (m.printingTo none)).sink.written = String.join (texts.map f)

/-- The longest leading run of texts that has room within a limit. -/
structure LongestFitting (limit : Nat) (texts fitting : List String) : Prop where
  leading : fitting <+: texts
  fits : (String.join fitting).utf8ByteSize ≤ limit
  longest : ∀ more, more <+: texts → (String.join more).utf8ByteSize ≤ limit → more <+: fitting

/-! ## Records -/

/-- Characters each of which has a mark before it, and another mark at their end. -/
def marked : List Char → List Char
  | [] => ['.']
  | c :: cs => '+' :: c :: marked cs

/-- A text in which every character is marked, and so is the end. -/
def record (text : String) : String := String.ofList (marked text.toList)

/-- Marked texts can be told apart in a longer text.  Induction on the first. -/
theorem marked_cancel {cs ds rest rest' : List Char} (h : marked cs ++ rest = marked ds ++ rest') :
    cs = ds ∧ rest = rest' := by
  induction cs generalizing ds with
  | nil =>
    cases ds with
    | nil => exact ⟨rfl, List.cons_inj_right '.' |>.1 h⟩
    | cons d ds => exact absurd (List.cons.inj h).1 (by decide)
  | cons c cs ih =>
    cases ds with
    | nil => exact absurd (List.cons.inj h).1 (by decide)
    | cons d ds =>
      obtain ⟨rfl, htail⟩ := List.cons.inj (List.cons.inj h).2
      obtain ⟨rfl, hrest⟩ := ih htail
      exact ⟨rfl, hrest⟩

/-- No record is empty. -/
theorem record_ne_empty (text : String) : (record text).isEmpty = false := by
  rw [← Bool.not_eq_true, String.isEmpty_iff, ← String.toList_inj]
  unfold record
  rw [String.toList_ofList]
  cases text.toList <;> exact nofun

/-- Records are put together from marked texts. -/
theorem toList_join_record (texts : List String) :
    (String.join (texts.map record)).toList = texts.flatMap fun text => marked text.toList := by
  rw [String.toList_join, List.flatMap_map]
  unfold record
  simp only [String.toList_ofList]

theorem marked_ne_nil (cs : List Char) : marked cs ≠ [] := by
  cases cs <;> exact nofun

/-- Records can be told apart although they stand side by side. -/
theorem join_record_injective {texts texts' : List String}
    (h : String.join (texts.map record) = String.join (texts'.map record)) : texts = texts' := by
  rw [← String.toList_inj, toList_join_record, toList_join_record] at h
  induction texts generalizing texts' with
  | nil =>
    cases texts' with
    | nil => rfl
    | cons text rest =>
      rw [List.flatMap_nil, List.flatMap_cons] at h
      exact absurd (List.append_eq_nil_iff.1 h.symm).1 (marked_ne_nil _)
  | cons text rest ih =>
    cases texts' with
    | nil =>
      rw [List.flatMap_nil, List.flatMap_cons] at h
      exact absurd (List.append_eq_nil_iff.1 h).1 (marked_ne_nil _)
    | cons text' rest' =>
      rw [List.flatMap_cons, List.flatMap_cons] at h
      obtain ⟨htext, hrest⟩ := marked_cancel h
      rw [String.toList_injective htext, ih hrest]

/-- The sink without limit in which these texts are recorded. -/
def recorded (texts : List String) : Sink := ⟨String.join (texts.map record), none, false⟩

/-- So the sink tells all texts that were written to it. -/
theorem recorded_injective {texts texts' : List String} (h : recorded texts = recorded texts') :
    texts = texts' :=
  join_record_injective (Sink.mk.inj h).1

/-- An empty text is not written. -/
theorem writeAs_empty (f : String → String) (m : Machine) : Eval.writeAs f "" m = .ok () m := rfl

/-- One more text goes at the end. -/
theorem join_concat (texts : List String) (text : String) :
    String.join (texts ++ [text]) = String.join texts ++ text := by
  rw [String.join_append, String.join_cons, String.join_nil, String.append_empty]

/-- One more record. -/
theorem writeAs_record {texts : List String} {text : String} {m : Machine} (htext : text ≠ "")
    (hm : m.sink = recorded texts) :
    Eval.writeAs record text m = .ok () { m with sink := recorded (texts ++ [text]) } := by
  have hsome : ¬ text.isEmpty = true := fun h => htext (String.isEmpty_iff.1 h)
  unfold Eval.writeAs
  rw [if_neg hsome, Eval.write_apply, record_ne_empty, if_neg Bool.false_ne_true, hm]
  have hrecorded : recorded (texts ++ [text]) =
      { recorded texts with written := (recorded texts).written ++ record text } := by
    unfold recorded
    rw [List.map_append, List.map_singleton, join_concat]
  rw [hrecorded]
  rfl

/-! ## Runs in tandem with the one that writes records -/

namespace Parallel

/-- A run that writes the same texts as the one that records them.  After `texts` its sink is
    `sink texts`, as long as they are accepted; it stops with `sinkFull` when one is refused. -/
def recording (sink : List String → Sink) (accepts : List String → Prop) : Parallel where
  Agree c s c' s' := c' = c ∧ ∃ texts, (∀ text ∈ texts, text ≠ "") ∧ accepts texts ∧
    s = sink texts ∧ s' = recorded texts
  Matches halt halt' := halt = halt' ∧ halt ≠ .failed .sinkFull
  excuses halt := halt = .failed .sinkFull
  Ahead s s' := s.failsFlush = false ∧ ∃ texts text more, (∀ t ∈ texts ++ text :: more, t ≠ "") ∧
    accepts texts ∧ ¬ accepts (texts ++ [text]) ∧ s = sink texts ∧
    s' = recorded (texts ++ text :: more)

/-- What writing does to the sink of the left run. -/
structure Recorder (sink : List String → Sink) (accepts : List String → Prop)
    (write : String → Eval Unit) : Prop where
  flush : ∀ texts, (sink texts).failsFlush = false
  empty : ∀ m texts, accepts texts → m.sink = sink texts → write "" m = .ok () m
  accepted : ∀ m texts text, accepts texts → m.sink = sink texts → text ≠ "" →
    accepts (texts ++ [text]) → write text m = .ok () { m with sink := sink (texts ++ [text]) }
  refused : ∀ m texts text, accepts texts → m.sink = sink texts → text ≠ "" →
    ¬ accepts (texts ++ [text]) → write text m = .error (.failed .sinkFull) m

variable {sink : List String → Sink} {accepts : List String → Prop} {write : String → Eval Unit}

/-- A sink of its own is all that a recording run has. -/
theorem lawful_recording (hw : Recorder sink accepts write) : (recording sink accepts).Lawful where
  entryPoint := by
    rintro c s _ _ ⟨rfl, -⟩
    rfl
  gcThreshold := by
    rintro c s _ _ ⟨rfl, -⟩
    rfl
  checkDepth := by
    refine goes_checkDepth ?_ fun limit => ⟨rfl, nofun⟩
    rintro c s _ _ ⟨rfl, -⟩
    rfl
  ordinary := by
    rintro e he
    refine ⟨rfl, ?_⟩
    rintro ⟨⟩
    exact he.2 rfl
  outOfFuel := nofun
  flush := by
    rintro c s _ _ ⟨-, texts, -, -, rfl, rfl⟩
    exact ⟨hw.flush texts, rfl⟩
  flushAhead := by
    rintro s _ ⟨hflush, texts, text, more, -, -, -, -, rfl⟩
    exact ⟨hflush, rfl⟩

/-- Each text is written in both runs, unless it is refused. -/
theorem goes_write_recording (hw : Recorder sink accepts write) (text : String) :
    (recording sink accepts).tandem.Goes none (write text) (Eval.writeAs record text) := by
  have hmore : ∀ texts : List String, (∀ t ∈ texts, t ≠ "") → text ≠ "" →
      ∀ t ∈ texts ++ [text], t ≠ "" := by
    intro texts htexts htext t ht
    rcases List.mem_append.1 ht with h | h
    · exact htexts t h
    · exact List.mem_singleton.1 h ▸ htext
  constructor
  · rintro m _ ⟨c, s, rfl, rfl, texts, htexts, haccepts, hleft, rfl⟩ -
    -- the empty text is neither recorded nor refused
    by_cases hempty : text = ""
    · subst hempty
      rw [hw.empty m texts haccepts hleft, writeAs_empty]
      exact .ok ⟨_, _, rfl, rfl, texts, htexts, haccepts, hleft, rfl⟩ .refl
    · rw [writeAs_record hempty rfl]
      by_cases hnext : accepts (texts ++ [text])
      · rw [hw.accepted m texts text haccepts hleft hempty hnext]
        exact .ok ⟨_, _, rfl, rfl, _, hmore texts htexts hempty, hnext, rfl, rfl⟩
          ⟨rfl, rfl, False.elim⟩
      · rw [hw.refused m texts text haccepts hleft hempty hnext]
        refine .stopped rfl ⟨hleft ▸ hw.flush texts, texts, text, [], ?_⟩
        exact ⟨hmore texts htexts hempty, haccepts, hnext, hleft, rfl⟩
  -- a run that has stopped is followed by one that records more
  · rintro stopped m ⟨hflush, texts, refused, more, hnonempty, haccepts, hrefused, rfl, hsink⟩
    by_cases hempty : text = ""
    · subst hempty
      exact ⟨hflush, texts, refused, more, hnonempty, haccepts, hrefused, rfl, hsink⟩
    · unfold Eval.reached
      rw [writeAs_record hempty hsink]
      refine ⟨hflush, texts, refused, more ++ [text], ?_, haccepts, hrefused, rfl, ?_⟩
      · have h := hmore _ hnonempty hempty
        rwa [List.append_assoc, List.cons_append] at h
      · rw [List.append_assoc, List.cons_append]

/-- Writing other texts to a sink without limit, none of which is refused. -/
theorem recorder_writeAs (f : String → String) :
    Recorder (fun texts => ⟨String.join (texts.map f), none, false⟩) (fun _ => True)
      (Eval.writeAs f) where
  flush _ := rfl
  empty _ _ _ _ := rfl
  accepted := by
    intro m texts text _ hsink htext _
    have hsome : ¬ text.isEmpty = true := fun h => htext (String.isEmpty_iff.1 h)
    unfold Eval.writeAs
    rw [if_neg hsome, Eval.write_apply, List.map_append, List.map_singleton, join_concat]
    obtain ⟨heap, scope, root, config, _, depth, frames, held, nextGc, stamps⟩ := m
    obtain rfl := hsink
    by_cases hempty : (f text).isEmpty = true
    · rw [if_pos hempty, String.isEmpty_iff.1 hempty, String.append_empty]
    · rw [if_neg hempty]
      rfl
  refused _ _ _ _ _ _ h := absurd trivial h

/-- Writing to a sink with a limit. -/
theorem recorder_limited (limit : Nat) :
    Recorder (fun texts => ⟨String.join texts, some limit, false⟩)
      (fun texts => (String.join texts).utf8ByteSize ≤ limit) Eval.write where
  flush _ := rfl
  empty _ _ _ _ := rfl
  accepted := by
    intro m texts text _ hsink htext hfits
    have hsome : ¬ text.isEmpty = true := fun h => htext (String.isEmpty_iff.1 h)
    rw [join_concat, String.utf8ByteSize_append] at hfits
    have hroom : m.sink.fits text = true := by
      rw [hsink]
      exact decide_eq_true hfits
    rw [Eval.write_apply, if_neg hsome, if_pos hroom, hsink, join_concat]
  refused := by
    intro m texts text _ hsink htext hfits
    have hsome : ¬ text.isEmpty = true := fun h => htext (String.isEmpty_iff.1 h)
    rw [join_concat, String.utf8ByteSize_append] at hfits
    have hroom : ¬ m.sink.fits text = true := by
      rw [hsink]
      exact fun h => hfits (of_decide_eq_true h)
    rw [Eval.write_apply, if_neg hsome, if_neg hroom]

/-! ## The run that is cut where the limit would be exceeded -/

/-- A run whose sink has a limit, and one whose sink has none and whose writer halts where the limit
    would be exceeded. -/
def cutting (limit : Nat) (halt : Halt RuntimeError) : Parallel where
  Agree c s c' s' := c' = c ∧ s.limit = some limit ∧ s' = { s with limit := none } ∧
    s.failsFlush = false ∧ s.written.utf8ByteSize ≤ limit
  Matches stop stop' := stop = stop' ∧ stop ≠ .failed .sinkFull ∨
    stop = .failed .sinkFull ∧ stop' = halt
  excuses _ := False
  Ahead _ _ := False

variable {limit : Nat} {halt : Halt RuntimeError}

/-- A sink without a limit is all that the right run has. -/
theorem lawful_cutting : (cutting limit halt).Lawful where
  entryPoint := by
    rintro c s _ _ ⟨rfl, -⟩
    rfl
  gcThreshold := by
    rintro c s _ _ ⟨rfl, -⟩
    rfl
  checkDepth := by
    refine goes_checkDepth ?_ fun limit => .inl ⟨rfl, nofun⟩
    rintro c s _ _ ⟨rfl, -⟩
    rfl
  ordinary := by
    rintro e he
    refine .inl ⟨rfl, ?_⟩
    rintro ⟨⟩
    exact he.2 rfl
  outOfFuel h := h.elim
  flush := by
    rintro c s _ _ ⟨-, -, rfl, hflush, -⟩
    exact ⟨hflush, hflush⟩
  flushAhead h := h.elim

/-- Both write, or both stop: the left one by an error of its sink, the other by the halt that was
    chosen. -/
theorem goes_write_cutting (text : String) :
    (cutting limit halt).tandem.Goes none (Eval.write text) (Eval.writeUpTo limit halt text) := by
  refine ⟨?_, fun _ _ h => h.elim⟩
  rintro m _ ⟨c, s, rfl, rfl, hlimit, rfl, hflush, hsize⟩ -
  have hfits : m.sink.fits text = true ↔
      m.sink.written.utf8ByteSize + text.utf8ByteSize ≤ limit := by
    unfold Sink.fits
    rw [hlimit]
    exact decide_eq_true_iff
  unfold Eval.writeUpTo
  rw [EStateM.bind_apply, Eval.write_apply]
  by_cases hroom : m.sink.written.utf8ByteSize + text.utf8ByteSize ≤ limit
  · have hrequire : Eval.require
        (fun m => m.sink.written.utf8ByteSize + text.utf8ByteSize ≤ limit) halt
        (m.facing m.config { m.sink with limit := none }) = .ok () _ := if_pos hroom
    rw [hrequire]
    dsimp only
    rw [Eval.write_apply, if_pos (hfits.2 hroom)]
    by_cases hempty : text.isEmpty = true
    · rw [if_pos hempty, if_pos hempty]
      exact .ok ⟨_, _, rfl, rfl, hlimit, rfl, hflush, hsize⟩ .refl
    · have hsize' : (m.sink.written ++ text).utf8ByteSize ≤ limit := by
        rw [String.utf8ByteSize_append]
        exact hroom
      rw [if_neg hempty, if_neg hempty]
      exact .ok ⟨_, _, rfl, rfl, hlimit, rfl, hflush, hsize'⟩ ⟨rfl, rfl, False.elim⟩
  · -- the empty text always fits
    have hsome : ¬ text.isEmpty = true := by
      intro hempty
      rw [String.isEmpty_iff.1 hempty] at hroom
      exact hroom hsize
    have hrequire : Eval.require
        (fun m => m.sink.written.utf8ByteSize + text.utf8ByteSize ≤ limit) halt
        (m.facing m.config { m.sink with limit := none }) = .error halt _ := if_neg hroom
    rw [hrequire, if_neg hsome, if_neg (mt hfits.1 hroom)]
    exact .error (.inr ⟨rfl, rfl⟩) ⟨_, _, rfl, rfl, hlimit, rfl, hflush, hsize⟩

end Parallel

/-! ## Whole runs -/

/-- How a run ends that writes the texts that the other one records: in the same way, or by a
    refusal. -/
theorem Parallel.recording_cases {sink : List String → Sink} {accepts : List String → Prop}
    {m m' : Machine} {r r' : EStateM.Result (Halt RuntimeError) Machine Value}
    (h : (recording sink accepts).tandem.Ends m m' r r') :
    (∃ texts, (∀ text ∈ texts, text ≠ "") ∧ accepts texts ∧ (final r).sink = sink texts ∧
      r' = endingOn (fun n => { n with sink := recorded texts }) r) ∨
    ∃ n texts text more, r = .error (.failed .sinkFull) n ∧ n.sink = sink texts ∧
      accepts texts ∧ ¬ accepts (texts ++ [text]) ∧
      (final r').sink = recorded (texts ++ text :: more) := by
  cases h with
  | ok meets _ =>
    obtain ⟨_, _, rfl, rfl, texts, htexts, haccepts, hsink, rfl⟩ := meets
    exact .inl ⟨texts, htexts, haccepts, hsink, rfl⟩
  | error matched meets =>
    obtain ⟨rfl, -⟩ := matched
    obtain ⟨_, _, rfl, rfl, texts, htexts, haccepts, hsink, rfl⟩ := meets
    exact .inl ⟨texts, htexts, haccepts, hsink, rfl⟩
  | stopped excused ahead =>
    obtain rfl := excused
    obtain ⟨-, texts, text, more, -, haccepts, hrefused, hsink, hrecorded⟩ := ahead
    exact .inr ⟨_, texts, text, more, rfl, hsink, haccepts, hrefused, hrecorded⟩

/-- More texts are never smaller. -/
theorem utf8ByteSize_join_le {texts more : List String} (h : texts <+: more) :
    (String.join texts).utf8ByteSize ≤ (String.join more).utf8ByteSize := by
  obtain ⟨rest, rfl⟩ := h
  rw [String.join_append, String.utf8ByteSize_append]
  exact Nat.le_add_right _ _

/-- The texts before the first one that has no room. -/
theorem longestFitting_of_refused {limit : Nat} {fitting more : List String} {text : String}
    (hfits : (String.join fitting).utf8ByteSize ≤ limit)
    (hrefused : ¬ (String.join (fitting ++ [text])).utf8ByteSize ≤ limit) :
    LongestFitting limit (fitting ++ text :: more) fitting := by
  refine ⟨List.prefix_append fitting _, hfits, fun other hother hsize => ?_⟩
  have hnext : fitting ++ [text] <+: fitting ++ text :: more := ⟨more, by simp⟩
  rcases List.prefix_or_prefix_of_prefix hother hnext with h | h
  · rcases List.prefix_concat_iff.1 h with rfl | h
    · exact absurd hsize hrefused
    · exact h
  · exact absurd ((utf8ByteSize_join_le h).trans hsize) hrefused

namespace Program

variable (program : Program) (m : Machine) (fuel : Nat)

/-- The run that records what it writes. -/
def runRecording : EStateM.Result (Halt RuntimeError) Machine Value :=
  program.runWatched (.doing Eval.collectIfGrown (Eval.writeAs record)) fuel (m.printingTo none)

theorem ends_recording {sink : List String → Sink} {accepts : List String → Prop}
    {write : String → Eval Unit} (hw : Parallel.Recorder sink accepts write) (hempty : accepts []) :
    (Parallel.recording sink accepts).tandem.Ends { m with sink := sink [] } (m.printingTo none)
      (program.runWatched (.doing Eval.collectIfGrown write) fuel { m with sink := sink [] })
      (program.runRecording m fuel) :=
  (Parallel.lawful_recording hw).ends (Parallel.goes_write_recording hw) (.inl ⟨rfl, rfl, nofun⟩)
    program ⟨m.config, recorded [], rfl, rfl, [], nofun, hempty, rfl, rfl⟩

theorem runWatched_writeAs_id :
    program.runWatched (.doing Eval.collectIfGrown (Eval.writeAs id)) fuel = program.run fuel := by
  have hwrite : Eval.writeAs id = Eval.write := by
    funext text m
    unfold Eval.writeAs
    rw [Eval.write_apply]
    by_cases hempty : text.isEmpty = true
    · rw [if_pos hempty, if_pos hempty]
      rfl
    · rw [if_neg hempty, if_neg hempty, Eval.write_apply, id_eq, if_neg hempty]
  rw [hwrite, runWatched_doing_usual]

/-- Whatever a run writes in place of the texts, it is the run that records them but for the
    sink. -/
theorem runWatched_writeAs {texts : List String}
    (htexts : (final (program.runRecording m fuel)).sink = recorded texts)
    (f : String → String) :
    (final (program.runWatched (.doing Eval.collectIfGrown (Eval.writeAs f)) fuel
      (m.printingTo none))).sink = ⟨String.join (texts.map f), none, false⟩ ∧
    program.runRecording m fuel = endingOn (fun n => { n with sink := recorded texts })
      (program.runWatched (.doing Eval.collectIfGrown (Eval.writeAs f)) fuel
        (m.printingTo none)) := by
  have h := program.ends_recording m fuel (Parallel.recorder_writeAs f) trivial
  rcases Parallel.recording_cases h with ⟨other, -, -, hsink, hrecording⟩ |
    ⟨_, _, _, _, -, -, -, hrefused, -⟩
  · rw [hrecording, final_endingOn] at htexts
    obtain rfl := recorded_injective htexts
    exact ⟨hsink, hrecording⟩
  · exact absurd trivial hrefused

theorem exists_recorded : ∃ texts, (∀ text ∈ texts, text ≠ "") ∧
    (final (program.runRecording m fuel)).sink = recorded texts := by
  have h := program.ends_recording m fuel (Parallel.recorder_writeAs id) trivial
  rcases Parallel.recording_cases h with ⟨texts, htexts, -, -, hrecording⟩ |
    ⟨_, _, _, _, -, -, -, hrefused, -⟩
  · refine ⟨texts, htexts, ?_⟩
    rw [hrecording, final_endingOn]
  · exact absurd trivial hrefused

/-- Two ends of a run that differ in their sinks only. -/
theorem eq_endingOn_sinkLimited {r r' : EStateM.Result (Halt RuntimeError) Machine Value}
    {limit : Nat} {written : String} {sink : Sink}
    (hr : (final r).sink = ⟨written, some limit, false⟩)
    (hr' : (final r').sink = ⟨written, none, false⟩)
    (h : endingOn (fun n => { n with sink }) r = endingOn (fun n => { n with sink }) r') :
    r = endingOn (·.sinkLimited limit) r' := by
  have hmachine : ∀ n n' : Machine, n.sink = ⟨written, some limit, false⟩ →
      n'.sink = ⟨written, none, false⟩ → { n with sink } = { n' with sink } →
      n = n'.sinkLimited limit := by
    rintro ⟨heap, scope, root, config, _, depth, frames, held, nextGc, stamps⟩
      ⟨heap', scope', root', config', _, depth', frames', held', nextGc', stamps'⟩ rfl rfl h
    cases h
    rfl
  cases r with
  | ok a n =>
    cases r' with
    | ok a' n' =>
      obtain ⟨rfl, hn⟩ := EStateM.Result.ok.inj h
      rw [hmachine n n' hr hr' hn]
      rfl
    | error halt' n' => cases h
  | error halt n =>
    cases r' with
    | ok a' n' => cases h
    | error halt' n' =>
      obtain ⟨rfl, hn⟩ := EStateM.Result.error.inj h
      rw [hmachine n n' hr hr' hn]
      rfl

/-- Where the run on the limited sink ends, the run whose writer halts does, for any halt. -/
theorem runWatched_writeUpTo {limit : Nat} {n : Machine}
    (hrun : program.run fuel (m.printingTo (some limit)) = .error (.failed .sinkFull) n)
    (halt : Halt RuntimeError) :
    program.runWatched (.doing Eval.collectIfGrown (Eval.writeUpTo limit halt)) fuel
        (m.printingTo none) = .error halt { n with sink := { n.sink with limit := none } } ∧
      n.sink.limit = some limit := by
  have hmeets : (Parallel.cutting limit halt).tandem.Meets (m.printingTo (some limit))
      (m.printingTo none) :=
    ⟨m.config, _, rfl, rfl, rfl, rfl, rfl, Nat.zero_le _⟩
  have h := Parallel.lawful_cutting.ends Parallel.goes_write_cutting (n := fuel)
    (.inl ⟨rfl, .inl ⟨rfl, nofun⟩⟩) program hmeets
  rw [runWatched_doing_usual, hrun] at h
  generalize program.runWatched _ fuel (m.printingTo none) = s at h ⊢
  cases h with
  | error matched meets =>
    obtain ⟨_, _, rfl, rfl, hlimit, rfl, -, -⟩ := meets
    rcases matched with ⟨-, hnot⟩ | ⟨-, rfl⟩
    · exact absurd rfl hnot
    · exact ⟨rfl, hlimit⟩
  | stopped excused _ => exact excused.elim

/-- A limit on the sink cuts a run short where a write is refused, and changes nothing else.

    A run writes the same texts whatever becomes of them.  If they have room, the run on the limited
    sink ends as the one on the sink without limit, in the same way and on the same machine.

    If they have not, the limited sink takes the longest leading run of them that has room.  The run
    ends with the error of the sink, on the machine on which the first write that has no room was
    tried: the same as if the run without limit were halted there. -/
theorem run_sink_limited (limit : Nat) :
    ∃ texts, program.Writes fuel m texts ∧
      ((program.run fuel).reached (m.printingTo none)).sink.written = String.join texts ∧
      if (String.join texts).utf8ByteSize ≤ limit then
        program.run fuel (m.printingTo (some limit)) =
          endingOn (·.sinkLimited limit) (program.run fuel (m.printingTo none))
      else ∃ n fitting, LongestFitting limit texts fitting ∧
        n.sink.written = String.join fitting ∧
        (∀ halt, program.runWatched (.doing Eval.collectIfGrown (Eval.writeUpTo limit halt)) fuel
          (m.printingTo none) = .error halt n) ∧
        program.run fuel (m.printingTo (some limit)) =
          .error (.failed .sinkFull) (n.sinkLimited limit) := by
  obtain ⟨texts, hnonempty, htexts⟩ := program.exists_recorded m fuel
  have hplain := program.runWatched_writeAs m fuel htexts id
  rw [runWatched_writeAs_id, List.map_id] at hplain
  refine ⟨texts, ⟨hnonempty, fun f => ?_⟩, congrArg Sink.written hplain.1, ?_⟩
  · exact congrArg Sink.written (program.runWatched_writeAs m fuel htexts f).1
  have hlimited := program.ends_recording m fuel (Parallel.recorder_limited limit) (Nat.zero_le _)
  rw [runWatched_doing_usual] at hlimited
  rcases Parallel.recording_cases hlimited with ⟨fitting, -, hfits, hsink, hrecording⟩ |
    ⟨n, fitting, text, more, hrun, hsink, hfits, hrefused, hrecorded⟩
  · -- no write was refused
    rw [hrecording, final_endingOn] at htexts
    obtain rfl := recorded_injective htexts
    rw [if_pos hfits]
    exact eq_endingOn_sinkLimited hsink hplain.1 (hrecording.symm.trans hplain.2)
  · obtain rfl := recorded_injective (htexts.symm.trans hrecorded)
    have hnext : fitting ++ [text] <+: fitting ++ text :: more := ⟨more, by simp⟩
    rw [if_neg fun hsize => hrefused ((utf8ByteSize_join_le hnext).trans hsize)]
    refine ⟨{ n with sink := { n.sink with limit := none } }, fitting,
      longestFitting_of_refused hfits hrefused, congrArg Sink.written hsink,
      fun halt => (program.runWatched_writeUpTo m fuel hrun halt).1, ?_⟩
    have hlimit := (program.runWatched_writeUpTo m fuel hrun .outOfFuel).2
    have hsame :
        Machine.sinkLimited { n with sink := { n.sink with limit := none } } limit = n := by
      unfold Machine.sinkLimited
      rw [← hlimit]
    rw [hsame]
    exact hrun

/-- In `println("ab")` the text has room in two bytes, and the line break has none. -/
example :
    let program : Program := ⟨[.function ⟨some "main", [],
      [.expression (.call (.name "println") [.literal (.string "ab")])]⟩]⟩
    let m : Machine := .printingTo (.start {} .unlimited) (some 2)
    (program.run 9).outcome m = .error (.failed .sinkFull) ∧
      ((program.run 9).reached m).sink.written = "ab" := by
  cbv

end Program

end Tao
