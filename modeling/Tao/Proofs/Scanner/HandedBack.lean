/-
  Taking tokens and handing them back.

  1. **Program** — a session takes tokens from a stream, looks at the next one, and hands back the
     one taken last of those it has not handed back yet (`Session.step`).

  2. **Specification** — a PLACE in one fixed sequence of tokens: those of the text, the last one of
     which stands at every place from there on (`tokenAt`).  Taking a token moves the place forward
     by one and handing one back moves it back; whatever is answered is the token at a place
     (`Action.move`).

  3. **The crux** (`Session.At`) — the stream does not hold the sequence: part of it is text not
     read yet, and part of it was read and handed back.  At place `i`, when the text was read up to
     place `k`, just the tokens at `i`, ..., `k - 1` are waiting, first one first, and those at
     `i - 1`, ..., `0` can be handed back.  Every action keeps this, at the end of the text, too.
-/
import Mathlib
import Tao.Proofs.Scanner.Munch

namespace Tao

variable {text gap before : List Char} {tokens : List Token} {cursor : Cursor} {i j k : Nat}

/-! ## The tokens of a text, and the end of it forever -/

/-- The token at a place.  The last one stands at every place behind it, too. -/
def tokenAt (tokens : List Token) (i : Nat) : Token := tokens.getD i (tokens.getLastD default)

theorem tokenAt_singleton (token : Token) (i : Nat) : tokenAt [token] i = token := by
  cases i <;> rfl

theorem tokenAt_cons (token : Token) (h : tokens ≠ []) (i : Nat) :
    tokenAt (token :: tokens) (i + 1) = tokenAt tokens i := by
  obtain ⟨first, rest, rfl⟩ := List.exists_cons_of_ne_nil h
  rfl

theorem Splits.ne_nil (h : Splits before tokens text) : tokens ≠ [] := by
  cases h <;> exact List.cons_ne_nil _ _

namespace Cursor

/-- Where reading stops after so many tokens. -/
def afterScans (cursor : Cursor) (k : Nat) : Cursor := (fun cursor => cursor.scan.2)^[k] cursor

theorem afterScans_succ (cursor : Cursor) (k : Nat) :
    cursor.afterScans (k + 1) = (cursor.afterScans k).scan.2 :=
  Function.iterate_succ_apply' _ k cursor

/-- In the last gap there is nothing to read but the end of the text. -/
theorem scan_lastGap (before : List Char) (hgap : Gap gap []) :
    scan ⟨gap, .behind before⟩ =
      (.ok ⟨.mark .eof, .behind (before ++ gap)⟩, ⟨[], .behind (before ++ gap)⟩) := by
  have hgap' : Gap (gap ++ []) [] := by rwa [List.append_nil]
  have hskip := skipGap_append hgap' trivial (.behind before)
  rw [List.append_nil, Position.afterText_behind] at hskip
  unfold scan
  dsimp only
  rw [hskip]
  rfl

/-- The end of the text is read again and again, at the same position. -/
theorem afterScans_end (p : Position) (k : Nat) : afterScans ⟨[], p⟩ k = ⟨[], p⟩ := by
  induction k with
  | zero => rfl
  | succ k ih =>
    rw [afterScans_succ, ih]
    unfold scan
    rw [skipGap]
    rfl

/-- Tokens are read one after another.  Induction on the splitting of the text. -/
theorem scan_afterScans (h : Splits before tokens text) (k : Nat) :
    (afterScans ⟨text, .behind before⟩ k).scan.1 = .ok (tokenAt tokens k) := by
  induction h generalizing k with
  | @eof before gap hgap =>
    have hscan := scan_lastGap before hgap
    rw [tokenAt_singleton]
    cases k with
    | zero =>
      show (scan ⟨gap, .behind before⟩).1 = _
      rw [hscan]
    | succ k =>
      show (afterScans (scan ⟨gap, .behind before⟩).2 k).scan.1 = _
      rw [hscan, afterScans_end]
      unfold scan
      rw [skipGap]
      rfl
  | @lexeme before gap l spelling rest tokens hgap hspelled hstops hsplits ih =>
    have hscan := scan_complete before hgap hspelled hstops
    cases k with
    | zero =>
      show (scan ⟨gap ++ (spelling ++ rest), .behind before⟩).1 = _
      rw [hscan]
      rfl
    | succ k =>
      show (afterScans (scan ⟨gap ++ (spelling ++ rest), .behind before⟩).2 k).scan.1 = _
      rw [hscan, tokenAt_cons _ hsplits.ne_nil]
      exact ih k

end Cursor

/-! ## Sessions -/

/-- What can be done with a token stream. -/
inductive Action where
  | take
  | look
  /-- Hands back the token taken last of those not handed back yet. -/
  | handBack
  deriving DecidableEq, Repr

/-- A token stream, and the tokens taken from it and not handed back yet, last one first. -/
structure Session where
  stream : TokenStream
  taken : List Token

namespace Session

def ofText (text : String) : Session := ⟨.ofText text, []⟩

/-- Acts on the stream and answers with the token concerned.  There may be nothing to hand back. -/
def step (session : Session) : Action → Option (Except SyntaxError Token × Session)
  | .take =>
    match session.stream.next with
    | (.ok token, stream) => some (.ok token, ⟨stream, token :: session.taken⟩)
    | (.error e, stream) => some (.error e, ⟨stream, session.taken⟩)
  | .look => some (session.stream.peek.1, ⟨session.stream.peek.2, session.taken⟩)
  | .handBack =>
    match session.taken with
    | [] => none
    | token :: taken => some (.ok token, ⟨session.stream.putBack token, taken⟩)

/-- What a sequence of actions is answered with, if there is always something to hand back. -/
def answers : Session → List Action → Option (List (Except SyntaxError Token))
  | _, [] => some []
  | session, action :: rest => do
    let (answer, session) ← session.step action
    return answer :: (← session.answers rest)

end Session

/-- At place `i`, the place of the token concerned, and the place to go on from. -/
def Action.move (i : Nat) : Action → Option (Nat × Nat)
  | .take => some (i, i + 1)
  | .look => some (i, i)
  | .handBack => if i = 0 then none else some (i - 1, i - 1)

/-- The places of the tokens that a sequence of actions is concerned with. -/
def Action.places : Nat → List Action → Option (List Nat)
  | _, [] => some []
  | i, action :: rest => do
    let (place, i) ← action.move i
    return place :: (← places i rest)

namespace Session

/-- The session is at place `i` of the tokens that begin where `start` stands, and has read on to
    place `k`. -/
structure At (start : Cursor) (tokens : List Token) (i k : Nat) (session : Session) : Prop where
  scans : ∀ k, (start.afterScans k).scan.1 = .ok (tokenAt tokens k)
  cursor : session.stream.cursor = start.afterScans k
  le : i ≤ k
  pending : session.stream.pending = (List.range' i (k - i)).map (tokenAt tokens)
  taken : session.taken = (List.range i).reverse.map (tokenAt tokens)

variable {start : Cursor} {session : Session}

theorem at_ofText {text : String} (h : Splits [] tokens text.toList) :
    At (.ofText text) tokens 0 0 (ofText text) :=
  ⟨Cursor.scan_afterScans h, rfl, Nat.le_refl 0, rfl, rfl⟩

/-- Taking a token takes the one at the place, whether it was handed back or is read now. -/
theorem At.next (h : session.At start tokens i k) : ∃ stream,
    session.stream.next = (.ok (tokenAt tokens i), stream) ∧
      ∃ k, At start tokens (i + 1) k ⟨stream, tokenAt tokens i :: session.taken⟩ := by
  obtain ⟨⟨cursor, pending⟩, taken⟩ := session
  obtain ⟨hscans, hcursor, hle, hpending, htaken⟩ := h
  dsimp only at hcursor hpending htaken
  subst hcursor hpending htaken
  have htaken : tokenAt tokens i :: (List.range i).reverse.map (tokenAt tokens) =
      (List.range (i + 1)).reverse.map (tokenAt tokens) := by
    rw [List.range_succ, List.reverse_append, List.map_append]
    rfl
  -- nothing is pending and a token is scanned, or the first that is pending is taken
  rcases hle.eq_or_lt with rfl | hlt
  · have hnone : (List.range' i (i - i)).map (tokenAt tokens) = [] := by
      rw [Nat.sub_self]
      rfl
    have hnext : TokenStream.next ⟨start.afterScans i, []⟩ =
        (.ok (tokenAt tokens i), ⟨start.afterScans (i + 1), []⟩) := by
      rw [Cursor.afterScans_succ]
      unfold TokenStream.next
      dsimp only
      rw [hscans]
    rw [hnone]
    refine ⟨_, hnext, i + 1, hscans, rfl, Nat.le_refl _, ?_, htaken⟩
    rw [Nat.sub_self]
    rfl
  · have hfirst : (List.range' i (k - i)).map (tokenAt tokens) =
        tokenAt tokens i :: (List.range' (i + 1) (k - (i + 1))).map (tokenAt tokens) := by
      rw [show k - i = k - (i + 1) + 1 by omega, List.range'_succ]
      rfl
    rw [hfirst]
    exact ⟨_, rfl, k, hscans, rfl, hlt, rfl, htaken⟩

/-- What was taken last is the token before the place, and is the next one when handed back. -/
theorem At.putBack (h : session.At start tokens (i + 1) k) :
    ∃ taken, session.taken = tokenAt tokens i :: taken ∧
      At start tokens i k ⟨session.stream.putBack (tokenAt tokens i), taken⟩ := by
  refine ⟨(List.range i).reverse.map (tokenAt tokens), ?_, h.scans, h.cursor, ?_, ?_, rfl⟩
  · rw [h.taken, List.range_succ, List.reverse_append, List.map_append]
    rfl
  · have := h.le
    omega
  · have hle := h.le
    show tokenAt tokens i :: session.stream.pending = _
    rw [h.pending, show k - i = k - (i + 1) + 1 by omega, List.range'_succ]
    rfl

/-- Every action does to the session what it does to the place. -/
theorem At.step (h : session.At start tokens i k) (action : Action) :
    action.move i = none ∧ session.step action = none ∨
    ∃ place next after k, action.move i = some (place, next) ∧
      session.step action = some (.ok (tokenAt tokens place), after) ∧
      after.At start tokens next k := by
  cases action with
  | take =>
    obtain ⟨stream, hnext, k', hat⟩ := h.next
    refine .inr ⟨i, i + 1, _, k', rfl, ?_, hat⟩
    unfold Session.step
    rw [hnext]
  | look =>
    obtain ⟨stream, hnext, k', hat⟩ := h.next
    obtain ⟨taken, htaken, hback⟩ := hat.putBack
    cases htaken
    refine .inr ⟨i, i, _, k', rfl, ?_, hback⟩
    unfold Session.step TokenStream.peek
    rw [hnext]
  | handBack =>
    cases i with
    | zero =>
      left
      constructor
      · rfl
      · unfold Session.step
        rw [h.taken]
        rfl
    | succ i =>
      obtain ⟨taken, htaken, hback⟩ := h.putBack
      refine .inr ⟨i, i, _, k, rfl, ?_, hback⟩
      unfold Session.step
      rw [htaken]

/-- Induction on the actions. -/
theorem At.answers (h : session.At start tokens i k) (actions : List Action) :
    session.answers actions =
      (Action.places i actions).map (·.map fun place => .ok (tokenAt tokens place)) := by
  induction actions generalizing session i k with
  | nil => rfl
  | cons action rest ih =>
    unfold Session.answers Action.places
    rcases h.step action with ⟨hmove, hstep⟩ | ⟨place, next, after, k', hmove, hstep, hat⟩
    · rw [hmove, hstep]
      rfl
    · rw [hmove, hstep]
      show (do return _ :: (← after.answers rest)) = _
      rw [ih hat]
      show _ = Option.map _ (do return place :: (← Action.places next rest))
      cases Action.places next rest <;> rfl

/-- **A token stream is a place in one fixed sequence.**  If a text has tokens, then whatever is
    taken, looked at and handed back, in any order and beyond the end of the text, the answers are
    the tokens at the places that these actions move to. -/
theorem answers_ofText {text : String} (h : tokenize text = .ok tokens) (actions : List Action) :
    (ofText text).answers actions =
      (Action.places 0 actions).map (·.map fun place => .ok (tokenAt tokens place)) := by
  have hlength : text.toList.length < text.length + 1 := by
    rw [String.length_toList]
    omega
  exact (at_ofText (splits_of_scanAll hlength h)).answers actions

/-- Two tokens are handed back on top of one that was looked at, and the end of the text is taken
    twice, handed back and taken again. -/
theorem answers_ofText_beyondEnd :
    let tokens : List Token :=
      [⟨.mark .leftParen, ⟨1, 1⟩⟩, ⟨.name "x", ⟨2, 2⟩⟩, ⟨.mark .eof, ⟨2, 4⟩⟩]
    tokenize "( // x\n x " = .ok tokens ∧
    (ofText "( // x\n x ").answers
        [.take, .take, .look, .handBack, .handBack, .look, .take, .take, .take, .take, .handBack,
          .take] =
      some ([0, 1, 2, 1, 0, 0, 0, 1, 2, 3, 3, 3].map fun place => .ok (tokenAt tokens place)) := by
  intro tokens
  have htokens : tokenize "( // x\n x " = .ok tokens := by cbv
  exact ⟨htokens, answers_ofText htokens _⟩

end Session

end Tao
