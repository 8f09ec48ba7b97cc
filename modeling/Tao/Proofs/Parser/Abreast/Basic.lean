/-
  Two parsers abreast.

  Two parsers read from two token streams, a LEFT and a RIGHT one, and a `Bond` says how these
  streams compare.  The parsers go TOGETHER for as long as tokens that correspond come from both.
  Where that ends the left one may go on ALONE, to show that it comes to nothing: from then on it
  is never offered a token that closes a statement or a block.

  `Abreast` is the judgement about two parsers.  It also says that the left one has fuel enough.
  What is LEFT of a stream counts down with every token taken, up to the end of the text, and a
  parser of which more is known than its result says how much is left after it.  So one induction
  over the grammar tells that parsing ends, that more fuel changes nothing, and how the trees and
  errors of two texts compare.
-/
import Tao.Proofs.Parser.Reads
import Tao.Proofs.Scanner.Munch

namespace Tao

/-! ## What is left to read -/

/-- Does every statement or block end with such a token? -/
def Kind.closes : Kind → Bool
  | .semicolon | .rightBrace => true
  | _ => false

/-- The end of the text weighs nothing, since it can be taken again and again. -/
def Token.weight (token : Token) : Nat := if token.kind = .eof then 0 else 1

/-- Every other token weighs something. -/
theorem Token.weight_of_kind {token : Token} {kind : Kind} (h : token.kind = kind)
    (hkind : kind ≠ .eof) : token.weight = 1 := by
  unfold weight
  rw [h, if_neg hkind]

/-- What several tokens weigh. -/
def Token.weights : List Token → Nat
  | [] => 0
  | token :: tokens => token.weight + weights tokens

theorem Token.weights_cons (token : Token) (tokens : List Token) :
    weights (token :: tokens) = token.weight + weights tokens := rfl

/-- Scanning a token that weighs something takes at least one character. -/
theorem Cursor.length_le_of_scan {cursor after : Cursor} {token : Token}
    (h : cursor.scan = (.ok token, after)) :
    after.rest.length + token.weight ≤ cursor.rest.length := by
  obtain ⟨text, p⟩ := cursor
  obtain ⟨gap, hleads, -, hnoGap⟩ := skipGap_spec text p
  have htext := hleads.rest
  unfold scan at h
  dsimp only at h htext ⊢
  generalize skipGap text p = here at h htext hnoGap
  obtain ⟨found, q⟩ := here
  have hlength : found.length ≤ text.length := by
    rw [htext, List.length_append]
    exact Nat.le_add_left _ _
  split at h
  · next l cursor hread =>
    cases h
    rcases readLexeme_sound hnoGap hread with ⟨rfl, rfl, rfl⟩ | ⟨spelling, hleads, hspelled, -⟩
    · exact Nat.zero_le _
    · have hfound : found = spelling ++ after.rest := hleads.rest
      have hpos := hspelled.length_pos
      rw [hfound, List.length_append] at hlength
      have hweight : Token.weight ⟨l, q⟩ = 1 := Token.weight_of_kind rfl hspelled.kind_ne_eof
      rw [hweight]
      omega
  · cases h

namespace TokenStream

variable {stream next : TokenStream} {token : Token}

/-- The tokens that are pending and the characters not yet read. -/
def left (stream : TokenStream) : Nat :=
  Token.weights stream.pending + stream.cursor.rest.length

/-- A token that is put back is left again. -/
theorem left_putBack (stream : TokenStream) (token : Token) :
    (stream.putBack token).left = stream.left + token.weight := by
  unfold left putBack
  dsimp only
  rw [Token.weights_cons]
  omega

/-- A token that is taken is left no more. -/
theorem left_next (h : stream.next = (.ok token, next)) :
    next.left + token.weight ≤ stream.left := by
  obtain ⟨cursor, pending⟩ := stream
  unfold TokenStream.next at h
  cases pending with
  | cons first pending =>
    cases h
    unfold left
    dsimp only
    rw [Token.weights_cons]
    omega
  | nil =>
    dsimp only at h
    cases hscan : cursor.scan with
    | mk result after =>
      rw [hscan] at h
      cases h
      have hle := Cursor.length_le_of_scan hscan
      unfold left
      dsimp only
      omega

/-- No more is left than there are tokens handed back and characters to scan. -/
theorem left_le_remaining (stream : TokenStream) : stream.left ≤ stream.remaining := by
  have hweights : ∀ pending : List Token, Token.weights pending ≤ pending.length := by
    intro pending
    induction pending with
    | nil => exact Nat.le_refl 0
    | cons token pending ih =>
      have hweight : token.weight ≤ 1 := by
        unfold Token.weight
        split <;> omega
      rw [Token.weights_cons, List.length_cons]
      omega
  exact Nat.add_le_add_right (hweights stream.pending) _

end TokenStream

/-- A token that has been handed back is the next one. -/
theorem Parser.putBack_take {α : Type} (t : Token) (f : Token → Parse α) :
    (putBack t >>= fun _ => take >>= f) = f t := rfl

/-! ## Bonds -/

/-- Do two parsers go together, or the left one alone? -/
inductive Mode where
  | together
  | alone

/-- How two token streams are compared. -/
structure Bond where
  /-- The streams of parsers that go together. -/
  together : TokenStream → TokenStream → Prop
  /-- A stream of the left parser that offers no token that closes anything. -/
  alone : TokenStream → Prop
  /-- Tokens that correspond. -/
  token : Token → Token → Prop
  /-- Errors that correspond. -/
  error : SyntaxError → SyntaxError → Prop
  /-- May the left parser fail where the right one does not? -/
  lenient : Prop
  /-- May both take the end of the text? -/
  endsTogether : Prop
  lexeme_eq : ∀ {t t'}, token t t' → t.lexeme = t'.lexeme
  error_of_token : ∀ {t t'}, token t t' → ∀ cause, error ⟨cause, t.position⟩ ⟨cause, t'.position⟩
  lenient_of_alone : ∀ {s}, alone s → lenient
  next_together : ∀ {s s' t next}, together s s' → s.next = (.ok t, next) →
    (∃ t' next', s'.next = (.ok t', next') ∧ token t t' ∧ (t.kind = .eof → endsTogether) ∧
      together next next') ∨
    (alone next ∧ token t t ∧ t.kind.closes = false)
  next_error : ∀ {s s' e next}, together s s' → s.next = (.error e, next) →
    lenient ∨ ∃ e' next', s'.next = (.error e', next') ∧ error e e'
  putBack_together : ∀ {s s' t t'}, together s s' → token t t' → (t.kind = .eof → endsTogether) →
    together (s.putBack t) (s'.putBack t')
  next_alone : ∀ {s t next}, alone s → s.next = (.ok t, next) →
    alone next ∧ token t t ∧ t.kind.closes = false
  putBack_alone : ∀ {s t}, alone s → t.kind.closes = false → alone (s.putBack t)

/-- The result of a parser. -/
abbrev Parser.Result (α : Type) := EStateM.Result (Halt SyntaxError) Parser α

/-- What is claimed of the results of two parsers: how they end, how much is left, and what each of
    them gives. -/
abbrev Claim (α : Type) := Mode → Nat → α → α → Prop

namespace Bond

variable (B : Bond) {α β σ : Type}

/-- How the states of two parsers compare.  Of the right one nothing is known if the left one is
    alone. -/
def At : Mode → Parser → Parser → Prop
  | .together, p, p' => B.together p.tokens p'.tokens ∧ p.breakable = p'.breakable
  | .alone, p, _ => B.alone p.tokens

/-- Tokens that correspond and that may be handed back: by both, unless the text has come to its end
    for the left one only, or by the left one alone, if the token closes nothing. -/
structure Matches (m : Mode) (t t' : Token) : Prop where
  token : B.token t t'
  ends : m = .together → t.kind = .eof → B.endsTogether
  closes : m = .alone → t.kind.closes = false

/-- Does the right parser fail as the left one does? -/
def Fails (e : SyntaxError) (r : Parser.Result α) : Prop :=
  B.lenient ∨ ∃ e' p', r = .error (.failed e') p' ∧ B.error e e'

/-- How two parsers that started in this mode end. -/
def Ends (m : Mode) (Q : Claim α) : Parser.Result α → Parser.Result α → Prop
  | .ok a p, r =>
    (m = .together ∧
      ∃ a' p', r = .ok a' p' ∧ B.At .together p p' ∧ Q .together p.tokens.left a a') ∨
    (B.alone p.tokens ∧ ∃ a', Q .alone p.tokens.left a a')
  | .error (.failed e) _, r => m = .together → B.Fails e r
  | .error .outOfFuel _, _ => False

/-- Two parsers that go together, or the left one alone, from where so much is left. -/
def Abreast (m : Mode) (left : Nat) (x x' : Parse α) (Q : Claim α) : Prop :=
  ∀ p p', B.At m p p' → p.tokens.left = left → B.Ends m Q (x p) (x' p')

end Bond

/-! ## Claims -/

namespace Claim

variable {α : Type}

/-- Both give the same, and no more is left than before. -/
def atMost (before : Nat) : Claim α := fun _ left a a' => a = a' ∧ left ≤ before

/-- Both give the same, and less is left than before. -/
def below (before : Nat) : Claim α := fun _ left a a' => a = a' ∧ left < before

/-- As before, and they are still together. -/
def closed (before : Nat) : Claim α := fun m left a a' => a = a' ∧ left < before ∧ m = .together

/-- What two turns of a loop may claim: both go on with less left, or both are done. -/
def turn {σ : Type} (before : Nat) (I : Claim σ) (Q : Claim α) : Claim (Turn σ α)
  | m, left, .again s, .again s' => left < before ∧ I m left s s'
  | m, left, .done a, .done a' => Q m left a a'
  | _, _, _, _ => False

end Claim

namespace Bond

variable {B : Bond} {α β σ : Type} {m : Mode} {left : Nat} {Q : Claim α} {R : Claim β}
  {x x' : Parse α} {f f' : α → Parse β}

/-! ## Putting parsers together -/

/-- A parser that has gone on alone ends in the same way, whatever the right one does. -/
theorem Ends.ofAlone {r r' s : Parser.Result α} (h : B.Ends .alone Q r s) (hlenient : B.lenient) :
    B.Ends m Q r r' := by
  cases r with
  | ok a p =>
    rcases h with ⟨hmode, -⟩ | halone
    · cases hmode
    · exact .inr halone
  | error halt p =>
    cases halt with
    | failed e => exact fun _ => .inl hlenient
    | outOfFuel => exact h

namespace Abreast

/-- Results that the claim allows may be given. -/
theorem pure {a a' : α} (h : Q m left a a') : B.Abreast m left (pure a) (pure a') Q := by
  intro p p' hat hleft
  subst hleft
  cases m with
  | together => exact .inl ⟨rfl, a', p', rfl, hat, h⟩
  | alone => exact .inr ⟨hat, a', h⟩

/-- Errors that correspond may be raised. -/
theorem fail {e e' : SyntaxError} (h : B.error e e') :
    B.Abreast m left (Tao.fail e) (Tao.fail e') Q :=
  fun _ p' _ _ _ => .inr ⟨e', p', rfl, h⟩

/-- One after the other.  If the left parser goes on alone in the first part, so it does in the
    second. -/
theorem bind (hx : B.Abreast m left x x' Q)
    (hf : ∀ m left a a', Q m left a a' → B.Abreast m left (f a) (f' a') R) :
    B.Abreast m left (x >>= f) (x' >>= f') R := by
  intro p p' hat hleft
  have hends := hx p p' hat hleft
  rw [EStateM.bind_apply, EStateM.bind_apply]
  generalize x p = r at hends
  cases r with
  | ok a next =>
    rcases hends with ⟨rfl, a', next', hright, hnext, hq⟩ | ⟨halone, a', hq⟩
    · rw [hright]
      exact hf _ _ _ _ hq next next' hnext rfl
    · exact (hf _ _ _ _ hq next p' halone rfl).ofAlone (B.lenient_of_alone halone)
  | error halt next =>
    cases halt with
    | outOfFuel => exact hends
    | failed e =>
      intro hm
      rcases hends hm with hlenient | ⟨e', next', hright, herror⟩
      · exact .inl hlenient
      · rw [hright]
        exact .inr ⟨e', next', rfl, herror⟩

/-- After an error nothing is asked of what would come next. -/
theorem failBind {e e' : SyntaxError} (h : B.error e e') :
    B.Abreast m left (Tao.fail e >>= f) (Tao.fail e' >>= f') R :=
  (fail (Q := fun _ _ _ _ => False) h).bind nofun

theorem imp (hx : B.Abreast m left x x' Q) {R : Claim α}
    (h : ∀ m left a a', Q m left a a' → R m left a a') : B.Abreast m left x x' R := by
  intro p p' hat hleft
  have hends := hx p p' hat hleft
  generalize x p = r at hends ⊢
  cases r with
  | ok a next =>
    rcases hends with ⟨hm, a', next', hright, hnext, hq⟩ | ⟨halone, a', hq⟩
    · exact .inl ⟨hm, a', next', hright, hnext, h _ _ _ _ hq⟩
    · exact .inr ⟨halone, a', h _ _ _ _ hq⟩
  | error halt next =>
    cases halt with
    | outOfFuel => exact hends
    | failed e => exact hends

theorem map {g g' : α → β} (hx : B.Abreast m left x x' Q)
    (h : ∀ m left a a', Q m left a a' → R m left (g a) (g' a')) :
    B.Abreast m left (g <$> x) (g' <$> x') R :=
  hx.bind fun m left a a' hq => .pure (h m left a a' hq)

/-- A loop of any number of turns, each of which takes something or is the last one.  Induction on
    the turns that the left one may still take. -/
theorem iterate {turn turn' : σ → Parse (Turn σ α)} {I : Claim σ} {s s' : σ}
    (hturn : ∀ m left s s', I m left s s' →
      B.Abreast m left (turn s) (turn' s') (.turn left I Q))
    (hs : I m left s s') {fuel fuel' : Nat} (hfuel : left < fuel) (hle : fuel ≤ fuel') :
    B.Abreast m left (Tao.iterate fuel turn s) (Tao.iterate fuel' turn' s') Q := by
  induction fuel generalizing fuel' m left s s' with
  | zero => exact absurd hfuel (Nat.not_lt_zero _)
  | succ fuel ih =>
    obtain ⟨fuel', rfl⟩ : ∃ n, fuel' = n + 1 := ⟨fuel' - 1, by omega⟩
    refine (hturn m left s s' hs).bind fun m left t t' ht => ?_
    cases t with
    | again s =>
      cases t' with
      | again s' =>
        obtain ⟨hless, hs⟩ := ht
        exact ih hs (by omega) (by omega)
      | done => exact ht.elim
    | done a =>
      cases t' with
      | again => exact ht.elim
      | done a' => exact .pure ht

/-- Changing the count of loops and switches. -/
theorem setCount (f : Nat → Nat) :
    B.Abreast m left (modify fun parser => { parser with breakable := f parser.breakable })
      (modify fun parser => { parser with breakable := f parser.breakable }) (.atMost left) := by
  intro p p' hat hleft
  subst hleft
  cases m with
  | together =>
    refine .inl ⟨rfl, (), _, rfl, ⟨hat.1, congrArg f hat.2⟩, rfl, Nat.le_refl _⟩
  | alone => exact .inr ⟨hat, (), rfl, Nat.le_refl _⟩

/-- Changing the count afterwards, to what both agree on. -/
theorem afterwards {p p' : Parser} {g g' : Parser → Parser} (hx : B.Ends m Q (x p) (x' p'))
    (hg : ∀ p, (g p).tokens = p.tokens) (hg' : ∀ p, (g' p).tokens = p.tokens)
    (hcount : m = .together → ∀ p p', p.breakable = p'.breakable →
      (g p).breakable = (g' p').breakable) :
    B.Ends m Q (Parser.afterwards x g p) (Parser.afterwards x' g' p') := by
  unfold Parser.afterwards
  generalize x p = r at hx ⊢
  cases r with
  | ok a next =>
    rcases hx with ⟨rfl, a', next', hright, ⟨htogether, hnext⟩, hq⟩ | ⟨halone, a', hq⟩
    · rw [hright]
      refine .inl ⟨rfl, a', g' next', rfl, ⟨?_, hcount rfl _ _ hnext⟩, ?_⟩
      · rwa [hg, hg']
      · rwa [hg]
    · refine .inr ⟨?_, a', ?_⟩ <;> rwa [hg]
  | error halt next =>
    cases halt with
    | outOfFuel => exact hx
    | failed e =>
      intro hm
      rcases hx hm with hlenient | ⟨e', next', hright, herror⟩
      · exact .inl hlenient
      · rw [hright]
        exact .inr ⟨e', g' next', rfl, herror⟩

end Abreast

/-! ## Tokens -/

/-- Tokens that correspond and that have been taken. -/
def Taken (B : Bond) (before : Nat) : Claim Token :=
  fun m left t t' => B.Matches m t t' ∧ left + t.weight ≤ before

variable {t t' : Token} {wanted : Kind}

/-- Tokens that match have the same lexeme. -/
theorem Matches.lexeme (h : B.Matches m t t') : t'.lexeme = t.lexeme :=
  (B.lexeme_eq h.token).symm

theorem Matches.kind (h : B.Matches m t t') : t'.kind = t.kind := congrArg Lexeme.kind h.lexeme

/-- What closes something has been taken by both. -/
theorem Matches.together (h : B.Matches m t t') (hcloses : t.kind.closes = true) :
    m = .together := by
  cases m with
  | together => rfl
  | alone =>
    rw [h.closes rfl] at hcloses
    cases hcloses

/-- What neither closes anything nor ends the text may be handed back whatever comes in between. -/
theorem Matches.ofToken (h : B.token t t') {kind : Kind} (hkind : t.kind = kind)
    (heof : kind ≠ .eof) (hcloses : kind.closes = false) (m : Mode) : B.Matches m t t' := by
  subst hkind
  exact ⟨h, fun _ hend => absurd hend heof, fun _ => hcloses⟩

namespace Abreast

/-- A failure at a token that both have seen. -/
theorem failAt (h : B.Matches m t t') (cause : SyntaxError.Cause) :
    B.Abreast m left (Tao.fail ⟨cause, t.position⟩) (Tao.fail ⟨cause, t'.position⟩) Q :=
  fail (B.error_of_token h.token cause)

/-- Complaining about tokens that match: the messages are the same. -/
theorem unexpected (h : B.Matches m t t') (expected : Option Kind) :
    B.Abreast m left (Tao.fail (.unexpected t expected)) (Tao.fail (.unexpected t' expected)) Q := by
  unfold SyntaxError.unexpected
  rw [h.lexeme]
  exact .failAt h _

/-- Taking a token, together or alone, counts down by its weight. -/
theorem take : B.Abreast m left Parser.take Parser.take (B.Taken left) := by
  intro p p' hat hleft
  subst hleft
  unfold Parser.take
  cases hnext : p.tokens.next with
  | mk result next =>
    cases result with
    | ok t =>
      have hcount := TokenStream.left_next hnext
      cases m with
      | together =>
        obtain ⟨htogether, hbreakable⟩ := hat
        rcases B.next_together htogether hnext with
          ⟨t', next', hnext', htoken, hends, hnexts⟩ | ⟨halone, htoken, hcloses⟩
        · rw [hnext']
          exact .inl ⟨rfl, t', _, rfl, ⟨hnexts, hbreakable⟩, ⟨htoken, fun _ => hends, nofun⟩, hcount⟩
        · exact .inr ⟨halone, t, ⟨htoken, nofun, fun _ => hcloses⟩, hcount⟩
      | alone =>
        obtain ⟨halone, htoken, hcloses⟩ := B.next_alone hat hnext
        exact .inr ⟨halone, t, ⟨htoken, nofun, fun _ => hcloses⟩, hcount⟩
    | error e =>
      rintro rfl
      rcases B.next_error hat.1 hnext with hlenient | ⟨e', next', hnext', herror⟩
      · exact .inl hlenient
      · rw [hnext']
        exact .inr ⟨e', _, rfl, herror⟩

/-- Putting tokens that match back counts up by it. -/
theorem putBack (h : B.Matches m t t') :
    B.Abreast m left (Parser.putBack t) (Parser.putBack t')
      fun m' left' _ _ => m' = m ∧ left' ≤ left + t.weight := by
  intro p p' hat hleft
  subst hleft
  have hcount := TokenStream.left_putBack p.tokens t
  cases m with
  | together =>
    have htogether := B.putBack_together hat.1 h.token (h.ends rfl)
    exact .inl ⟨rfl, (), _, rfl, ⟨htogether, hat.2⟩, rfl, Nat.le_of_eq hcount⟩
  | alone => exact .inr ⟨B.putBack_alone hat (h.closes rfl), (), rfl, Nat.le_of_eq hcount⟩

/-- Looking at a token is taking it and handing it back. -/
theorem peek : B.Abreast m left Parser.peek Parser.peek
    fun m left' t t' => B.Matches m t t' ∧ left' ≤ left := by
  refine take.bind fun m taken t t' ⟨hmatches, hcount⟩ => (putBack hmatches).bind ?_
  rintro _ back _ _ ⟨rfl, hback⟩
  exact .pure ⟨hmatches, Nat.le_trans hback hcount⟩

/-- Where it matters that the token that is looked at is the next one to be taken. -/
theorem peekBind {f f' : Token → Parse β} (hf : ∀ m after t t', B.Taken left m after t t' →
      B.Abreast m after (Parser.putBack t >>= fun _ => f t) (Parser.putBack t' >>= fun _ => f' t')
        R) :
    B.Abreast m left (Parser.peek >>= f) (Parser.peek >>= f') R := by
  have hpeek : ∀ f : Token → Parse β, Parser.peek >>= f =
      Parser.take >>= fun t => Parser.putBack t >>= fun _ => f t := by
    intro f
    unfold Parser.peek
    simp only [bind_assoc, pure_bind]
  rw [hpeek, hpeek]
  exact take.bind hf

/-- Asking for the next kind takes nothing. -/
theorem nextIs (kind : Kind) :
    B.Abreast m left (Parser.nextIs kind) (Parser.nextIs kind) (.atMost left) := by
  refine peek.bind fun m _ t t' ⟨hmatches, hcount⟩ => .pure ⟨?_, hcount⟩
  rw [hmatches.kind]

/-- Where a closing token has been taken, both are together. -/
theorem takeIf (hwanted : wanted ≠ .eof) :
    B.Abreast m left (Parser.takeIf wanted) (Parser.takeIf wanted) fun m left' found found' =>
      found = found' ∧ left' ≤ left ∧
        (found = true → left' < left ∧ (wanted.closes = true → m = .together)) := by
  refine take.bind fun m taken t t' ⟨hmatches, hcount⟩ => ?_
  rw [hmatches.kind]
  split
  · next hkind =>
    rw [Token.weight_of_kind hkind hwanted] at hcount
    refine .pure ⟨rfl, Nat.le_of_lt hcount, fun _ => ⟨hcount, fun hcloses => ?_⟩⟩
    exact hmatches.together (hkind ▸ hcloses)
  · refine (putBack hmatches).bind ?_
    rintro _ back _ _ ⟨rfl, hback⟩
    exact .pure ⟨rfl, Nat.le_trans hback hcount, nofun⟩

/-- A token that must be there has been taken after that. -/
theorem expect (hwanted : wanted ≠ .eof) :
    B.Abreast m left (Parser.expect wanted) (Parser.expect wanted) fun m left' t t' =>
      B.Matches m t t' ∧ t.kind = wanted ∧ left' < left := by
  refine take.bind fun m taken t t' ⟨hmatches, hcount⟩ => ?_
  rw [hmatches.kind]
  split
  · next hkind =>
    rw [Token.weight_of_kind hkind hwanted] at hcount
    exact .pure ⟨hmatches, hkind, hcount⟩
  · exact .unexpected hmatches _

theorem expectName : B.Abreast m left Parser.expectName Parser.expectName (.below left) := by
  refine (expect (by decide)).bind fun m _ t t' ⟨hmatches, _, hcount⟩ => .pure ⟨?_, hcount⟩
  rw [hmatches.lexeme]

end Abreast

end Bond

end Tao
