/-
  The count of loops and switches, also where a parser fails.

  Of all that the grammar consists of, only a switch raises the count without giving it back when
  it fails.  `Unfinished x p n` says where that is: run from `p`, the parser `x` fails inside of `n`
  switches, those in the body of a function not counted.  Just so much is the count raised
  (`Unfinished.fails`).

  For each of these switches a token `switch` was taken.  This is said by a judgement with CREDIT.
  What a stream has still to read stands for a credit of its own: the tokens `switch` among those
  handed back, and the places in the text where the word begins (`TokenStream.switches`).  Taking a
  token turns that credit into credit at hand, handing it back returns it, and a switch spends one.
  In `Counts raising held x Q` there is credit `held` at first; `Q` says what is left of it when `x`
  succeeds, with the count as it was.  If `x` fails, there is credit for the unfinished switches,
  and if not `raising`, there are none.
-/
import Tao.Parser.Script
import Tao.Proofs.Parser.Gives
import Tao.Proofs.Scanner.Munch

namespace Tao

/-! ## Switches to come -/

/-- At how many places of a text the word `switch` begins, be it in a comment, in a string or in a
    longer word. -/
def switchesIn (text : List Char) : Nat := text.tails.countP ("switch".toList.isPrefixOf ·)

/-- One for the token `switch`. -/
def Token.switches (token : Token) : Nat := if token.kind = .kwSwitch then 1 else 0

/-- How many of the tokens are `switch`. -/
def switchesAmong : List Token → Nat
  | [] => 0
  | token :: tokens => switchesAmong tokens + token.switches

/-- No more tokens `switch` than this are to come. -/
def TokenStream.switches (stream : TokenStream) : Nat :=
  switchesAmong stream.pending + switchesIn stream.cursor.rest

/-- A character more makes one place more, at most. -/
theorem switchesIn_cons (c : Char) (text : List Char) : switchesIn (c :: text) =
    switchesIn text + if "switch".toList.isPrefixOf (c :: text) = true then 1 else 0 :=
  List.countP_cons

/-- Reading on, there are never more places to come. -/
theorem switchesIn_le_of_suffix {rest text : List Char} (h : rest <:+ text) :
    switchesIn rest ≤ switchesIn text := by
  obtain ⟨taken, rfl⟩ := h
  induction taken with
  | nil => exact Nat.le_refl _
  | cons c taken ih =>
    rw [List.cons_append, switchesIn_cons]
    exact Nat.le_add_right_of_le ih

/-- Where the word stands, it counts. -/
theorem switchesIn_word (rest : List Char) :
    switchesIn rest + 1 ≤ switchesIn ("switch".toList ++ rest) := by
  have hword : "switch".toList ++ rest = 's' :: ("witch".toList ++ rest) := rfl
  have hprefix : "switch".toList.isPrefixOf ('s' :: ("witch".toList ++ rest)) = true :=
    List.isPrefixOf_iff_prefix.2 (hword ▸ List.prefix_append _ _)
  rw [hword, switchesIn_cons, if_pos hprefix]
  exact Nat.succ_le_succ (switchesIn_le_of_suffix (List.suffix_append _ _))

/-! ## What reading leaves of a text -/

namespace Cursor

variable {cursor after : Cursor}

/-- What is left after digits is the end of the text. -/
theorem readDigits_suffix (value : Nat) (text : List Char) (p : Position) :
    (readDigits value text p).2.rest <:+ text := by
  fun_induction readDigits value text p with
  | case1 => exact List.suffix_refl _
  | case2 => exact (by assumption : _ <:+ _).trans (List.suffix_cons _ _)
  | case3 => exact List.suffix_cons _ _
  | case4 => exact List.suffix_refl _

theorem readString_suffix (opening : Position) (read text : List Char) (p : Position) :
    (readString opening read text p).2.rest <:+ text := by
  fun_induction readString opening read text p with
  | case1 => exact List.suffix_refl _
  | case2 => exact List.suffix_cons _ _
  | case3 => exact List.suffix_cons _ _
  | case4 _ _ e _ _ _ _ ih => exact (ih.trans (List.suffix_cons e _)).trans (List.suffix_cons _ _)
  | case5 _ _ e => exact (List.suffix_cons e _).trans (List.suffix_cons _ _)
  | case6 _ _ _ _ _ _ ih => exact ih.trans (List.suffix_cons _ _)

/-- Asking whether a lexeme is glued to the next takes nothing. -/
theorem unlessGlued_snd (l : Lexeme) (cursor : Cursor) : (unlessGlued l cursor).2 = cursor := by
  unfold unlessGlued
  split
  · split <;> rfl
  · rfl

/-- Whether a lexeme is read or an error is found, what is left is the end of the text. -/
theorem readLexeme_suffix (cursor : Cursor) : cursor.readLexeme.2.rest <:+ cursor.rest := by
  obtain ⟨text, p⟩ := cursor
  cases text with
  | nil => exact List.suffix_refl _
  | cons c text =>
    unfold readLexeme
    dsimp only
    split
    · have hdigits := readDigits_suffix 0 (c :: text) p
      split <;> rename_i heq <;> rw [heq] at hdigits
      · rwa [unlessGlued_snd]
      · exact hdigits
    · split
      · rw [unlessGlued_snd]
        exact List.dropWhile_suffix _
      · split
        · have hstring := readString_suffix p [] text (p.after c)
          split <;> rename_i heq <;> rw [heq] at hstring
          · rw [unlessGlued_snd]
            exact hstring.trans (List.suffix_cons _ _)
          · exact hstring.trans (List.suffix_cons _ _)
        · split
          · exact List.drop_suffix _ _
          · exact List.suffix_cons _ _

/-- A scan leaves what its lexeme leaves, whether it succeeds or not. -/
theorem scan_snd (cursor : Cursor) :
    cursor.scan.2 = (skipGap cursor.rest cursor.position).readLexeme.2 := by
  unfold scan
  dsimp only
  split <;> rename_i heq <;> rw [heq]

/-- Hence no scan makes more places. -/
theorem switchesIn_scan_le (cursor : Cursor) :
    switchesIn cursor.scan.2.rest ≤ switchesIn cursor.rest := by
  obtain ⟨gap, hleads, -, -⟩ := skipGap_spec cursor.rest cursor.position
  have hgap : (skipGap cursor.rest cursor.position).rest <:+ cursor.rest := ⟨gap, hleads.rest.symm⟩
  rw [scan_snd]
  exact switchesIn_le_of_suffix ((readLexeme_suffix _).trans hgap)

/-- The keyword is spelled in one way only. -/
theorem spelling_of_kwSwitch {l : Lexeme} {spelling : List Char} (h : l.IsSpelledBy spelling)
    (hkind : l.kind = .kwSwitch) : spelling = "switch".toList := by
  cases h with
  | mark =>
    subst hkind
    rfl
  | _ => cases hkind

/-- A token `switch` was one of the places where the word begins. -/
theorem switchesIn_scan {token : Token} (h : cursor.scan = (.ok token, after)) :
    switchesIn after.rest + token.switches ≤ switchesIn cursor.rest := by
  unfold Token.switches
  split
  · next hkind =>
    obtain ⟨gap, hleads, -, hnoGap⟩ := skipGap_spec cursor.rest cursor.position
    unfold scan at h
    dsimp only at h
    generalize skipGap cursor.rest cursor.position = here at h hleads hnoGap
    split at h
    · next l stop hread =>
      cases h
      have hgap : switchesIn here.rest ≤ switchesIn cursor.rest :=
        switchesIn_le_of_suffix ⟨gap, hleads.rest.symm⟩
      rcases readLexeme_sound hnoGap hread with ⟨rfl, -, -⟩ | ⟨spelling, htaken, hspelled, -⟩
      · cases hkind
      · have hrest : here.rest = "switch".toList ++ after.rest := by
          rw [← spelling_of_kwSwitch hspelled hkind]
          exact htaken.rest
        have hword := switchesIn_word after.rest
        rw [← hrest] at hword
        omega
    · cases h
  · have hle := switchesIn_scan_le cursor
    rw [h] at hle
    exact hle

end Cursor

namespace TokenStream

variable {stream after : TokenStream} {token : Token}

/-- A token that is put back is one to come. -/
theorem switches_putBack (stream : TokenStream) (token : Token) :
    (stream.putBack token).switches = stream.switches + token.switches := by
  show switchesAmong stream.pending + token.switches + switchesIn stream.cursor.rest = _
  unfold switches
  omega

/-- A token that is taken is no longer to come. -/
theorem switches_next (h : stream.next = (.ok token, after)) :
    after.switches + token.switches ≤ stream.switches := by
  obtain ⟨cursor, pending⟩ := stream
  cases pending with
  | cons first pending =>
    cases h
    exact Nat.le_of_eq (switches_putBack ⟨cursor, pending⟩ token).symm
  | nil =>
    unfold next at h
    dsimp only at h
    cases hscan : cursor.scan with
    | mk result stop =>
      rw [hscan] at h
      cases h
      have hcount := Cursor.switchesIn_scan hscan
      unfold switches
      dsimp only
      omega

/-- Where taking fails, nothing is gained. -/
theorem switches_error {e : SyntaxError} (h : stream.next = (.error e, after)) :
    after.switches ≤ stream.switches := by
  obtain ⟨cursor, pending⟩ := stream
  cases pending with
  | cons first pending => cases h
  | nil =>
    have hafter : after = ⟨cursor.scan.2, []⟩ := (congrArg Prod.snd h).symm
    rw [hafter]
    exact Nat.add_le_add_left (Cursor.switchesIn_scan_le cursor) _

end TokenStream

namespace Parser

/-! ## Unfinished switches -/

/-- Run from a state, `x` fails inside of this many switches, not counting those in the body of
    a function that it is in. -/
inductive Unfinished : {α : Type} → Parse α → Parser → Nat → Prop where
  | throw {α : Type} (halt : Halt SyntaxError) (p : Parser) : Unfinished (throw halt : Parse α) p 0
  | take {p : Parser} {e : SyntaxError} {after : TokenStream}
    (error : p.tokens.next = (.error e, after)) : Unfinished take p 0
  | first {α β : Type} {x : Parse α} {p : Parser} {n : Nat} (f : α → Parse β)
    (fails : Unfinished x p n) : Unfinished (x >>= f) p n
  /-- What was read before the failure has left the count alone. -/
  | rest {α β : Type} {x : Parse α} {f : α → Parse β} {p q : Parser} {a : α} {n : Nat}
    (gives : x p = .ok a q) (same : q.breakable = p.breakable) (fails : Unfinished (f a) q n) :
    Unfinished (x >>= f) p n
  /-- The groups of a switch: where they fail, the switch is not finished. -/
  | inSwitch {α β : Type} {x : Parse α} {p : Parser} {n : Nat} (f : α → Parse β)
    (fails : Unfinished x { p with breakable := p.breakable + 1 } n) :
    Unfinished (do
      modify fun parser => { parser with breakable := parser.breakable + 1 }
      x >>= f) p (n + 1)
  /-- The body of a loop, which gives the count back in any case. -/
  | inLoop {α : Type} {x : Parse α} {p : Parser} {n : Nat}
    (fails : Unfinished x { p with breakable := p.breakable + 1 } n) :
    Unfinished (do
      modify fun parser => { parser with breakable := parser.breakable + 1 }
      afterwards x fun parser => { parser with breakable := parser.breakable - 1 }) p n
  /-- The body of a function: the switches in it are forgotten with it. -/
  | inFunction {α : Type} {x : Parse α} {p : Parser} {n : Nat}
    (fails : Unfinished x { p with breakable := 0 } n) :
    Unfinished (fun parser =>
      afterwards x (fun after => { after with breakable := parser.breakable })
        { parser with breakable := 0 }) p 0
  /-- Taking as much fuel as what is left calls for. -/
  | fueled {α : Type} {x : Nat → Parse α} {p : Parser} {n : Nat}
    (fails : Unfinished (x p.fuel) p n) : Unfinished (fun parser => x parser.fuel parser) p n

/-- Each switch that is not finished has raised the count by one.  Induction on where it fails. -/
theorem Unfinished.fails {α : Type} {x : Parse α} {p : Parser} {n : Nat} (h : Unfinished x p n) :
    ∃ halt q, x p = .error halt q ∧ q.breakable = p.breakable + n := by
  induction h with
  | throw halt p => exact ⟨halt, p, rfl, rfl⟩
  | @take p e after error =>
    refine ⟨.failed e, { p with tokens := after }, ?_, rfl⟩
    unfold Parser.take
    rw [error]
  | first f _ ih =>
    obtain ⟨halt, q, hresult, hcount⟩ := ih
    exact ⟨halt, q, EStateM.bind_of_error hresult, hcount⟩
  | rest gives same _ ih =>
    obtain ⟨halt, q, hresult, hcount⟩ := ih
    refine ⟨halt, q, ?_, same ▸ hcount⟩
    rw [EStateM.bind_of_ok gives]
    exact hresult
  | @inSwitch _ _ x p n f _ ih =>
    obtain ⟨halt, q, hresult, hcount⟩ := ih
    refine ⟨halt, q, ?_, by dsimp only at hcount; omega⟩
    show (x >>= f) { p with breakable := p.breakable + 1 } = _
    exact EStateM.bind_of_error hresult
  | @inLoop _ x p n _ ih =>
    obtain ⟨halt, q, hresult, hcount⟩ := ih
    refine ⟨halt, { q with breakable := q.breakable - 1 }, ?_, by dsimp only at hcount ⊢; omega⟩
    show afterwards x _ { p with breakable := p.breakable + 1 } = _
    unfold afterwards
    rw [hresult]
  | @inFunction _ x p n _ ih =>
    obtain ⟨halt, q, hresult, hcount⟩ := ih
    refine ⟨halt, { q with breakable := p.breakable }, ?_, rfl⟩
    unfold afterwards
    dsimp only
    rw [hresult]
  | fueled _ ih => exact ih

/-! ## The judgement -/

/-- Where a parser that fails leaves the state, with so much credit at first and so many switches
    unfinished. -/
structure Strays (raising : Bool) (held n : Nat) (p q : Parser) : Prop where
  count : q.breakable = p.breakable + n
  paid : n + q.tokens.switches ≤ p.tokens.switches + held
  steady : raising = false → n = 0

/-- If `x` succeeds, the count is what it was, and what `x` gives and the credit left satisfy `Q`;
    if it fails, it has credit for the switches it leaves unfinished. -/
def Counts {α : Type} (raising : Bool) (held : Nat) (x : Parse α) (Q : Nat → α → Prop) : Prop :=
  ∀ p, match x p with
    | .ok a q => q.breakable = p.breakable ∧
      ∃ rest, q.tokens.switches + rest ≤ p.tokens.switches + held ∧ Q rest a
    | .error _ q => ∃ n, Unfinished x p n ∧ Strays raising held n p q

/-- The case in which nothing but the failures matters, and which needs no credit at first. -/
def Tame {α : Type} (raising : Bool) (x : Parse α) : Prop :=
  Counts raising 0 x fun _ _ => True

/-- What a turn of a loop leaves. -/
def TurnCounts {α σ : Type} (I : Nat → σ → Prop) (Q : Nat → α → Prop) : Nat → Turn σ α → Prop
  | rest, .again s => I rest s
  | rest, .done a => Q rest a

variable {α β σ : Type} {raising : Bool} {held : Nat} {x : Parse α} {f : α → Parse β}
  {Q : Nat → α → Prop} {R : Nat → β → Prop} {e : SyntaxError} {p q : Parser}

/-- A parser that has done nothing has not strayed. -/
theorem Strays.refl (raising : Bool) (held : Nat) (p : Parser) : Strays raising held 0 p p :=
  ⟨rfl, by omega, fun _ => rfl⟩

/-- What follows a success strays from where that has led. -/
theorem Strays.after {middle : Parser} {rest n : Nat} (h : Strays raising rest n middle q)
    (hcount : middle.breakable = p.breakable)
    (hpaid : middle.tokens.switches + rest ≤ p.tokens.switches + held) :
    Strays raising held n p q :=
  ⟨hcount ▸ h.count, by have := h.paid; omega, h.steady⟩

namespace Counts

/-! ## Putting parsers together -/

theorem pure {a : α} (h : Q held a) : Counts raising held (pure a) Q :=
  fun _ => ⟨rfl, held, Nat.le_refl _, h⟩

/-- To fail at once leaves no switch unfinished. -/
theorem fail : Counts raising held (Tao.fail e) Q :=
  fun p => ⟨0, .throw _ p, .refl raising held p⟩

theorem outOfFuel : Counts raising held (throw .outOfFuel) Q :=
  fun p => ⟨0, .throw _ p, .refl raising held p⟩

/-- One after the other.  Where the second part fails, credit spent in the first is still counted
    from the beginning. -/
theorem bind (hx : Counts raising held x Q)
    (hf : ∀ rest a, Q rest a → Counts raising rest (f a) R) :
    Counts raising held (x >>= f) R := by
  intro p
  rw [EStateM.bind_apply]
  have hfirst := hx p
  cases hresult : x p with
  | error halt q =>
    rw [hresult] at hfirst
    obtain ⟨n, hunfinished, hstrays⟩ := hfirst
    exact ⟨n, hunfinished.first f, hstrays⟩
  | ok a middle =>
    rw [hresult] at hfirst
    obtain ⟨hcount, rest, hpaid, hq⟩ := hfirst
    have hlast := hf rest a hq middle
    dsimp only
    cases hnext : f a middle with
    | error halt q =>
      rw [hnext] at hlast
      obtain ⟨n, hunfinished, hstrays⟩ := hlast
      exact ⟨n, hunfinished.rest hresult hcount, hstrays.after hcount hpaid⟩
    | ok b q =>
      rw [hnext] at hlast
      obtain ⟨hcount', rest', hpaid', hr⟩ := hlast
      exact ⟨hcount'.trans hcount, rest', by omega, hr⟩

theorem failBind : Counts raising held (Tao.fail e >>= f) R :=
  (fail (Q := fun _ _ => False)).bind fun _ _ h => h.elim

theorem imp {R : Nat → α → Prop} (hx : Counts raising held x Q)
    (h : ∀ rest a, Q rest a → R rest a) : Counts raising held x R := by
  intro p
  have hfirst := hx p
  cases hresult : x p with
  | error halt q =>
    rw [hresult] at hfirst
    exact hfirst
  | ok a q =>
    rw [hresult] at hfirst
    obtain ⟨hcount, rest, hpaid, hq⟩ := hfirst
    exact ⟨hcount, rest, hpaid, h rest a hq⟩

/-- A loop.  Induction on the turns that are left. -/
theorem iterate {turn : σ → Parse (Turn σ α)} {I : Nat → σ → Prop}
    (hturn : ∀ held s, I held s → Counts raising held (turn s) (TurnCounts I Q))
    {s : σ} (hs : I held s) {fuel : Nat} : Counts raising held (Tao.iterate fuel turn s) Q := by
  induction fuel generalizing held s with
  | zero => exact .outOfFuel
  | succ fuel ih =>
    refine (hturn held s hs).bind fun rest t ht => ?_
    cases t with
    | again s => exact ih ht
    | done a => exact .pure ht

/-- Credit that is at hand besides is left. -/
theorem frame (h : Tame raising x) : Counts raising held x fun rest _ => rest = held := by
  intro p
  have hx := h p
  cases hresult : x p with
  | error halt q =>
    rw [hresult] at hx
    obtain ⟨n, hunfinished, hcount, hpaid, hsteady⟩ := hx
    exact ⟨n, hunfinished, hcount, by omega, hsteady⟩
  | ok a q =>
    rw [hresult] at hx
    obtain ⟨hcount, rest, hpaid, -⟩ := hx
    exact ⟨hcount, held, by omega, rfl⟩

/-! ## Tokens -/

/-- A token that is taken is credit at hand. -/
theorem take : Counts raising held take fun rest token => rest = held + token.switches := by
  intro p
  unfold Parser.take
  cases hnext : p.tokens.next with
  | mk result after =>
    cases result with
    | error e =>
      have hcount := TokenStream.switches_error hnext
      exact ⟨0, .take hnext, rfl, by dsimp only; omega, fun _ => rfl⟩
    | ok token =>
      have hcount := TokenStream.switches_next hnext
      exact ⟨rfl, held + token.switches, by dsimp only; omega, rfl⟩

/-- To hand a token back takes its credit. -/
theorem putBack (token : Token) :
    Counts raising (held + token.switches) (putBack token) fun rest _ => rest = held := by
  intro p
  have hcount := p.tokens.switches_putBack token
  exact ⟨rfl, held, by dsimp only; omega, rfl⟩

theorem takeBind {f : Token → Parse β}
    (hf : ∀ token, Counts raising (held + token.switches) (f token) R) :
    Counts raising held (Parser.take >>= f) R :=
  take.bind fun _ token h => h ▸ hf token

theorem putBackBind {token : Token} {f : Unit → Parse β} (hf : Counts raising held (f ()) R) :
    Counts raising (held + token.switches) (Parser.putBack token >>= f) R :=
  (putBack token).bind fun _ _ h => h ▸ hf

end Counts

/-! ## Parsers that need no credit -/

namespace Tame

/-- What needs no credit may be run with any. -/
theorem counts (h : Tame raising x) : Counts raising held x fun _ _ => True :=
  (Counts.frame h).imp fun _ _ _ => trivial

theorem pure {a : α} : Tame raising (pure a : Parse α) := Counts.pure trivial

theorem fail : Tame raising (Tao.fail e : Parse α) := Counts.fail

theorem outOfFuel : Tame raising (throw .outOfFuel : Parse α) := Counts.outOfFuel

theorem bind (hx : Tame raising x) (hf : ∀ a, Tame raising (f a)) : Tame raising (x >>= f) :=
  Counts.bind hx fun _ a _ => (hf a).counts

theorem failBind : Tame raising (Tao.fail e >>= f) := Counts.failBind

theorem map {g : α → β} (hx : Tame raising x) : Tame raising (g <$> x) := hx.bind fun _ => .pure

theorem iterate {turn : σ → Parse (Turn σ α)} (hturn : ∀ s, Tame raising (turn s)) {s : σ}
    {fuel : Nat} : Tame raising (Tao.iterate fuel turn s) := by
  refine Counts.iterate (I := fun _ _ => True) (fun held s _ => ?_) trivial
  refine (hturn s).counts.imp fun rest t _ => ?_
  cases t <;> trivial

/-- Looking at the count. -/
theorem getBind {f : Parser → Parse β} (hf : ∀ p, Tame raising (f p)) :
    Tame raising (get >>= f) := by
  intro p
  have hlast := hf p p
  show match f p p with | .ok a q => _ | .error _ q => _
  cases hresult : f p p with
  | error halt q =>
    rw [hresult] at hlast
    obtain ⟨n, hunfinished, hstrays⟩ := hlast
    exact ⟨n, .rest rfl rfl hunfinished, hstrays⟩
  | ok a q =>
    rw [hresult] at hlast
    exact hlast

/-- With the fuel of an entry point. -/
theorem fueled {x : Nat → Parse α} (h : ∀ fuel, Tame raising (x fuel)) :
    Tame raising fun parser => x parser.fuel parser := by
  intro p
  have hx := h p.fuel p
  dsimp only
  cases hresult : x p.fuel p with
  | ok a q =>
    rw [hresult] at hx
    exact hx
  | error halt q =>
    rw [hresult] at hx
    obtain ⟨n, hunfinished, hstrays⟩ := hx
    exact ⟨n, .fueled hunfinished, hstrays⟩

theorem take : Tame raising take := Counts.take.imp fun _ _ _ => trivial

theorem peek : Tame raising peek :=
  Counts.takeBind fun _ => .putBackBind <| .pure trivial

theorem nextIs (kind : Kind) : Tame raising (nextIs kind) := peek.bind fun _ => .pure

theorem takeIf (kind : Kind) : Tame raising (takeIf kind) := by
  refine Counts.takeBind fun token => ?_
  split
  · exact .pure trivial
  · exact .putBackBind <| .pure trivial

theorem expect (kind : Kind) : Tame raising (expect kind) := by
  refine take.bind fun token => ?_
  split
  · exact .pure
  · exact .fail

theorem expectName : Tame raising expectName := (expect .identifier).bind fun _ => .pure

end Tame

/-! ## The count around statements -/

/-- A loop lowers the count again, however its body ends. -/
theorem Tame.lowered (hx : Tame true x) : Tame true (do
    modify fun parser => { parser with breakable := parser.breakable + 1 }
    afterwards x fun parser => { parser with breakable := parser.breakable - 1 }) := by
  intro p
  have hinside := hx { p with breakable := p.breakable + 1 }
  show match afterwards x (fun parser => { parser with breakable := parser.breakable - 1 })
    { p with breakable := p.breakable + 1 } with | .ok a q => _ | .error _ q => _
  unfold afterwards
  cases hresult : x { p with breakable := p.breakable + 1 } with
  | error halt q =>
    rw [hresult] at hinside
    obtain ⟨n, hunfinished, hcount, hpaid, -⟩ := hinside
    exact ⟨n, .inLoop hunfinished, by dsimp only at hcount ⊢; omega, hpaid, nofun⟩
  | ok a q =>
    rw [hresult] at hinside
    obtain ⟨hcount, hpaid⟩ := hinside
    exact ⟨by dsimp only at hcount ⊢; omega, hpaid⟩

/-- A function restores the count, however its body ends. -/
theorem Tame.restored (hx : Tame true x) : Tame raising fun parser =>
    afterwards x (fun after => { after with breakable := parser.breakable })
      { parser with breakable := 0 } := by
  intro p
  have hinside := hx { p with breakable := 0 }
  dsimp only
  unfold afterwards
  cases hresult : x { p with breakable := 0 } with
  | error halt q =>
    rw [hresult] at hinside
    obtain ⟨n, hunfinished, -, hpaid, -⟩ := hinside
    exact ⟨0, .inFunction hunfinished, rfl, by dsimp only at hpaid ⊢; omega, fun _ => rfl⟩
  | ok a q =>
    rw [hresult] at hinside
    exact ⟨rfl, hinside.2⟩

/-- A switch lowers the count again if it is complete; if not, it has spent a credit. -/
theorem Counts.raised (hx : Tame true x) (hf : ∀ a p, ∃ b,
    f a p = .ok b { p with breakable := p.breakable - 1 }) : Counts true 1 (do
      modify fun parser => { parser with breakable := parser.breakable + 1 }
      x >>= f) fun _ _ => True := by
  intro p
  have hinside := hx { p with breakable := p.breakable + 1 }
  show match (x >>= f) { p with breakable := p.breakable + 1 } with | .ok a q => _ | .error _ q => _
  rw [EStateM.bind_apply]
  cases hresult : x { p with breakable := p.breakable + 1 } with
  | error halt q =>
    rw [hresult] at hinside
    obtain ⟨n, hunfinished, hcount, hpaid, -⟩ := hinside
    dsimp only at hcount hpaid
    exact ⟨n + 1, .inSwitch f hunfinished, by omega, by omega, nofun⟩
  | ok a q =>
    rw [hresult] at hinside
    obtain ⟨hcount, rest, hpaid, -⟩ := hinside
    obtain ⟨b, hb⟩ := hf a q
    dsimp only at hcount hpaid ⊢
    rw [hb]
    exact ⟨by dsimp only; omega, rest, by dsimp only; omega, trivial⟩

end Parser

end Tao
