/-
  Scripts concatenate.

  A script followed by a newline and another text is the script and then whatever the other text is.
  There are two parts to it, and each compares two parsers by a bond.

    * While a script is read, it makes no difference that the text goes on in a new line after its
      end (`Bond.goesOn`).  The parser of the shorter text may come to the end of the text in a
      place where the other one reads on.  From there it is alone; it is offered only what closes
      nothing, so it does not finish a statement that may stand outside of a function, and it fails.
    * What is left then is the second text some lines FURTHER DOWN (`Bond.further`), and it is read
      as it would be by itself, with all positions that many lines further down.
-/
import Tao.Proofs.Parser.Abreast.Script
import Tao.Proofs.Parser.Canonical
import Tao.Proofs.Parser.Tidy
import Tao.Proofs.Scanner.Moved

namespace Tao

open Tao.Parser

variable {text more : List Char}

/-! ## Text that goes on -/

/-- The right stream stands in a text that goes on in a new line, where the left one stands in the
    text without that.  No end of the text is pending. -/
structure GoesOn (text more : List Char) (s s' : TokenStream) : Prop where
  pending : s'.pending = s.pending
  endless : ∀ t ∈ s.pending, t.kind ≠ .eof
  cursor : ∃ before rest, text = before ++ rest ∧ s.cursor = ⟨rest, .behind before⟩ ∧
    s'.cursor = ⟨rest ++ '\n' :: more, .behind before⟩

/-- The place in a longer text where the shorter one and a newline have been read, but for the gap
    after the last token. -/
structure AtLineAfter (text more : List Char) (s : TokenStream) : Prop where
  pending : s.pending = []
  cursor : Cursor.skipGap s.cursor.rest s.cursor.position =
    Cursor.skipGap more (.behind (text ++ ['\n']))

/-- Both streams offer the same token, up to the end of the shorter text. -/
theorem GoesOn.next {s s' next : TokenStream} {t : Token} (h : GoesOn text more s s')
    (hnext : s.next = (.ok t, next)) :
    (t.kind ≠ .eof ∧ ∃ next', s'.next = (.ok t, next') ∧ GoesOn text more next next') ∨
    (t.kind = .eof ∧ next.cursor.rest = [] ∧ next.pending = [] ∧ AtLineAfter text more s') := by
  obtain ⟨_, _⟩ := s
  obtain ⟨_, pending⟩ := s'
  obtain ⟨rfl, hpending, before, rest, rfl, rfl, rfl⟩ := h
  cases pending with
  | cons first pending =>
    -- a token that was handed back is the same on both sides
    cases hnext
    obtain ⟨hfirst, hothers⟩ := List.forall_mem_cons.1 hpending
    exact .inl ⟨hfirst, _, rfl, rfl, hothers, before, rest, rfl, rfl, rfl⟩
  | nil =>
    unfold TokenStream.next at hnext
    dsimp only at hnext
    cases hscan : Cursor.scan ⟨rest, .behind before⟩ with
    | mk result after =>
      rw [hscan] at hnext
      cases hnext
      rcases Cursor.scan_goesOn hscan more with
        ⟨heof, hafter, hgap⟩ | ⟨hmore, taken, hrest, hposition, hright⟩
      · refine .inr ⟨heof, hafter, rfl, rfl, ?_⟩
        rw [Cursor.skipGap_lastGap hgap, Position.afterText_behind, List.append_assoc]
      · refine .inl ⟨hmore, ⟨⟨after.rest ++ '\n' :: more, after.position⟩, []⟩, ?_, rfl,
          fun _ ht => absurd ht List.not_mem_nil, before ++ taken, after.rest, ?_, ?_, ?_⟩
        · unfold TokenStream.next
          dsimp only
          rw [hright]
        · rw [List.append_assoc, ← hrest]
        · rw [← hposition]
        · rw [hposition]

/-- What is put back comes before the text, which still goes on. -/
theorem GoesOn.putBack {s s' : TokenStream} (h : GoesOn text more s s') {t : Token}
    (ht : t.kind ≠ .eof) : GoesOn text more (s.putBack t) (s'.putBack t) :=
  ⟨congrArg (t :: ·) h.pending, List.forall_mem_cons.2 ⟨ht, h.endless⟩, h.cursor⟩

/-- The text has come to its end, and what is pending closes nothing. -/
structure AtEnd (s : TokenStream) : Prop where
  rest : s.cursor.rest = []
  pending : ∀ t ∈ s.pending, t.kind.closes = false

/-- At the end there is nothing but the end. -/
theorem AtEnd.next {s next : TokenStream} {t : Token} (h : AtEnd s)
    (hnext : s.next = (.ok t, next)) : AtEnd next ∧ t.kind.closes = false := by
  obtain ⟨⟨rest, p⟩, pending⟩ := s
  obtain ⟨rfl, hpending⟩ := h
  cases pending with
  | cons first pending =>
    cases hnext
    obtain ⟨hfirst, hothers⟩ := List.forall_mem_cons.1 hpending
    exact ⟨⟨rfl, hothers⟩, hfirst⟩
  | nil =>
    cases hnext
    exact ⟨⟨rfl, fun _ ht => absurd ht List.not_mem_nil⟩, rfl⟩

namespace Bond

/-- The left parser reads a text, and the right one a text that goes on in a new line after it. -/
def goesOn (text more : List Char) : Bond where
  together := GoesOn text more
  alone := AtEnd
  token := (· = ·)
  error _ _ := True
  lenient := True
  endsTogether := False
  lexeme_eq := congrArg Token.lexeme
  error_of_token _ _ := trivial
  lenient_of_alone _ := trivial
  next_together := by
    intro s s' t next h hnext
    rcases h.next hnext with ⟨hmore, next', hnext', hnexts⟩ | ⟨heof, hrest, hpending, -⟩
    · exact .inl ⟨t, next', hnext', rfl, fun heof => absurd heof hmore, hnexts⟩
    · refine .inr ⟨⟨hrest, ?_⟩, rfl, ?_⟩
      · rw [hpending]
        exact fun _ ht => absurd ht List.not_mem_nil
      · rw [heof]
        rfl
  next_error _ _ := .inl trivial
  putBack_together := by
    rintro s s' t _ h rfl hends
    exact h.putBack hends
  next_alone h hnext := ⟨(h.next hnext).1, rfl, (h.next hnext).2⟩
  putBack_alone h hcloses := ⟨h.rest, List.forall_mem_cons.2 ⟨hcloses, h.pending⟩⟩

/-! ## Text further down -/

/-- The right parser reads what the left one reads, so many lines further down.  Gaps that are not
    yet skipped may differ. -/
def further (lines : Nat) : Bond where
  together s s' := s'.pending = s.pending.map (Token.down lines) ∧
    Cursor.skipGap s'.cursor.rest s'.cursor.position =
      (Cursor.skipGap s.cursor.rest s.cursor.position).down lines
  alone _ := False
  token t t' := t' = t.down lines
  error e e' := e' = e.down lines
  lenient := False
  endsTogether := True
  lexeme_eq := by
    rintro t _ rfl
    rfl
  error_of_token := by
    rintro t _ rfl cause
    rfl
  lenient_of_alone := id
  next_together := by
    rintro ⟨cursor, pending⟩ ⟨cursor', _⟩ t next ⟨rfl, hcursor⟩ hnext
    refine .inl ?_
    cases pending with
    | cons first pending =>
      cases hnext
      exact ⟨t.down lines, _, rfl, rfl, fun _ => trivial, rfl, hcursor⟩
    | nil =>
      have hscan := Cursor.scan_down hcursor
      unfold TokenStream.next at hnext ⊢
      dsimp only [List.map_nil] at hnext hscan ⊢
      obtain ⟨hresult, rfl⟩ := Prod.mk.inj hnext
      rw [hscan, hresult]
      refine ⟨t.down lines, _, rfl, rfl, fun _ => trivial, rfl, ?_⟩
      exact Cursor.skipGap_down _ _
  next_error := by
    rintro ⟨cursor, pending⟩ ⟨cursor', _⟩ e next ⟨rfl, hcursor⟩ hnext
    refine .inr ?_
    cases pending with
    | cons first pending => cases hnext
    | nil =>
      have hscan := Cursor.scan_down hcursor
      unfold TokenStream.next at hnext ⊢
      dsimp only [List.map_nil] at hnext hscan ⊢
      obtain ⟨hresult, rfl⟩ := Prod.mk.inj hnext
      rw [hscan, hresult]
      exact ⟨e.down lines, _, rfl, rfl⟩
  putBack_together := by
    rintro ⟨_, pending⟩ ⟨_, _⟩ t _ ⟨rfl, hcursor⟩ rfl _
    exact ⟨rfl, hcursor⟩
  next_alone := False.elim
  putBack_alone h _ := h

end Bond

/-! ## The first text -/

variable {g g' : Grammar} {turns : Nat} {read : List Statement} {p p' q : Parser}
  {program : Program}

/-- A turn at a token that is not the end of the text is a statement. -/
theorem Grammar.scriptTurn_of_next (g : Grammar) (read : List Statement) {t : Token}
    {next : TokenStream}
    (hnext : p.tokens.next = (.ok t, next)) (hmore : t.kind ≠ .eof) :
    g.scriptTurn read p =
      match g.statement { p with tokens := next.putBack t } with
      | .ok s q =>
        match s with
        | .define .. | .function _ | .empty => .ok (.again (s :: read)) q
        | _ => .error (.failed ⟨.misplacedStatement, t.position⟩) q
      | .error halt q => .error halt q := by
  unfold Grammar.scriptTurn
  rw [EStateM.bind_apply, peek_of_next hnext]
  dsimp only
  rw [if_neg hmore, EStateM.bind_apply]
  cases g.statement { p with tokens := next.putBack t } with
  | error halt q => rfl
  | ok s q => cases s <;> rfl

/-- While the first text is read, the right parser does as the left one.  Then it stands where the
    other text begins, with as many turns left as it has not taken.  Induction on the turns of the
    left one. -/
theorem scriptTurns_goesOn (h : (Bond.goesOn text more).Joins g g')
    (hgives : ∀ n, Gives n n g'.statement fun _ => True)
    (htogether : GoesOn text more p.tokens p'.tokens)
    (hcount : p.breakable = p'.breakable) (hleft : 2 * p.tokens.left + 2 ≤ g.bound)
    (hrun : iterate turns g.scriptTurn read p = .ok program q) :
    ∃ used q', used < turns ∧ AtLineAfter text more q'.tokens ∧ q'.breakable = p'.breakable ∧
      ∀ turns',
        iterate (turns' + used) g'.scriptTurn read p' =
          iterate turns' g'.scriptTurn program.statements.reverse q' := by
  induction turns generalizing read p p' with
  | zero => cases hrun
  | succ turns ih =>
    unfold Tao.iterate at hrun
    rw [EStateM.bind_apply] at hrun
    cases hnext : p.tokens.next with
    | mk result next =>
      cases result with
      | error e =>
        unfold Grammar.scriptTurn at hrun
        rw [EStateM.bind_apply, peek_of_error hnext] at hrun
        cases hrun
      | ok t =>
        -- both have the same token next, unless it is the end of the shorter text
        rcases htogether.next hnext with ⟨hmore, next', hnext', hnexts⟩ | ⟨heof, -, -, hline⟩
        · have hturn' := g'.scriptTurn_of_next read hnext' hmore
          have hback := TokenStream.left_putBack next t
          have htaken := TokenStream.left_next hnext
          have hends := h.statement .together (next.putBack t).left (by omega)
            { p with tokens := next.putBack t } { p' with tokens := next'.putBack t }
            ⟨hnexts.putBack hmore, hcount⟩ rfl
          rw [g.scriptTurn_of_next read hnext hmore] at hrun
          cases hs : g.statement { p with tokens := next.putBack t } with
          | error halt after =>
            rw [hs] at hrun
            cases hrun
          | ok s after =>
            rw [hs] at hrun hends
            have hdefinition : s.IsDefinition ∧
                iterate turns g.scriptTurn (s :: read) after = .ok program q := by
              cases s with
              | define | function | empty => exact ⟨trivial, hrun⟩
              | _ => cases hrun
            obtain ⟨hdefinition, hrun⟩ := hdefinition
            -- a definition is read by both, and never by the left parser alone
            rcases hends with ⟨-, s', after', hs', ⟨hafter, hcount⟩, rfl, hless, -⟩ |
              ⟨-, s', rfl, -, hmode⟩
            · obtain ⟨hbreakable, -⟩ := hgives _ _ s after' rfl hs'
              obtain ⟨used, q', hused, hline, hq', hturns⟩ := ih hafter hcount (by omega) hrun
              refine ⟨used + 1, q', by omega, hline, hq'.trans hbreakable, fun turns' => ?_⟩
              have hagain : g'.scriptTurn read p' = .ok (.again (s :: read)) after' := by
                rw [hturn', hs']
                cases s with
                | define | function | empty => rfl
                | _ => exact hdefinition.elim
              rw [← hturns turns', ← Nat.add_assoc, Tao.iterate, EStateM.bind_apply, hagain]
            · cases hmode hdefinition
        · unfold Grammar.scriptTurn at hrun
          rw [EStateM.bind_apply, peek_of_next hnext] at hrun
          dsimp only at hrun
          rw [if_pos heof] at hrun
          cases hrun
          refine ⟨0, p', Nat.zero_lt_succ _, hline, rfl, fun turns' => ?_⟩
          rw [List.reverse_reverse]
          rfl

/-! ## The second text -/

/-- Where the second text begins, it is read as it would be by itself, only further down. -/
theorem AtLineAfter.further {p : Parser} (h : AtLineAfter text more p.tokens)
    (hcount : p.breakable = 0) :
    (Bond.further (1 + text.count '\n')).At .together ⟨⟨⟨more, .start⟩, []⟩, 0⟩ p := by
  have hposition :
      Position.behind (text ++ ['\n']) = Position.start.down (1 + text.count '\n') := by
    unfold Position.behind Position.down Position.start
    simp
    omega
  refine ⟨⟨h.pending, ?_⟩, hcount.symm⟩
  rw [h.cursor, hposition]
  exact Cursor.skipGap_down more .start

/-! ## Both texts -/

/-- More levels never need fewer stacks. -/
theorem fullStacks_mono {n n' : Nat} (h : n ≤ n') : fullStacks n ≤ fullStacks n' := by
  have hstacks : n / levelsPerStack ≤ n' / levelsPerStack := Nat.div_le_div_right h
  unfold fullStacks
  exact Nat.sub_le_sub_right (Nat.mul_le_mul_right _ (Nat.succ_le_succ hstacks)) 1

/-- Fuel enough for a text by itself. -/
def fuelFor (text : List Char) : Nat := fullStacks (4 * text.length + 8)

/-- The fuel for a text is at least what its length asks for. -/
theorem le_fuelFor (text : List Char) : 4 * text.length + 8 ≤ fuelFor text := le_fullStacks _

/-- The parser at the beginning of a text. -/
def startOf (text : List Char) : Parser := ⟨⟨⟨text, .start⟩, []⟩, 0⟩

/-- Parsing is the loop over definitions, run from the beginning of the text. -/
theorem parse_eq (text : String) :
    parse text =
      match iterate (fuelFor text.toList) (Grammar.ofFuel (fuelFor text.toList)).scriptTurn []
        (startOf text.toList) with
      | .ok program _ => .ok program
      | .error halt _ => .error halt := by
  have hfuel : (Parser.ofText text).fuel = fuelFor text.toList := by
    unfold Parser.fuel TokenStream.remaining fuelFor
    rw [show (Parser.ofText text).tokens.pending.length = 0 from rfl, Nat.zero_add]
    rfl
  unfold parse Parser.script
  rw [hfuel, Grammar.script_eq]
  rfl

/-- No more turns are taken than there are characters, and one. -/
theorem scriptTurns_same (text : List Char) :
    Bond.same.Abreast .together text.length
      (iterate (text.length + 1) (Grammar.ofFuel (fuelFor text)).scriptTurn [])
      (iterate (fuelFor text) (Grammar.ofFuel (fuelFor text)).scriptTurn [])
      fun _ _ program program' => program'.statements = program.statements := by
  have hfuel := le_fuelFor text
  have hjoins := Bond.same.joins_ofFuel (Nat.le_refl (fuelFor text))
  have hbound : 2 * text.length + 2 ≤ (Grammar.ofFuel (fuelFor text)).bound :=
    Nat.le_trans (by omega) hfuel
  exact hjoins.script hbound [] [] (Nat.lt_succ_self _) (by omega)

theorem left_startOf (text : List Char) : (startOf text).tokens.left = text.length :=
  Nat.zero_add _

/-- What is accepted is accepted within as many turns as there are characters, and one more. -/
theorem exists_of_parse_ok {text : String} {program : Program} (h : parse text = .ok program) :
    ∃ q, iterate (text.toList.length + 1) (Grammar.ofFuel (fuelFor text.toList)).scriptTurn []
      (startOf text.toList) = .ok program q := by
  rw [parse_eq] at h
  split at h
  · next found q hrun =>
    cases h
    obtain ⟨⟨statements⟩, hok, rfl⟩ :=
      Bond.ok_of_same (scriptTurns_same text.toList) (left_startOf _) hrun
    exact ⟨q, hok⟩
  · cases h

/-- What is refused is refused within as many turns. -/
theorem exists_of_parse_failed {text : String} {e : SyntaxError}
    (h : parse text = .error (.failed e)) :
    ∃ q, iterate (text.toList.length + 1) (Grammar.ofFuel (fuelFor text.toList)).scriptTurn []
      (startOf text.toList) = .error (.failed e) q := by
  rw [parse_eq] at h
  split at h
  · cases h
  · next halt q hrun =>
    cases h
    exact Bond.failed_of_same (scriptTurns_same text.toList) (left_startOf _) hrun

/-- Reading a script and what follows it ends as reading what follows it does. -/
theorem ends_append {text : List Char} (more : List Char)
    (hrun : iterate (text.length + 1) (Grammar.ofFuel (fuelFor text)).scriptTurn [] (startOf text) =
      .ok program q) :
    (Bond.further (1 + text.count '\n')).Ends .together
      (fun _ _ next next' => next'.statements = program.statements ++ next.statements)
      (iterate (more.length + 1) (Grammar.ofFuel (fuelFor more)).scriptTurn [] (startOf more))
      (iterate (fuelFor (text ++ '\n' :: more))
        (Grammar.ofFuel (fuelFor (text ++ '\n' :: more))).scriptTurn []
        (startOf (text ++ '\n' :: more))) := by
  have hlength : (text ++ '\n' :: more).length = text.length + more.length + 1 := by simp; omega
  have hfuel := le_fuelFor text
  have hfuelMore := le_fuelFor more
  have hfuelWhole := le_fuelFor (text ++ '\n' :: more)
  have hle : fuelFor text ≤ fuelFor (text ++ '\n' :: more) := fullStacks_mono (by omega)
  have hleMore : fuelFor more ≤ fuelFor (text ++ '\n' :: more) := fullStacks_mono (by omega)
  have htogether : GoesOn text more (startOf text).tokens (startOf (text ++ '\n' :: more)).tokens :=
    ⟨rfl, fun _ ht => absurd ht List.not_mem_nil, [], text, rfl, rfl, rfl⟩
  have hgives : ∀ n, Gives n n (Grammar.ofFuel (fuelFor (text ++ '\n' :: more))).statement
      fun _ => True :=
    fun n => ((Grammar.tidy_ofFuel _).statement n).imp fun _ _ => trivial
  have hleft : 2 * (startOf text).tokens.left + 2 ≤ (Grammar.ofFuel (fuelFor text)).bound := by
    rw [left_startOf]
    exact Nat.le_trans (by omega) hfuel
  -- some of the turns read the first text, and those that are left read the rest by itself
  obtain ⟨used, q', hused, hline, hbreakable, hturns⟩ :=
    scriptTurns_goesOn ((Bond.goesOn text more).joins_ofFuel hle) hgives htogether rfl hleft hrun
  have hat := hline.further hbreakable
  have hjoins := (Bond.further (1 + text.count '\n')).joins_ofFuel hleMore
  have hbound : 2 * more.length + 2 ≤ (Grammar.ofFuel (fuelFor more)).bound :=
    Nat.le_trans (by omega) hfuelMore
  have hturns := hturns (fuelFor (text ++ '\n' :: more) - used)
  rw [Nat.sub_add_cancel (by omega)] at hturns
  rw [hturns]
  have hle : more.length + 1 ≤ fuelFor (text ++ '\n' :: more) - used := by omega
  have hends := hjoins.script hbound program.statements.reverse [] (Nat.lt_succ_self _) hle _ _ hat
    (left_startOf more)
  rwa [List.reverse_reverse] at hends

/-- **Scripts concatenate.**  A script, a newline and another text are a script with the statements
    of both if the other text is a script.  If that one fails, so does the whole, with the same
    cause, as many lines further down as the first text and the newline take. -/
theorem parse_append {first second : String} {program : Program} (h : parse first = .ok program) :
    (∀ next, parse second = .ok next →
      parse (first ++ "\n" ++ second) = .ok ⟨program.statements ++ next.statements⟩) ∧
    ∀ e, parse second = .error (.failed e) →
      parse (first ++ "\n" ++ second) = .error (.failed ⟨e.cause,
        ⟨e.position.line + 1 + first.toList.count '\n', e.position.column⟩⟩) := by
  obtain ⟨q, hrun⟩ := exists_of_parse_ok h
  have hends := ends_append second.toList hrun
  have hwhole : (first ++ "\n" ++ second).toList = first.toList ++ '\n' :: second.toList := by simp
  have hparse := parse_eq (first ++ "\n" ++ second)
  rw [hwhole] at hparse
  rw [hparse]
  constructor
  · intro next hnext
    obtain ⟨q', hok⟩ := exists_of_parse_ok hnext
    rw [hok] at hends
    rcases hends with ⟨-, ⟨statements⟩, last, hright, -, hstatements⟩ | ⟨halone, -⟩
    · obtain rfl : statements = program.statements ++ next.statements := hstatements
      rw [hright]
    · exact halone.elim
  · intro e he
    obtain ⟨q', hfailed⟩ := exists_of_parse_failed he
    rw [hfailed] at hends
    rcases hends rfl with hlenient | ⟨e', last, hright, rfl⟩
    · exact hlenient.elim
    · rw [hright, Nat.add_assoc]
      rfl

/-- A text that begins with no token fails at once. -/
theorem parse_of_scan_error {text : String} {e : SyntaxError}
    (h : (Cursor.ofText text).scan.1 = .error e) : parse text = .error (.failed e) := by
  obtain ⟨turns, hturns⟩ : ∃ turns, fuelFor text.toList = turns + 1 :=
    ⟨fuelFor text.toList - 1, by have := le_fuelFor text.toList; omega⟩
  have hnext : (startOf text.toList).tokens.next =
      (.error e, ⟨(Cursor.ofText text).scan.2, []⟩) := by
    rw [← h]
    rfl
  rw [parse_eq, hturns]
  unfold iterate Grammar.scriptTurn
  rw [EStateM.bind_apply, EStateM.bind_apply, peek_of_error hnext]

/-- A script that ends in a comment, before another script and before a text that is none. -/
theorem parse_append_comment :
    parse "let a ; // one" = .ok ⟨[.define "a" none]⟩ ∧
    parse ";" = .ok ⟨[.empty]⟩ ∧
    parse ("let a ; // one" ++ "\n" ++ ";") = .ok ⟨[.define "a" none] ++ [.empty]⟩ ∧
    parse " @" = .error (.failed ⟨.unexpectedCharacter '@', ⟨1, 2⟩⟩) ∧
    parse ("let a ; // one" ++ "\n" ++ " @") =
      .error (.failed ⟨.unexpectedCharacter '@', ⟨2, 2⟩⟩) := by
  have hname : IsName "a" := by decide
  have hblank : ∀ rest, BeginsBlank (' ' :: rest) := by
    rintro rest c ⟨⟩
    rfl
  have hnone : BeginsBlank [] := nofun
  have hlet : (Lexeme.mark .kwLet).IsLegal := .inr (by decide)
  have ha : (Lexeme.name "a").IsLegal := hname
  have hsemicolon : (Lexeme.mark .semicolon).IsLegal := .inl (by decide)
  have hcomment : Spelled [.mark .eof] " // one".toList :=
    .eof (.blank rfl (.lastComment (by decide)))
  have hspelled : Spelled [.mark .kwLet, .name "a", .mark .semicolon, .mark .eof]
      "let a ; // one".toList :=
    .lexeme hlet (hlet.endsBefore_of_beginsBlank (hblank _)) .none <|
      .lexeme ha (ha.endsBefore_of_beginsBlank (hblank _)) (.blank rfl .none) <|
        .lexeme hsemicolon (hsemicolon.endsBefore_of_beginsBlank (hblank _)) (.blank rfl .none)
          hcomment
  have hfirst : parse "let a ; // one" = .ok ⟨[.define "a" none]⟩ :=
    parse_of_written (.scriptStatement trivial (.define (.undefined hname)) .scriptEnd) hspelled
  have hsecond : parse ";" = .ok ⟨[.empty]⟩ :=
    parse_of_written (.scriptStatement trivial .empty .scriptEnd)
      (.lexeme hsemicolon (hsemicolon.endsBefore_of_beginsBlank hnone) .none (.eof .none))
  have hfails : parse " @" = .error (.failed ⟨.unexpectedCharacter '@', ⟨1, 2⟩⟩) :=
    parse_of_scan_error rfl
  exact ⟨hfirst, hsecond, (parse_append hfirst).1 _ hsecond, hfails,
    (parse_append hfirst).2 _ hfails⟩

end Tao
