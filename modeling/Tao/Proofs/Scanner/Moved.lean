/-
  Scanning does not depend on what stands around.

  Two things are said here about a text that is put somewhere else:

    * what is scanned some lines FURTHER DOWN is the same, and all positions are as many lines
      further down, those of errors included (`Cursor.scan_down`);
    * a token that is scanned is still scanned if the text goes on in a new line after its end
      (`Cursor.scan_goesOn`), since no lexeme but a string has a newline in it, and none is glued
      to one.

  In between stands the gap: what is left of a text without tokens, and the newline after it, are
  skipped before the text that follows (`Cursor.skipGap_lastGap`).
-/
import Tao.Proofs.Scanner.Munch

namespace Tao

/-! ## Further down -/

/-- The position so many lines further down. -/
def Position.down (lines : Nat) (p : Position) : Position := ⟨p.line + lines, p.column⟩

/-- The same text, standing so many lines further down. -/
def Cursor.down (lines : Nat) (cursor : Cursor) : Cursor :=
  ⟨cursor.rest, cursor.position.down lines⟩

/-- The same lexeme, so many lines further down. -/
def Token.down (lines : Nat) (token : Token) : Token := ⟨token.lexeme, token.position.down lines⟩

/-- The same error, reported so many lines further down. -/
def SyntaxError.down (lines : Nat) (e : SyntaxError) : SyntaxError :=
  ⟨e.cause, e.position.down lines⟩

/-- The same result of reading, so many lines further down. -/
def Cursor.readDown {α : Type} (lines : Nat) (read : Except SyntaxError α × Cursor) :
    Except SyntaxError α × Cursor :=
  (read.1.mapError (SyntaxError.down lines), read.2.down lines)

variable {text rest spelling : List Char} {lines : Nat} {p : Position}

namespace Position

theorem after_down (p : Position) (c : Char) : (p.down lines).after c = (p.after c).down lines := by
  unfold after down
  split
  · dsimp only
    rw [Nat.add_right_comm]
  · rfl

theorem afterText_down (p : Position) (text : List Char) :
    (p.down lines).afterText text = (p.afterText text).down lines := by
  induction text generalizing p with
  | nil => rfl
  | cons c text ih =>
    have hstep : ∀ q : Position, q.afterText (c :: text) = (q.after c).afterText text :=
      fun _ => rfl
    rw [hstep, hstep, after_down, ih]

end Position

namespace Cursor

/-- Where the gap in front of a text ends does not depend on the position. -/
theorem skipGap_down (text : List Char) (p : Position) :
    skipGap text (p.down lines) = (skipGap text p).down lines := by
  obtain ⟨gap, hleads, hgap, hnoGap⟩ := skipGap_spec text p
  have htext : text = gap ++ (skipGap text p).rest := hleads.rest
  generalize skipGap text p = here at hleads hgap hnoGap htext
  obtain ⟨rest, q⟩ := here
  have hposition : q = p.afterText gap := hleads.position
  dsimp only at htext hgap hnoGap
  subst htext
  rw [skipGap_append hgap hnoGap, Position.afterText_down, hposition]
  rfl

theorem readDigits_down (value : Nat) (text : List Char) (p : Position) :
    readDigits value text (p.down lines) =
      ((readDigits value text p).1, (readDigits value text p).2.down lines) := by
  induction text generalizing value p with
  | nil => rfl
  | cons c text ih =>
    unfold readDigits
    dsimp only
    split
    · split
      · rw [Position.after_down, ih]
      · rw [Position.after_down]
        rfl
    · rfl

/-- A string further down is the same string. -/
theorem readString_down (opening : Position) (read text : List Char) (p : Position) :
    readString (opening.down lines) read text (p.down lines) =
      readDown lines (readString opening read text p) := by
  fun_induction readString opening read text p with
  | case1 => rfl
  | case2 read text p =>
    rw [readString.eq_def]
    dsimp only
    rw [if_pos rfl, Position.after_down]
    rfl
  | case3 =>
    rw [readString.eq_def]
    dsimp only
    rw [if_neg (by decide), if_pos rfl, Position.after_down]
    rfl
  | case4 read p e text meant hmeant _ ih =>
    rw [readString.eq_def]
    dsimp only
    rw [if_neg (by decide), if_pos rfl, hmeant]
    dsimp only
    rw [Position.after_down, Position.after_down, ih]
  | case5 read p e text hmeant =>
    rw [readString.eq_def]
    dsimp only
    rw [if_neg (by decide), if_pos rfl, hmeant]
    dsimp only
    rw [Position.after_down, Position.after_down]
    rfl
  | case6 read c text p hquote hescape ih =>
    rw [readString.eq_def]
    dsimp only
    rw [if_neg hquote, if_neg hescape, Position.after_down, ih]

theorem unlessGlued_down (l : Lexeme) (cursor : Cursor) :
    unlessGlued l (cursor.down lines) = readDown lines (unlessGlued l cursor) := by
  obtain ⟨text, p⟩ := cursor
  cases text with
  | nil => rfl
  | cons c text =>
    unfold unlessGlued down
    dsimp only
    split
    · rfl
    · rfl

theorem readWord_down (text : List Char) (p : Position) :
    readWord text (p.down lines) = ((readWord text p).1, (readWord text p).2.down lines) := by
  unfold readWord
  dsimp only
  rw [Position.afterText_down]
  rfl

/-- Every lexeme is the same further down. -/
theorem readLexeme_down (cursor : Cursor) :
    (cursor.down lines).readLexeme = readDown lines cursor.readLexeme := by
  obtain ⟨text, p⟩ := cursor
  cases text with
  | nil => rfl
  | cons c text =>
    unfold readLexeme down
    dsimp only
    split
    · rw [readDigits_down]
      cases hread : readDigits 0 (c :: text) p with
      | mk found after =>
        cases found with
        | some value => exact unlessGlued_down _ after
        | none => rfl
    · split
      · rw [readWord_down]
        exact unlessGlued_down _ _
      · split
        · rw [Position.after_down, readString_down]
          cases hread : readString p [] text (p.after c) with
          | mk result after =>
            cases result with
            | ok contents => exact unlessGlued_down _ after
            | error e => rfl
        · split
          · rw [Position.afterText_down]
            rfl
          · rw [Position.after_down]
            rfl

/-- What is scanned further down is the same, further down. -/
theorem scan_down {cursor moved : Cursor}
    (h : skipGap moved.rest moved.position = (skipGap cursor.rest cursor.position).down lines) :
    moved.scan = readDown lines (cursor.scan.1.map (Token.down lines), cursor.scan.2) := by
  unfold scan
  dsimp only
  rw [h, readLexeme_down]
  generalize skipGap cursor.rest cursor.position = here
  cases hread : here.readLexeme with
  | mk result after =>
    cases result with
    | ok l => rfl
    | error e => rfl

end Cursor

/-! ## Going on after the end -/

variable {more : List Char}

/-- A gap may be made of two. -/
theorem Gap.trans {middle : List Char} (h : Gap text middle) (hmore : Gap middle rest) :
    Gap text rest := by
  induction h with
  | none => exact hmore
  | blank hblank _ ih => exact .blank hblank (ih hmore)
  | comment hline _ ih => exact .comment hline (ih hmore)
  | lastComment hline =>
    cases hmore with
    | none => exact .lastComment hline

/-- A gap at the end of a text is still one if the text goes on in a new line. -/
theorem Gap.goesOn (h : Gap text rest) (hrest : rest = []) (more : List Char) :
    Gap (text ++ '\n' :: more) more := by
  induction h with
  | none =>
    subst hrest
    exact .blank rfl .none
  | blank hblank _ ih => exact .blank hblank (ih hrest)
  | @comment line text rest hline _ ih =>
    have hgap := Gap.comment hline (ih hrest)
    simpa only [List.cons_append, List.append_assoc] using hgap
  | @lastComment line hline => exact .comment hline .none

/-- A gap that something follows is still one if more follows after that. -/
theorem Gap.before (h : Gap text rest) (hrest : rest ≠ []) (more : List Char) :
    Gap (text ++ more) (rest ++ more) := by
  induction h with
  | none => exact .none
  | blank hblank _ ih => exact .blank hblank (ih hrest)
  | @comment line text rest hline _ ih =>
    have hgap := Gap.comment hline (ih hrest)
    simpa only [List.cons_append, List.append_assoc] using hgap
  | lastComment => exact absurd rfl hrest

/-- What has no newline in it begins before a newline if it begins a text that goes on with one. -/
theorem prefix_of_noNewline {longer : List Char} (hnewline : '\n' ∉ longer)
    (hstarts : longer <+: text ++ '\n' :: more) : longer <+: text := by
  rcases Nat.lt_or_ge text.length longer.length with hlength | hlength
  · obtain ⟨middle, rfl⟩ : text <+: longer :=
      List.prefix_of_prefix_length_le (List.prefix_append _ _) hstarts (Nat.le_of_lt hlength)
    cases middle with
    | nil => simp at hlength
    | cons c middle =>
      have hhead := (List.prefix_append_right_inj text).1 hstarts
      obtain ⟨rfl, -⟩ := List.cons_prefix_cons.1 hhead
      exact absurd (List.mem_append_right text List.mem_cons_self) hnewline
  · exact List.prefix_of_prefix_length_le hstarts (List.prefix_append _ _) hlength

/-- No spelling but that of a string goes over a line. -/
theorem noNewline_of_spelling {longer : List Char}
    (h : IsOperator longer ∨ IsWord longer ∨ IsNumeral longer) : '\n' ∉ longer := by
  have hmarks : ∀ kind ∈ Kind.punctuation, '\n' ∉ kind.spelling.toList := by decide
  rcases h with ⟨kind, hkind, rfl⟩ | ⟨-, hword⟩ | ⟨-, hdigits⟩
  · exact hmarks kind hkind
  · intro hmem
    have hnot := hword _ hmem
    cases hnot
  · intro hmem
    have hnot := hdigits _ hmem
    cases hnot

/-- Where a lexeme stops it still does if the text goes on in a new line after its end. -/
theorem Lexeme.StopsBefore.goesOn {l : Lexeme} (h : l.StopsBefore spelling rest)
    (more : List Char) : l.StopsBefore spelling (rest ++ '\n' :: more) := by
  have hhead : ∀ c ∈ (rest ++ '\n' :: more).head?, c ∈ rest.head? ∨ c = '\n' := by
    intro c hc
    cases rest with
    | nil => exact .inr (Option.some.inj hc).symm
    | cons => exact .inl hc
  constructor
  · intro longer hlonger hstarts
    rw [← List.append_assoc] at hstarts
    exact h.longest longer hlonger (prefix_of_noNewline (noNewline_of_spelling hlonger) hstarts)
  · intro hslash hcomment
    rcases hhead '/' hcomment with hslash' | hnewline
    · exact h.noComment hslash hslash'
    · cases hnewline
  · intro hclosed c hc
    rcases hhead c hc with hc | rfl
    · exact h.noClash hclosed c hc
    · rfl

namespace Cursor

/-- What is left of a text without tokens is skipped together with the newline after it. -/
theorem skipGap_lastGap (h : Gap rest []) (more : List Char) (p : Position) :
    skipGap (rest ++ '\n' :: more) p = skipGap more (p.afterText (rest ++ ['\n'])) := by
  obtain ⟨gap, hleads, hgap, hnoGap⟩ := skipGap_spec more (p.afterText (rest ++ ['\n']))
  have hmore : more = gap ++ _ := hleads.rest
  have hposition := hleads.position
  generalize skipGap more (p.afterText (rest ++ ['\n'])) = here at *
  obtain ⟨found, q⟩ := here
  dsimp only at hmore hgap hnoGap hposition
  subst hmore
  have hwhole : rest ++ '\n' :: (gap ++ found) = (rest ++ ['\n'] ++ gap) ++ found := by simp
  have hgaps : Gap ((rest ++ ['\n'] ++ gap) ++ found) found := by
    rw [← hwhole]
    exact (h.goesOn rfl _).trans hgap
  rw [hwhole, skipGap_append hgaps hnoGap, Position.afterText_append, hposition]

/-- What is scanned of a text is scanned of any text that goes on in a new line after its end, up to
    the end of the shorter one. -/
theorem scan_goesOn {before : List Char} {token : Token} {after : Cursor}
    (h : scan ⟨text, .behind before⟩ = (.ok token, after)) (more : List Char) :
    token.kind = .eof ∧ after.rest = [] ∧ Gap text [] ∨
    token.kind ≠ .eof ∧ ∃ taken, text = taken ++ after.rest ∧
      after.position = .behind (before ++ taken) ∧
      scan ⟨text ++ '\n' :: more, .behind before⟩ =
        (.ok token, ⟨after.rest ++ '\n' :: more, after.position⟩) := by
  obtain ⟨l, position⟩ := token
  obtain ⟨gap, hposition, ⟨heof, rfl, hgap, hafter⟩ |
    ⟨spelling, rest, rfl, hgap, hspelled, hstops, rfl⟩⟩ := scan_sound h
  · exact .inl ⟨congrArg Lexeme.kind heof, hafter, hgap⟩
  · have hposition : position = .behind (before ++ gap) := hposition
    subst hposition
    have hne : spelling ++ rest ≠ [] := by
      have hpos := hspelled.length_pos
      intro hnil
      rw [(List.append_eq_nil_iff.1 hnil).1] at hpos
      cases hpos
    have hgap' := hgap.before hne ('\n' :: more)
    have hwhole : gap ++ (spelling ++ rest) ++ '\n' :: more =
        gap ++ (spelling ++ (rest ++ '\n' :: more)) := by simp
    rw [hwhole, List.append_assoc] at hgap'
    refine .inr ⟨hspelled.kind_ne_eof, gap ++ spelling, ?_, ?_, ?_⟩
    · rw [List.append_assoc]
    · rw [List.append_assoc]
    · rw [hwhole]
      exact scan_complete _ hgap' hspelled (hstops.goesOn more)

end Cursor

end Tao
