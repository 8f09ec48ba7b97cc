/-
  The tokens of a text cover it.

  A text SPLITS into tokens if it consists of gaps and lexemes by turns, where each lexeme

    * spells its token: a mark in its one way, a name or a keyword letter by letter, a number by
      decimal digits, and a string in quotes by characters that stand for themselves and escapes
      that stand for what they mean (`Lexeme.IsSpelledBy`);
    * goes on for as long as it can, and is not glued to what follows (`Lexeme.StopsBefore`);
    * stands where its token says it does.

  Scanning gives just the tokens into which the text splits: `tokenize_eq_ok_iff`.  It has two
  halves.  What is read is spelled by what was read (`readLexeme_sound`), and what is spelled is
  read (`readLexeme_complete`).
-/
import Tao.Proofs.Parser.Builds
import Tao.Proofs.Scanner.Positions

namespace Tao

/-! ## Spellings -/

/-- The spelling of a mark of punctuation. -/
def IsOperator (text : List Char) : Prop := ∃ kind ∈ Kind.punctuation, text = kind.spelling.toList

/-- A letter or underscore, and letters, digits and underscores after it. -/
def IsWord (text : List Char) : Prop :=
  text.head?.any isWordStart = true ∧ ∀ c ∈ text, isWordChar c = true

/-- One decimal digit or more. -/
def IsNumeral (text : List Char) : Prop := text ≠ [] ∧ ∀ c ∈ text, c.isDigit = true

/-- What stands between quotes, and the contents that it stands for. -/
inductive Quotes : List Char → List Char → Prop where
  | nil : Quotes [] []
  | plain {c inside contents} : c ≠ '"' → c ≠ '\\' → Quotes inside contents →
      Quotes (c :: inside) (c :: contents)
  | escaped {e c inside contents} : unescape e = some c → Quotes inside contents →
      Quotes ('\\' :: e :: inside) (c :: contents)

namespace Lexeme

/-- Is the lexeme written by these characters? -/
inductive IsSpelledBy : Lexeme → List Char → Prop where
  | mark {kind} : kind ∈ Kind.punctuation ∨ kind ∈ Kind.keywords →
      IsSpelledBy (.mark kind) kind.spelling.toList
  | name {text} : IsName text → IsSpelledBy (.name text) text.toList
  | number {digits} : IsNumeral digits → Nat.ofDigitChars 10 digits 0 ≤ maxNumber →
      IsSpelledBy (.number (Nat.ofDigitChars 10 digits 0)) digits
  | string {inside contents} : Quotes inside contents →
      IsSpelledBy (.string (String.ofList contents)) ('"' :: (inside ++ ['"']))

/-- Is this a number, a word or a string? -/
def isClosedByClash : Lexeme → Bool
  | .mark kind => kind ∈ Kind.keywords
  | .name _ | .string _ | .number _ => true

/-- May a lexeme that is spelled so end before `rest`?  No longer mark, word or number begins where
    it does, a slash does not begin a comment, and nothing is glued to a number, a word or a
    string. -/
structure StopsBefore (l : Lexeme) (spelling rest : List Char) : Prop where
  longest : ∀ longer, IsOperator longer ∨ IsWord longer ∨ IsNumeral longer →
    longer <+: spelling ++ rest → longer.length ≤ spelling.length
  noComment : l = .mark .slash → rest.head? ≠ some '/'
  noClash : l.isClosedByClash = true → NoClash rest

end Lexeme

/-- The text that follows `before` splits into these tokens, the end of the text included. -/
inductive Splits : List Char → List Token → List Char → Prop where
  | eof {before gap} : Gap gap [] →
      Splits before [⟨.mark .eof, .behind (before ++ gap)⟩] gap
  | lexeme {before gap l spelling rest tokens} : Gap (gap ++ (spelling ++ rest)) (spelling ++ rest) →
      l.IsSpelledBy spelling → l.StopsBefore spelling rest →
      Splits (before ++ gap ++ spelling) tokens rest →
      Splits before (⟨l, .behind (before ++ gap)⟩ :: tokens) (gap ++ (spelling ++ rest))

/-! ## How spellings begin -/

variable {text rest longer spelling : List Char} {l : Lexeme} {p : Position} {c : Char}

/-- A mark begins as only marks do. -/
theorem IsOperator.begins (h : IsOperator text) : text.head?.any Cursor.beginsMark = true := by
  obtain ⟨kind, hkind, rfl⟩ := h
  exact Cursor.beginsMark_spelling kind hkind

/-- A numeral begins with a digit. -/
theorem IsNumeral.begins (h : IsNumeral text) : text.head?.any Char.isDigit = true := by
  obtain ⟨hne, hdigits⟩ := h
  cases text with
  | nil => exact absurd rfl hne
  | cons c text => exact hdigits c List.mem_cons_self

/-- A text begins as its prefixes do. -/
theorem begins_of_isPrefix {test : Char → Bool} (h : longer.head?.any test = true)
    (hstarts : longer <+: c :: rest) : test c = true := by
  obtain ⟨more, hmore⟩ := hstarts
  cases longer with
  | nil => cases h
  | cons d longer =>
    simp only [List.cons_append, List.cons.injEq] at hmore
    obtain ⟨rfl, -⟩ := hmore
    exact h

/-- No mark begins with a letter, an underscore, a digit or a quote. -/
theorem IsOperator.not_prefix (h : IsOperator longer) (hc : Cursor.beginsMark c = false) :
    ¬ longer <+: c :: rest := by
  intro hstarts
  rw [begins_of_isPrefix h.begins hstarts] at hc
  cases hc

/-- So a word begins nowhere else. -/
theorem IsWord.not_prefix (h : IsWord longer) (hc : isWordStart c = false) :
    ¬ longer <+: c :: rest := by
  intro hstarts
  rw [begins_of_isPrefix h.1 hstarts] at hc
  cases hc

theorem IsNumeral.not_prefix (h : IsNumeral longer) (hc : c.isDigit = false) :
    ¬ longer <+: c :: rest := by
  intro hstarts
  rw [begins_of_isPrefix h.begins hstarts] at hc
  cases hc

/-- No digit begins a word. -/
theorem isWordStart_of_isDigit (h : c.isDigit = true) : isWordStart c = false := by
  cases hstart : isWordStart c with
  | false => rfl
  | true =>
    rw [Cursor.isDigit_of_isWordStart hstart] at h
    cases h

/-- A prefix whose characters are all of a class ends where the class does. -/
theorem length_le_of_prefix {test : Char → Bool} (hall : ∀ c ∈ longer, test c = true)
    (hrest : ∀ c ∈ rest.head?, test c = false) (hstarts : longer <+: spelling ++ rest) :
    longer.length ≤ spelling.length := by
  induction longer generalizing spelling with
  | nil => exact Nat.zero_le _
  | cons c longer ih =>
    obtain ⟨hc, hlonger⟩ := List.forall_mem_cons.1 hall
    cases spelling with
    | nil =>
      obtain ⟨more, hmore⟩ := hstarts
      have hhead : rest.head? = some c := by
        rw [← List.nil_append rest, ← hmore]
        rfl
      rw [hrest c hhead] at hc
      cases hc
    | cons d spelling =>
      have htail : longer <+: spelling ++ rest := (List.cons_prefix_cons.1 hstarts).2
      have hle := ih hlonger htail
      simp only [List.length_cons]
      omega

namespace Lexeme.StopsBefore

/-- A mark of punctuation stops where no longer one begins. -/
theorem ofOperator {kind : Kind} (hkind : kind ∈ Kind.punctuation) (hends : EndsMark kind rest) :
    StopsBefore (.mark kind) kind.spelling.toList rest := by
  have hbegins := Cursor.beginsMark_spelling kind hkind
  have hnot : kind ∉ Kind.keywords := by
    have hall : ∀ kind ∈ Kind.punctuation, kind ∉ Kind.keywords := by decide
    exact hall kind hkind
  constructor
  · intro longer hlonger hstarts
    rcases hlonger with ⟨other, hother, rfl⟩ | hword | hnumeral
    · have hle := hends.longest other hother hstarts
      simpa only [String.length_toList] using hle
    all_goals
      -- Neither a word nor a number begins as the mark does.
      exfalso
      cases hspelling : kind.spelling.toList with
      | nil =>
        rw [hspelling] at hbegins
        cases hbegins
      | cons c more =>
        rw [hspelling] at hbegins hstarts
        have hc : Cursor.beginsMark c = true := hbegins
        unfold Cursor.beginsMark at hc
        simp only [Bool.not_eq_true', Bool.or_eq_false_iff] at hc
        obtain ⟨⟨hdigit, hstart⟩, -⟩ := hc
        first
          | exact hword.not_prefix hstart hstarts
          | exact hnumeral.not_prefix hdigit hstarts
  · intro hslash
    cases hslash
    exact hends.noComment rfl
  · intro hclosed
    simp only [isClosedByClash, decide_eq_true_eq] at hclosed
    exact absurd hclosed hnot

/-- A word stops where nothing is glued to it. -/
theorem ofWord (hspelling : IsWord spelling) (hclash : NoClash rest) (hslash : l ≠ .mark .slash) :
    l.StopsBefore spelling rest := by
  obtain ⟨hstart, hword⟩ := hspelling
  cases spelling with
  | nil => cases hstart
  | cons c spelling =>
    have hstart : isWordStart c = true := hstart
    constructor
    · intro longer hlonger hstarts
      rcases hlonger with hoperator | ⟨-, hlonger⟩ | hnumeral
      · have hbegins : Cursor.beginsMark c = false := by simp [Cursor.beginsMark, hstart]
        exact absurd hstarts (hoperator.not_prefix hbegins)
      · exact length_le_of_prefix hlonger (Cursor.isWordChar_of_noClash hclash) hstarts
      · exact absurd hstarts (hnumeral.not_prefix (Cursor.isDigit_of_isWordStart hstart))
    · exact fun h => absurd h hslash
    · exact fun _ => hclash

/-- A number stops where nothing is glued to it. -/
theorem ofNumeral (hspelling : IsNumeral spelling) (hclash : NoClash rest)
    (hslash : l ≠ .mark .slash) : l.StopsBefore spelling rest := by
  have hbegins := hspelling.begins
  cases spelling with
  | nil => cases hbegins
  | cons c spelling =>
    have hdigit : c.isDigit = true := hbegins
    constructor
    · intro longer hlonger hstarts
      rcases hlonger with hoperator | hword | ⟨-, hlonger⟩
      · have hmark : Cursor.beginsMark c = false := by simp [Cursor.beginsMark, hdigit]
        exact absurd hstarts (hoperator.not_prefix hmark)
      · exact absurd hstarts (hword.not_prefix (isWordStart_of_isDigit hdigit))
      · exact length_le_of_prefix hlonger (Cursor.isDigit_of_noClash hclash) hstarts
    · exact fun h => absurd h hslash
    · exact fun _ => hclash

/-- Nothing else begins with a quote. -/
theorem ofQuote (hclash : NoClash rest) (hslash : l ≠ .mark .slash) :
    l.StopsBefore ('"' :: spelling) rest := by
  constructor
  · intro longer hlonger hstarts
    exfalso
    rcases hlonger with hoperator | hword | hnumeral
    · exact hoperator.not_prefix (by decide) hstarts
    · exact hword.not_prefix (by decide) hstarts
    · exact hnumeral.not_prefix (by decide) hstarts
  · exact fun h => absurd h hslash
  · exact fun _ => hclash

end Lexeme.StopsBefore

namespace Cursor

variable {after : Cursor}

/-! ## What is read is spelled -/

/-- Induction on the characters that are left. -/
theorem readDigits_sound {value found : Nat} (hvalue : value ≤ maxNumber)
    (h : readDigits value text p = (some found, after)) : ∃ digits,
      Leads ⟨text, p⟩ digits after ∧ (∀ c ∈ digits, c.isDigit = true) ∧
      found = Nat.ofDigitChars 10 digits value ∧ ∀ c ∈ after.rest.head?, c.isDigit = false := by
  induction text generalizing value p with
  | nil =>
    cases h
    exact ⟨[], .refl _, by simp, rfl, by simp⟩
  | cons c text ih =>
    unfold readDigits at h
    dsimp only at h
    split at h
    · next hdigit =>
      split at h
      · next hsmall =>
        obtain ⟨digits, hleads, hdigits, hfound, hafter⟩ := ih hsmall h
        refine ⟨c :: digits, hleads.cons, List.forall_mem_cons.2 ⟨hdigit, hdigits⟩, ?_, hafter⟩
        rw [hfound, Nat.ofDigitChars_cons, Nat.mul_comm]
      · cases h
    · next hdigit =>
      cases h
      refine ⟨[], .refl _, by simp, rfl, ?_⟩
      simpa using hdigit

/-- Digits that were read spell their number. -/
theorem numeral_of_readDigits {value : Nat} (hdigit : c.isDigit = true)
    (h : readDigits 0 (c :: text) p = (some value, after)) : ∃ digits,
      Leads ⟨c :: text, p⟩ digits after ∧ IsNumeral digits ∧
      (Lexeme.number value).IsSpelledBy digits := by
  have hsmall := le_maxNumber_of_readDigits (Nat.zero_le _) h
  obtain ⟨digits, hleads, hdigits, rfl, hafter⟩ := readDigits_sound (Nat.zero_le _) h
  have hne : digits ≠ [] := by
    rintro rfl
    have hrest : c :: text = after.rest := hleads.rest
    have hnot := hafter c (hrest ▸ rfl)
    rw [hdigit] at hnot
    cases hnot
  exact ⟨digits, hleads, ⟨hne, hdigits⟩, .number ⟨hne, hdigits⟩ hsmall⟩

/-- What was read up to the closing quote is quoted.  Induction on the text. -/
theorem readString_sound {opening : Position} {read : List Char} {contents : String}
    (h : readString opening read text p = (.ok contents, after)) : ∃ inside found,
      Leads ⟨text, p⟩ (inside ++ ['"']) after ∧ Quotes inside found ∧
      contents = String.ofList (read.reverse ++ found) := by
  fun_induction readString opening read text p with
  | case1 => cases h
  | case2 read text p =>
    cases h
    refine ⟨[], [], ⟨rfl, rfl⟩, .nil, ?_⟩
    rw [List.append_nil]
  | case3 => cases h
  | case4 read p e text meant hmeant _ ih =>
    obtain ⟨inside, found, hleads, hquotes, rfl⟩ := ih h
    refine ⟨'\\' :: e :: inside, meant :: found, hleads.cons.cons, .escaped hmeant hquotes, ?_⟩
    rw [List.reverse_cons, List.append_assoc]
    rfl
  | case5 => cases h
  | case6 read c text p hquote hescape ih =>
    obtain ⟨inside, found, hleads, hquotes, rfl⟩ := ih h
    refine ⟨c :: inside, c :: found, hleads.cons, .plain hquote hescape hquotes, ?_⟩
    rw [List.reverse_cons, List.append_assoc]
    rfl

/-- A word is all of the letters, digits and underscores that come next. -/
theorem readWord_sound (hstart : text.head?.any isWordStart = true)
    (h : readWord text p = (l, after)) : ∃ word, Leads ⟨text, p⟩ word after ∧ IsWord word ∧
      l.IsSpelledBy word ∧ l ≠ .mark .slash := by
  have hword : ∀ c ∈ text.takeWhile isWordChar, isWordChar c = true :=
    fun c hc => List.mem_takeWhile_imp hc
  have hhead : (text.takeWhile isWordChar).head?.any isWordStart = true := by
    cases text with
    | nil => cases hstart
    | cons c text =>
      have hc : isWordStart c = true := hstart
      rw [List.takeWhile_cons_of_pos (isWordChar_of_isWordStart hc)]
      exact hc
  unfold readWord at h
  obtain ⟨rfl, rfl⟩ := Prod.mk.inj h
  refine ⟨text.takeWhile isWordChar, ⟨?_, rfl⟩, ⟨hhead, hword⟩, ?_, ?_⟩
  · exact List.takeWhile_append_dropWhile.symm
  · split
    · next kind hkind =>
      have hmem : kind ∈ Kind.keywords := List.mem_of_find?_eq_some hkind
      have hfound := List.find?_some hkind
      have hspelling : kind.spelling = String.ofList (text.takeWhile isWordChar) :=
        of_decide_eq_true hfound
      have hspelled := Lexeme.IsSpelledBy.mark (.inr hmem)
      rwa [hspelling, String.toList_ofList] at hspelled
    · next hnone =>
      have hname : IsName (String.ofList (text.takeWhile isWordChar)) := by
        refine ⟨?_, ?_, hnone⟩ <;> rwa [String.toList_ofList]
      have hspelled := Lexeme.IsSpelledBy.name hname
      rwa [String.toList_ofList] at hspelled
  · split
    · next kind hkind =>
      have hmem : kind ∈ Kind.keywords := List.mem_of_find?_eq_some hkind
      rintro ⟨⟩
      exact absurd hmem (by decide)
    · nofun

/-- The mark that is read is the longest that the text begins with. -/
theorem longestMark?_sound {kind : Kind} (h : longestMark? text = some kind) :
    kind ∈ Kind.punctuation ∧ ∃ rest, text = kind.spelling.toList ++ rest ∧
      ∀ longer ∈ Kind.punctuation, longer.spelling.toList <+: text →
        longer.spelling.length ≤ kind.spelling.length := by
  have hsorted : Kind.punctuation.Pairwise (fun a b => b.spelling.length ≤ a.spelling.length) := by
    decide
  obtain ⟨hbegins, before, marks, hsplit, hbefore⟩ := List.find?_eq_some_iff_append.1 h
  obtain ⟨rest, hrest⟩ := List.isPrefixOf_iff_prefix.1 hbegins
  refine ⟨List.mem_of_find?_eq_some h, rest, hrest.symm, ?_⟩
  intro longer hlonger hstarts
  rw [hsplit] at hlonger hsorted
  rcases List.mem_append.1 hlonger with hmem | hmem
  · have hnot := hbefore longer hmem
    rw [List.isPrefixOf_iff_prefix.2 hstarts] at hnot
    cases hnot
  · rcases List.mem_cons.1 hmem with rfl | hmem
    · exact Nat.le_refl _
    · exact List.rel_of_pairwise_cons (List.pairwise_append.1 hsorted).2.1 hmem

/-- Where no gap begins, no comment does, and so the mark that is read ends there. -/
theorem endsMark_of_longestMark? {kind : Kind} (hbegins : NoGap text)
    (h : longestMark? text = some kind) :
    ∃ rest, text = kind.spelling.toList ++ rest ∧ EndsMark kind rest := by
  obtain ⟨-, rest, rfl, hlongest⟩ := longestMark?_sound h
  refine ⟨rest, rfl, hlongest, ?_⟩
  rintro rfl hhead
  obtain ⟨more, rfl⟩ := List.head?_eq_some_iff.1 hhead
  exact hbegins

/-- A lexeme is given only if nothing is glued to it. -/
theorem unlessGlued_sound {read : Lexeme} {cursor : Cursor}
    (h : unlessGlued read cursor = (.ok l, after)) :
    l = read ∧ after = cursor ∧ NoClash cursor.rest := by
  unfold unlessGlued at h
  split at h
  · next c rest heq =>
    split at h
    · cases h
    · next hclash =>
      cases h
      refine ⟨rfl, rfl, ?_⟩
      intro d hd
      rw [heq] at hd
      cases hd
      simpa using hclash
  · next heq =>
    cases h
    refine ⟨rfl, rfl, ?_⟩
    rw [heq]
    exact fun _ hc => nomatch hc

/-- What is read where no gap begins is the end of the text, or it spells what was read. -/
theorem readLexeme_sound (hbegins : NoGap text) (h : readLexeme ⟨text, p⟩ = (.ok l, after)) :
    l = .mark .eof ∧ text = [] ∧ after = ⟨[], p⟩ ∨
    ∃ spelling, Leads ⟨text, p⟩ spelling after ∧ l.IsSpelledBy spelling ∧
      l.StopsBefore spelling after.rest := by
  cases text with
  | nil =>
    cases h
    exact .inl ⟨rfl, rfl, rfl⟩
  | cons c text =>
    refine .inr ?_
    unfold readLexeme at h
    dsimp only at h
    split at h
    -- a number
    · next hdigit =>
      split at h
      · next value cursor hread =>
        obtain ⟨rfl, rfl, hclash⟩ := unlessGlued_sound h
        obtain ⟨digits, hleads, hnumeral, hspelled⟩ := numeral_of_readDigits hdigit hread
        exact ⟨digits, hleads, hspelled, .ofNumeral hnumeral hclash nofun⟩
      · cases h
    · next hdigit =>
      split at h
      -- a word
      · next hstart =>
        cases hread : readWord (c :: text) p with
        | mk read cursor =>
          rw [hread] at h
          obtain ⟨rfl, rfl, hclash⟩ := unlessGlued_sound h
          have hhead : (c :: text).head?.any isWordStart = true := hstart
          obtain ⟨word, hleads, hword, hspelled, hslash⟩ := readWord_sound hhead hread
          exact ⟨word, hleads, hspelled, .ofWord hword hclash hslash⟩
      · next hstart =>
        split at h
        -- a string
        · next hquote =>
          subst hquote
          split at h
          · next contents cursor hread =>
            obtain ⟨rfl, rfl, hclash⟩ := unlessGlued_sound h
            obtain ⟨inside, found, hleads, hquotes, rfl⟩ := readString_sound hread
            exact ⟨_, hleads.cons, .string hquotes, .ofQuote hclash nofun⟩
          · cases h
        · next hquote =>
          split at h
          -- a mark of punctuation
          · next kind hmark =>
            cases h
            have hkind := (longestMark?_sound hmark).1
            obtain ⟨rest, htext, hends⟩ := endsMark_of_longestMark? hbegins hmark
            have hdrop : (c :: text).drop kind.spelling.length = rest := by
              rw [htext, ← String.length_toList, List.drop_left]
            have htake : (c :: text).take kind.spelling.length = kind.spelling.toList := by
              rw [htext, ← String.length_toList, List.take_left]
            rw [hdrop, htake]
            exact ⟨_, ⟨htext, rfl⟩, .mark (.inl hkind), .ofOperator hkind hends⟩
          · cases h

/-! ## What is spelled is read -/

/-- What is quoted is read.  Induction on the quoted characters. -/
theorem readString_complete {inside contents : List Char} (h : Quotes inside contents)
    (opening : Position) (read rest : List Char) (p : Position) :
    ∃ q, readString opening read (inside ++ '"' :: rest) p =
      (.ok (String.ofList (read.reverse ++ contents)), ⟨rest, q⟩) := by
  induction h generalizing read p with
  | nil =>
    refine ⟨p.after '"', ?_⟩
    rw [List.nil_append, List.append_nil, readString.eq_def]
    rfl
  | @plain c inside contents hquote hescape _ ih =>
    obtain ⟨q, hq⟩ := ih (c :: read) (p.after c)
    refine ⟨q, ?_⟩
    rw [List.cons_append, readString.eq_def]
    dsimp only
    rw [if_neg hquote, if_neg hescape, hq, List.reverse_cons, List.append_assoc]
    rfl
  | @escaped e c inside contents hmeant _ ih =>
    obtain ⟨q, hq⟩ := ih (c :: read) ((p.after '\\').after e)
    refine ⟨q, ?_⟩
    rw [List.cons_append, List.cons_append, readString.eq_def]
    dsimp only
    rw [if_neg (by decide), if_pos rfl, hmeant]
    dsimp only
    rw [hq, List.reverse_cons, List.append_assoc]
    rfl

/-- Where a mark stops, no longer one is read. -/
theorem endsBefore_of_stopsBefore {kind : Kind}
    (h : Lexeme.StopsBefore (.mark kind) kind.spelling.toList rest) :
    (Lexeme.mark kind).EndsBefore rest := by
  unfold Lexeme.EndsBefore
  dsimp only
  split
  · next hkeyword =>
    have hclosed : (Lexeme.mark kind).isClosedByClash = true := decide_eq_true hkeyword
    exact h.noClash hclosed
  · constructor
    · intro longer hlonger hstarts
      have hle := h.longest _ (.inl ⟨longer, hlonger, rfl⟩) hstarts
      simpa only [String.length_toList] using hle
    · intro hslash
      exact h.noComment (congrArg Lexeme.mark hslash)

/-- A spelling that stops where it does is read as a whole. -/
theorem exists_readLexeme (hspelled : l.IsSpelledBy spelling) (hstops : l.StopsBefore spelling rest)
    (p : Position) : ∃ q, readLexeme ⟨spelling ++ rest, p⟩ = (.ok l, ⟨rest, q⟩) := by
  cases hspelled with
  | @mark kind hkind =>
    have hlegal : (Lexeme.mark kind).IsLegal := hkind
    have hread := readLexeme_spelling hlegal (endsBefore_of_stopsBefore hstops) p
    rwa [Lexeme.spelling_mark hkind] at hread
  | @name text hname =>
    have hlegal : (Lexeme.name text).IsLegal := hname
    exact readLexeme_spelling hlegal (hstops.noClash rfl) p
  | number hnumeral hsmall =>
    have hclash := hstops.noClash rfl
    obtain ⟨q, hread⟩ := readDigits_append hnumeral.2 (isDigit_of_noClash hclash) hsmall p
    have hbegins : (spelling ++ rest).head?.any Char.isDigit = true :=
      any_head_append hnumeral.begins
    exact ⟨q, (readLexeme_digit hbegins hread).trans (unlessGlued_of_noClash hclash _ _)⟩
  | @string inside contents hquotes =>
    have hclash := hstops.noClash rfl
    obtain ⟨q, hread⟩ := readString_complete hquotes p [] rest (p.after '"')
    have htext : '"' :: (inside ++ ['"']) ++ rest = '"' :: (inside ++ '"' :: rest) := by simp
    refine ⟨q, ?_⟩
    rw [htext, readLexeme_quote hread]
    exact unlessGlued_of_noClash hclash _ _

/-- Where nothing is skipped no gap begins. -/
theorem noGap_of_skipGap (h : skipGap text p = ⟨text, p⟩) : NoGap text := by
  obtain ⟨-, -, -, hnoGap⟩ := skipGap_spec text p
  rwa [h] at hnoGap

/-- No spelling begins a gap. -/
theorem noGap_spelling (hspelled : l.IsSpelledBy spelling) (hstops : l.StopsBefore spelling rest) :
    NoGap (spelling ++ rest) := by
  refine noGap_of_skipGap (p := .start) ?_
  cases hspelled with
  | @mark kind hkind =>
    have hlegal : (Lexeme.mark kind).IsLegal := hkind
    have hskip := skipGap_spelling hlegal (endsBefore_of_stopsBefore hstops) .start
    rwa [Lexeme.spelling_mark hkind] at hskip
  | @name text hname =>
    have hlegal : (Lexeme.name text).IsLegal := hname
    exact skipGap_spelling hlegal (hstops.noClash rfl) .start
  | number hnumeral =>
    have hbegins := any_imp hnumeral.begins fun c hc =>
      beginsNoGap_of_isWordChar (isWordChar_of_isDigit hc)
    exact skipGap_of_beginsNoGap (any_head_append hbegins)
  | string => exact skipGap_of_beginsNoGap rfl

/-- What is spelled is read, and the position moves on by the spelling. -/
theorem readLexeme_complete (hspelled : l.IsSpelledBy spelling)
    (hstops : l.StopsBefore spelling rest) (p : Position) :
    readLexeme ⟨spelling ++ rest, p⟩ = (.ok l, ⟨rest, p.afterText spelling⟩) := by
  obtain ⟨q, hread⟩ := exists_readLexeme hspelled hstops p
  rcases readLexeme_sound (noGap_spelling hspelled hstops) hread with
    ⟨rfl, -, -⟩ | ⟨read, hleads, -, -⟩
  · cases hspelled with
    | mark hkind => exact absurd hkind (by decide)
  · obtain ⟨-, rfl⟩ := hleads.eq_of_rest
    exact hread

/-! ## Tokens -/

variable {before gap : List Char} {token : Token}

/-- A token that is scanned is the end of the text, or it is spelled after a gap. -/
theorem scan_sound (h : scan ⟨text, .behind before⟩ = (.ok token, after)) : ∃ gap,
    token.position = .behind (before ++ gap) ∧
      (token.lexeme = .mark .eof ∧ text = gap ∧ Gap gap [] ∧ after.rest = [] ∨
      ∃ spelling rest, text = gap ++ (spelling ++ rest) ∧
        Gap (gap ++ (spelling ++ rest)) (spelling ++ rest) ∧ token.lexeme.IsSpelledBy spelling ∧
        token.lexeme.StopsBefore spelling rest ∧
        after = ⟨rest, .behind (before ++ gap ++ spelling)⟩) := by
  obtain ⟨gap, hleads, hgap, hnoGap⟩ := skipGap_spec text (.behind before)
  unfold scan at h
  dsimp only at h
  generalize skipGap text (.behind before) = here at h hleads hgap hnoGap
  obtain ⟨found, p⟩ := here
  obtain ⟨htext, hposition⟩ := hleads
  dsimp only at htext hposition h hgap hnoGap
  rw [Position.afterText_behind] at hposition
  subst hposition
  split at h
  · next l cursor hread =>
    cases h
    refine ⟨gap, rfl, ?_⟩
    rcases readLexeme_sound hnoGap hread with ⟨rfl, rfl, rfl⟩ | ⟨spelling, hleads, hspelled, hstops⟩
    · rw [List.append_nil] at htext
      exact .inl ⟨rfl, htext, htext ▸ hgap, rfl⟩
    · obtain ⟨rest, q⟩ := after
      obtain ⟨hfound, hq⟩ := hleads
      dsimp only at hfound hq
      subst hfound
      rw [Position.afterText_behind] at hq
      subst hq
      exact .inr ⟨spelling, rest, htext, htext ▸ hgap, hspelled, hstops, rfl⟩
  · cases h

/-- A gap and a spelling make a token, at its position. -/
theorem scan_complete (before : List Char)
    (hgap : Gap (gap ++ (spelling ++ rest)) (spelling ++ rest))
    (hspelled : l.IsSpelledBy spelling) (hstops : l.StopsBefore spelling rest) :
    scan ⟨gap ++ (spelling ++ rest), .behind before⟩ =
      (.ok ⟨l, .behind (before ++ gap)⟩, ⟨rest, .behind (before ++ gap ++ spelling)⟩) := by
  have hskip := skipGap_append hgap (noGap_spelling hspelled hstops) (.behind before)
  rw [Position.afterText_behind] at hskip
  have hread := readLexeme_complete hspelled hstops (.behind (before ++ gap))
  rw [Position.afterText_behind] at hread
  unfold scan
  dsimp only
  rw [hskip, hread]

/-- A gap to the end makes the last one. -/
theorem scan_eof (before : List Char) (hgap : Gap text []) : ∃ after,
    scan ⟨text, .behind before⟩ = (.ok ⟨.mark .eof, .behind (before ++ text)⟩, after) := by
  have hgap' : Gap (text ++ []) [] := by rwa [List.append_nil]
  have hskip := skipGap_append hgap' trivial (.behind before)
  rw [List.append_nil, Position.afterText_behind] at hskip
  unfold scan
  dsimp only
  rw [hskip]
  exact ⟨_, rfl⟩

end Cursor

theorem Lexeme.IsSpelledBy.length_pos (h : l.IsSpelledBy spelling) : 0 < spelling.length := by
  cases h with
  | mark hkind =>
    have hpos := Lexeme.IsLegal.length_pos (l := .mark _) hkind
    rwa [Lexeme.spelling_mark hkind] at hpos
  | name hname => exact Lexeme.IsLegal.length_pos (l := .name _) hname
  | number hnumeral => exact List.length_pos_of_ne_nil hnumeral.1
  | string => exact Nat.zero_lt_succ _

/-- The end of the text is not spelled. -/
theorem Lexeme.IsSpelledBy.kind_ne_eof (h : l.IsSpelledBy spelling) : l.kind ≠ .eof := by
  cases h with
  | mark hkind =>
    rintro ⟨⟩
    exact absurd hkind (by decide)
  | _ => nofun

/-- Tokens that are scanned are tokens into which the text splits.  Induction on the bound, which is
    never reached because every lexeme takes a character. -/
theorem splits_of_scanAll {bound : Nat} {before : List Char} {tokens : List Token}
    (hbound : text.length < bound)
    (h : Cursor.scanAll bound ⟨text, .behind before⟩ = .ok tokens) : Splits before tokens text := by
  induction bound generalizing before text tokens with
  | zero => omega
  | succ bound ih =>
    unfold Cursor.scanAll at h
    cases hscan : Cursor.scan ⟨text, .behind before⟩ with
    | mk result after =>
      rw [hscan] at h
      cases result with
      | error e => cases h
      | ok token =>
        obtain ⟨lexeme, position⟩ := token
        obtain ⟨gap, hposition, hfound⟩ := Cursor.scan_sound hscan
        dsimp only at hposition hfound h
        subst hposition
        rcases hfound with ⟨rfl, rfl, hgap, -⟩ | ⟨spelling, rest, rfl, hgap, hspelled, hstops, rfl⟩
        · cases h
          exact .eof hgap
        · have hpos := hspelled.length_pos
          have hless : rest.length < bound := by
            simp only [List.length_append] at hbound
            omega
          have hkind : Token.kind ⟨lexeme, .behind (before ++ gap)⟩ ≠ .eof := hspelled.kind_ne_eof
          rw [if_neg hkind] at h
          cases hrest : Cursor.scanAll bound ⟨rest, .behind (before ++ gap ++ spelling)⟩ with
          | error e =>
            rw [hrest] at h
            cases h
          | ok more =>
            rw [hrest] at h
            cases h
            exact .lexeme hgap hspelled hstops (ih hless hrest)

/-- A text that splits into tokens is scanned as them. -/
theorem Splits.scanAll {before : List Char} {tokens : List Token} (h : Splits before tokens text)
    {bound : Nat} (hbound : text.length < bound) :
    Cursor.scanAll bound ⟨text, .behind before⟩ = .ok tokens := by
  induction h generalizing bound with
  | @eof before gap hgap =>
    obtain ⟨after, hscan⟩ := Cursor.scan_eof before hgap
    cases bound with
    | zero => omega
    | succ bound =>
      unfold Cursor.scanAll
      rw [hscan]
      rfl
  | @lexeme before gap l spelling rest tokens hgap hspelled hstops _ ih =>
    have hscan := Cursor.scan_complete before hgap hspelled hstops
    have hpos := hspelled.length_pos
    cases bound with
    | zero => omega
    | succ bound =>
      have hless : rest.length < bound := by
        simp only [List.length_append] at hbound
        omega
      have hkind : Token.kind ⟨l, .behind (before ++ gap)⟩ ≠ .eof := hspelled.kind_ne_eof
      unfold Cursor.scanAll
      rw [hscan]
      dsimp only
      rw [if_neg hkind, ih hless]
      rfl

/-- All tokens, from the beginning of the text. -/
theorem Splits.tokenize {text : String} {tokens : List Token} (h : Splits [] tokens text.toList) :
    tokenize text = .ok tokens := by
  have hlength : text.toList.length < text.length + 1 := by
    rw [String.length_toList]
    omega
  exact h.scanAll hlength

/-- **The tokens of a text cover it.**  A text is accepted with these tokens if and only if it is a
    gap, a lexeme, a gap, a lexeme and so on up to a last gap, where the lexemes spell the tokens,
    go on for as long as they can, and stand where the tokens say. -/
theorem tokenize_eq_ok_iff {text : String} {tokens : List Token} :
    tokenize text = .ok tokens ↔ Splits [] tokens text.toList := by
  constructor
  · intro h
    have hlength : text.toList.length < text.length + 1 := by
      rw [String.length_toList]
      omega
    exact splits_of_scanAll hlength h
  · exact Splits.tokenize

end Tao
