/-
  Where reading has come to.

  The position of a character tells how much text stands before it: one line for every line feed,
  and one column for every character since the last one (`Position.behind`).  A cursor LEADS over
  some characters to another one if these are just what was read in between, and if the position has
  moved on by them.  Whatever part of a text is skipped or read, the cursor leads over it, so that a
  position needs to be looked at only once, here.
-/
import Mathlib.Data.List.TakeWhile
import Tao.Proofs.Parser.Spelled

namespace Tao

/-! ## Positions in a text -/

/-- The position of what follows `before` in a text that begins with it. -/
def Position.behind (before : List Char) : Position :=
  ⟨1 + before.count '\n', 1 + (before.reverse.takeWhile (· ≠ '\n')).length⟩

namespace Position

/-- One more character moves the position by one. -/
theorem behind_concat (before : List Char) (c : Char) :
    behind (before ++ [c]) = (behind before).after c := by
  unfold behind after
  by_cases hc : c = '\n'
  · subst hc
    simp
    omega
  · simp [hc]
    omega

/-- Reading on from behind a text leads behind all that was read. -/
theorem afterText_behind (before text : List Char) :
    (behind before).afterText text = behind (before ++ text) := by
  induction text generalizing before with
  | nil => rw [List.append_nil]; rfl
  | cons c text ih =>
    have hstep : (behind before).afterText (c :: text) = ((behind before).after c).afterText text :=
      rfl
    rw [hstep, ← behind_concat, ih, List.append_assoc]
    rfl

/-- Texts move it one after the other. -/
theorem afterText_append (p : Position) (text more : List Char) :
    p.afterText (text ++ more) = (p.afterText text).afterText more :=
  List.foldl_append

end Position

/-! ## What a cursor leads over -/

/-- Reading `taken` leads from one cursor to another. -/
structure Cursor.Leads (start : Cursor) (taken : List Char) (stop : Cursor) : Prop where
  rest : start.rest = taken ++ stop.rest
  position : stop.position = start.position.afterText taken

namespace Cursor

variable {text rest : List Char} {p : Position} {c : Char}

namespace Leads

variable {start stop : Cursor} {taken more : List Char}

theorem refl (cursor : Cursor) : cursor.Leads [] cursor := ⟨rfl, rfl⟩

/-- One character and what comes after it. -/
theorem cons (h : Leads ⟨text, p.after c⟩ taken stop) : Leads ⟨c :: text, p⟩ (c :: taken) stop := by
  constructor
  · rw [List.cons_append, ← h.rest]
  · exact h.position

/-- A cursor leads to a known rest in one way only. -/
theorem eq_of_rest {q : Position} (h : Leads ⟨taken ++ rest, p⟩ more ⟨rest, q⟩) :
    more = taken ∧ q = p.afterText taken := by
  have htaken : taken = more := List.append_cancel_right h.rest
  subst htaken
  exact ⟨rfl, h.position⟩

end Leads

/-! ## Gaps -/

/-- Does a text begin with neither a blank nor a comment? -/
def NoGap : List Char → Prop
  | '/' :: '/' :: _ => False
  | c :: _ => isBlank c = false
  | [] => True

/-- A gap begins with a blank or a comment. -/
theorem noGap_iff (c : Char) (text : List Char) :
    NoGap (c :: text) ↔ isBlank c = false ∧ (c = '/' → text.head? ≠ some '/') := by
  by_cases hcomment : c = '/' ∧ text.head? = some '/'
  · obtain ⟨rfl, hhead⟩ := hcomment
    obtain ⟨text, rfl⟩ := List.head?_eq_some_iff.1 hhead
    simp [NoGap]
  · have hnot : c = '/' → text.head? ≠ some '/' := fun hc hhead => hcomment ⟨hc, hhead⟩
    have heq : NoGap (c :: text) ↔ isBlank c = false := by
      unfold NoGap
      split
      · next heq =>
        cases heq
        exact absurd rfl (hnot rfl)
      · next heq =>
        cases heq
        rfl
      · next heq => cases heq
    rw [heq]
    exact ⟨fun hblank => ⟨hblank, hnot⟩, fun h => h.1⟩

/-- Where none begins, nothing is skipped. -/
theorem skipGap_of_noGap (h : NoGap text) (p : Position) : skipGap text p = ⟨text, p⟩ := by
  cases text with
  | nil => rfl
  | cons c text =>
    obtain ⟨hblank, hcomment⟩ := (noGap_iff c text).1 h
    rw [skipGap_cons hcomment, hblank]
    rfl

/-- A comment goes on to the end of its line, and what follows is skipped as a gap. -/
theorem skipLine_spec (text : List Char) (p : Position) : ∃ line, '\n' ∉ line ∧
    (text = line ∧ skipLine text p = ⟨[], p.afterText line⟩ ∨
      ∃ rest, text = line ++ '\n' :: rest ∧
        skipLine text p = skipGap rest ((p.afterText line).after '\n')) := by
  induction text generalizing p with
  | nil => exact ⟨[], List.not_mem_nil, .inl ⟨rfl, by rw [skipLine]; rfl⟩⟩
  | cons c text ih =>
    by_cases hc : c = '\n'
    · subst hc
      refine ⟨[], List.not_mem_nil, .inr ⟨text, rfl, ?_⟩⟩
      rw [skipLine, if_pos rfl]
      rfl
    · obtain ⟨line, hline, hrest⟩ := ih (p.after c)
      have hmem : '\n' ∉ c :: line := by
        simp only [List.mem_cons, not_or]
        exact ⟨fun h => hc h.symm, hline⟩
      have hskip : skipLine (c :: text) p = skipLine text (p.after c) := by
        rw [skipLine, if_neg hc]
      refine ⟨c :: line, hmem, ?_⟩
      rcases hrest with ⟨rfl, hend⟩ | ⟨rest, rfl, hend⟩
      · exact .inl ⟨rfl, hskip.trans hend⟩
      · exact .inr ⟨rest, rfl, hskip.trans hend⟩

/-- What is skipped is a gap, and no gap is left.  Induction on the length, because a comment is
    skipped as a whole. -/
theorem skipGap_spec (text : List Char) (p : Position) : ∃ gap,
    Leads ⟨text, p⟩ gap (skipGap text p) ∧ Gap text (skipGap text p).rest ∧
      NoGap (skipGap text p).rest := by
  induction hlength : text.length using Nat.strong_induction_on generalizing text p with
  | _ length ih =>
    subst hlength
    cases text with
    | nil => exact ⟨[], .refl _, .none, trivial⟩
    | cons c text =>
      by_cases hcomment : c = '/' ∧ text.head? = some '/'
      · obtain ⟨rfl, hhead⟩ := hcomment
        obtain ⟨text, rfl⟩ := List.head?_eq_some_iff.1 hhead
        have hskip : skipGap ('/' :: '/' :: text) p = skipLine text ((p.after '/').after '/') := by
          rw [skipGap]
        obtain ⟨line, hline, ⟨rfl, hend⟩ | ⟨rest, rfl, hend⟩⟩ :=
          skipLine_spec text ((p.after '/').after '/')
        -- the comment ends with the text
        · rw [hskip, hend]
          refine ⟨'/' :: '/' :: text, ⟨?_, rfl⟩, .lastComment hline, trivial⟩
          rw [List.append_nil]
        -- the comment ends with its line, and what follows is shorter
        · have hless : rest.length < ('/' :: '/' :: (line ++ '\n' :: rest)).length := by
            simp only [List.length_cons, List.length_append]
            omega
          obtain ⟨gap, hleads, hgap, hnoGap⟩ := ih rest.length hless rest
            ((((p.after '/').after '/').afterText line).after '\n') rfl
          rw [hskip, hend]
          refine ⟨'/' :: '/' :: (line ++ '\n' :: gap), ⟨?_, ?_⟩, .comment hline hgap, hnoGap⟩
          · have hrest : rest = gap ++ _ := hleads.rest
            simp only [List.cons_append, List.append_assoc]
            rw [← hrest]
          · have hposition := hleads.position
            rw [hposition]
            unfold Position.afterText
            simp only [List.foldl_cons, List.foldl_append]
      · have hnot : c = '/' → text.head? ≠ some '/' := fun hc hhead => hcomment ⟨hc, hhead⟩
        rw [skipGap_cons hnot]
        cases hblank : isBlank c with
        | true =>
          obtain ⟨gap, hleads, hgap, hnoGap⟩ :=
            ih text.length (Nat.lt_succ_self _) text (p.after c) rfl
          exact ⟨c :: gap, hleads.cons, .blank hblank hgap, hnoGap⟩
        | false =>
          refine ⟨[], .refl _, .none, ?_⟩
          exact (noGap_iff c text).2 ⟨hblank, hnot⟩

/-- A gap that is known to be there is skipped, and the position moves on by it. -/
theorem skipGap_append {gap : List Char} (hgap : Gap (gap ++ rest) rest) (hrest : NoGap rest)
    (p : Position) : skipGap (gap ++ rest) p = ⟨rest, p.afterText gap⟩ := by
  obtain ⟨q, hskip⟩ := skipGap_of_gap hgap (skipGap_of_noGap hrest) p
  obtain ⟨taken, hleads, -⟩ := skipGap_spec (gap ++ rest) p
  rw [hskip] at hleads ⊢
  obtain ⟨-, rfl⟩ := hleads.eq_of_rest
  rfl

end Cursor

end Tao
