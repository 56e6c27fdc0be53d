import NcProgram.Proofs.Lexeme.Sequence
import Mathlib.Data.List.DropRight

/-!
Places said by the text in front of them alone: how many bytes it has, how many line ends stand in
it, and how many characters behind the last of these. Counting lexeme by lexeme gives the same,
because a line break is part of no lexeme but a line end and a line end is never cut in two.
-/

namespace NcProgram

open Lexeme

theorem rtakeWhile_append_of_pos {α : Type} {p : α → Bool} {xs ys : List α}
    (h : ∀ y ∈ ys, p y = true) : (xs ++ ys).rtakeWhile p = xs.rtakeWhile p ++ ys := by
  have hys : ∀ y ∈ ys.reverse, p y = true := fun y hy => h y (List.mem_reverse.mp hy)
  rw [List.rtakeWhile, List.rtakeWhile, List.reverse_append, List.takeWhile_append_of_pos hys,
    List.reverse_append, List.reverse_reverse]

namespace Text

/-- The number of line ends in a text: its line feeds, and its returns without a line feed behind
them. -/
def lineEnds : List Char → Nat
  | [] => 0
  | c :: cs => lineEnds cs + if c = '\n' ∨ c = '\r' ∧ cs.head? ≠ some '\n' then 1 else 0

/-- The text behind the last line break. -/
def lastRow (cs : List Char) : List Char :=
  cs.rtakeWhile fun c => !isLineBreak c

theorem lineEnds_cons (c : Char) (cs : List Char) : lineEnds (c :: cs) =
    lineEnds cs + if c = '\n' ∨ c = '\r' ∧ cs.head? ≠ some '\n' then 1 else 0 := rfl

theorem lineEnds_append {cs ds : List Char}
    (h : cs.getLast? = some '\r' → ds.head? ≠ some '\n') :
    lineEnds (cs ++ ds) = lineEnds cs + lineEnds ds := by
  induction cs with
  | nil => simp [lineEnds]
  | cons c cs ih =>
      cases cs with
      | nil =>
          have hreturn : c = '\r' → ds.head? ≠ some '\n' := by
            intro hc
            exact h (by simp [hc])
          have hcount : (c = '\n' ∨ c = '\r' ∧ ds.head? ≠ some '\n') ↔ c = '\n' ∨ c = '\r' := by
            tauto
          simp only [List.cons_append, List.nil_append, lineEnds, hcount]
          simp [Nat.add_comm]
      | cons d cs =>
          have ih := ih (by simpa using h)
          rw [List.cons_append, lineEnds_cons, lineEnds_cons c, ih, Nat.add_right_comm]
          rfl

theorem lineEnds_of_unbroken {cs : List Char} (h : ∀ c ∈ cs, isLineBreak c = false) :
    lineEnds cs = 0 := by
  induction cs with
  | nil => rfl
  | cons c cs ih =>
      obtain ⟨hc, hcs⟩ := List.forall_mem_cons.mp h
      have hplain : ¬ (c = '\n' ∨ c = '\r') := by
        intro hbreak
        rw [isLineBreak_eq_true_iff.mpr hbreak] at hc
        exact Bool.noConfusion hc
      rw [lineEnds, ih hcs, if_neg (by tauto)]

theorem lastRow_append_of_unbroken {cs ds : List Char} (h : ∀ c ∈ ds, isLineBreak c = false) :
    lastRow (cs ++ ds) = lastRow cs ++ ds :=
  rtakeWhile_append_of_pos fun c hc => by simp [h c hc]

theorem lastRow_append_of_break {cs ds : List Char} {c : Char} (hc : ds.getLast? = some c)
    (hbreak : isLineBreak c = true) : lastRow (cs ++ ds) = [] := by
  obtain ⟨front, rfl⟩ := List.getLast?_eq_some_iff.mp hc
  rw [lastRow, ← List.append_assoc, List.rtakeWhile_concat, if_neg (by simp [hbreak])]

end Text

namespace Lexeme

theorem HasShape.eq_of_getLast? {kind : TokenKind} {cs : List Char} (h : HasShape kind cs)
    (hlast : cs.getLast? = some '\r') : kind = .newline ∧ cs = ['\r'] := by
  have hbreak := h.isLineBreak_eq (List.mem_of_getLast? hlast)
  obtain rfl : kind = .newline := of_decide_eq_true hbreak.symm
  simp only [HasShape, terminators, List.mem_cons, List.not_mem_nil, or_false] at h
  rcases h with rfl | rfl | rfl
  · simp at hlast
  · simp at hlast
  · exact ⟨rfl, rfl⟩

theorem lineEnds_chars {kind : TokenKind} {cs : List Char} (h : HasShape kind cs) :
    Text.lineEnds cs = if kind = .newline then 1 else 0 := by
  split
  next hkind =>
    subst hkind
    simp only [HasShape, terminators, List.mem_cons, List.not_mem_nil, or_false] at h
    rcases h with rfl | rfl | rfl <;> rfl
  next hkind =>
    apply Text.lineEnds_of_unbroken
    intro c hc
    rw [h.isLineBreak_eq hc, decide_eq_false hkind]

/-- A return at the end of a lexeme is the whole lexeme, and then no line feed follows. -/
theorem lineEnds_chars_append {kind : TokenKind} {cs rest : List Char} (h : HasShape kind cs)
    (hstops : Stops kind cs rest) :
    Text.lineEnds (cs ++ rest) = Text.lineEnds cs + Text.lineEnds rest := by
  apply Text.lineEnds_append
  intro hlast
  obtain ⟨rfl, rfl⟩ := h.eq_of_getLast? hlast
  exact hstops rfl

theorem line_afterAll {ls : List Lexeme} (h : IsSequence ls) (m : Mark) :
    (m.afterAll ls).line = m.line + Text.lineEnds (text ls) := by
  induction ls generalizing m with
  | nil => rfl
  | cons l ls ih =>
      obtain ⟨hshape, hstops, hls⟩ := isSequence_cons.mp h
      rw [afterAll_cons, ih hls, text_cons, lineEnds_chars_append hshape hstops,
        lineEnds_chars hshape, Mark.after]
      by_cases hkind : l.kind = .newline
      · simp only [hkind, if_true]
        omega
      · simp only [hkind, if_false]
        omega

theorem lastRow_text_concat {ls : List Lexeme} {l : Lexeme} (h : HasShape l.kind l.chars) :
    Text.lastRow (text (ls ++ [l])) =
      if l.kind = .newline then [] else Text.lastRow (text ls) ++ l.chars := by
  rw [text_append, text_cons, text_nil, List.append_nil]
  split
  next hkind =>
    have hlast := List.getLast?_eq_some_getLast h.ne_nil
    apply Text.lastRow_append_of_break hlast
    rw [h.isLineBreak_eq (List.getLast_mem h.ne_nil), decide_eq_true hkind]
  next hkind =>
    apply Text.lastRow_append_of_unbroken
    intro c hc
    rw [h.isLineBreak_eq hc, decide_eq_false hkind]

-- only the last line counts for a column, so the induction takes lexemes off at the end
theorem column_afterAll {ls : List Lexeme} (h : ∀ l ∈ ls, HasShape l.kind l.chars) :
    (Stream.origin.afterAll ls).column = 1 + (Text.lastRow (text ls)).length := by
  induction ls using List.reverseRecOn with
  | nil => rfl
  | append_singleton ls l ih =>
      obtain ⟨hls, hl⟩ := List.forall_mem_append.mp h
      have hshape := hl l (by simp)
      rw [afterAll_append, afterAll_cons, afterAll_nil, lastRow_text_concat hshape, Mark.after]
      by_cases hkind : l.kind = .newline
      · simp only [hkind, if_true, List.length_nil]
      · simp only [hkind, if_false, ih hls, List.length_append]
        omega

end Lexeme

end NcProgram
