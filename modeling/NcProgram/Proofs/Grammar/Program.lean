import NcProgram.Proofs.Grammar.Line

/-!
The words for programs. A word may cut a return and a line feed in two line ends, and it may end with
a percent sign that reading gives to a comment or takes for an opening one; put together again, it is
the text of a script. So the texts that can be read are exactly the words of the grammar.
-/

namespace NcProgram

open Computability Lexeme

namespace Grammar

def rowChars (row : Row) : List Char :=
  text row.lexemes

theorem mem_row_iff {cs : List Char} :
    cs ∈ line * newline ↔ ∃ row : Row, row.IsSound ∧ rowChars row = cs := by
  have hchars (ps : List Phrase) (ending : List Char) : rowChars ⟨ps, ending⟩ =
      text (Phrase.allLexemes ps) ++ ending := by
    simp [rowChars, Row.lexemes]
  constructor
  · intro hcs
    obtain ⟨_, hline, ending, hending, rfl⟩ := Language.mem_mul.mp hcs
    obtain ⟨ps, hps, hread, rfl⟩ := mem_line_iff_exists_isLine.mp hline
    exact ⟨⟨ps, ending⟩, ⟨⟨hps, mem_newline_iff.mp hending⟩, hread⟩, hchars ps ending⟩
  · rintro ⟨⟨ps, ending⟩, ⟨⟨hps, hending⟩, hread⟩, rfl⟩
    rw [hchars]
    exact Language.append_mem_mul (mem_line_iff_exists_isLine.mpr ⟨ps, hps, hread, rfl⟩)
      (mem_newline_iff.mpr hending)

/-- A row in front of others; a return and a line feed become one line end. -/
def mergeRow (row : Row) : List Row → List Row
  | [] => [row]
  | next :: rows =>
    if row.ending = ['\r'] ∧ next.phrases = [] ∧ next.ending = ['\n'] then
      ⟨row.phrases, ['\r', '\n']⟩ :: rows
    else row :: next :: rows

theorem flatMap_rowChars (rows : List Row) :
    rows.flatMap rowChars = text (Row.allLexemes rows) :=
  (List.flatMap_assoc ..).symm

/-- Rows whose line ends do not run together that have the text of given ones. -/
structure IsMergedRows (rows merged : List Row) : Prop where
  sound : ∀ row ∈ merged, row.IsSound
  chars : text (Row.allLexemes merged) = text (Row.allLexemes rows)
  apart : merged.IsChain Row.Apart

theorem IsMergedRows.merge {row : Row} (hrow : row.IsSound) {rows merged : List Row}
    (h : IsMergedRows rows merged) : IsMergedRows (row :: rows) (mergeRow row merged) := by
  obtain ⟨hsound, hchars, hapart⟩ := h
  cases merged with
  | nil =>
      refine ⟨List.forall_mem_singleton.mpr hrow, ?_, List.isChain_singleton row⟩
      simp [mergeRow, ← hchars]
  | cons next merged =>
      obtain ⟨hnext, hmerged⟩ := List.forall_mem_cons.mp hsound
      rw [mergeRow]
      split
      next hmeet =>
        obtain ⟨hending, hphrases, hnextEnding⟩ := hmeet
        have hrow' : Row.IsSound ⟨row.phrases, ['\r', '\n']⟩ :=
          ⟨⟨hrow.isRow.line, .head _⟩, hrow.readable⟩
        refine ⟨List.forall_mem_cons.mpr ⟨hrow', hmerged⟩, ?_, ?_⟩
        · simp only [Row.allLexemes_cons, Row.lexemes, text_append, hphrases, hnextEnding,
            Phrase.allLexemes_nil, List.nil_append] at hchars
          simp [Row.lexemes, hending, ← hchars]
        · refine List.isChain_cons.mpr ⟨?_, hapart.tail⟩
          intro after _ hreturn
          cases hreturn
      next hmeet =>
        refine ⟨List.forall_mem_cons.mpr ⟨hrow, hsound⟩, ?_, ?_⟩
        · rw [Row.allLexemes_cons, text_append, hchars, Row.allLexemes_cons, text_append]
        · refine List.isChain_cons_cons.mpr ⟨?_, hapart⟩
          intro hending hphrases hnextEnding
          exact hmeet ⟨hending, hphrases, hnextEnding⟩

theorem exists_isMergedRows {rows : List Row} (h : ∀ row ∈ rows, row.IsSound) :
    ∃ merged, IsMergedRows rows merged := by
  induction rows with
  | nil => exact ⟨[], by simp, rfl, List.isChain_nil⟩
  | cons row rows ih =>
      obtain ⟨hrow, hrows⟩ := List.forall_mem_cons.mp h
      obtain ⟨merged, hmerged⟩ := ih hrows
      exact ⟨mergeRow row merged, hmerged.merge hrow⟩

theorem mem_rows_iff {cs : List Char} : cs ∈ (line * newline)∗ ↔
    ∃ rows : List Row, (∀ row ∈ rows, row.IsSound) ∧ rows.IsChain Row.Apart ∧
      text (Row.allLexemes rows) = cs := by
  rw [mem_kstar_iff mem_row_iff]
  constructor
  · rintro ⟨rows, hrows, rfl⟩
    obtain ⟨merged, hsound, hchars, hapart⟩ := exists_isMergedRows hrows
    exact ⟨merged, hsound, hapart, hchars.trans (flatMap_rowChars rows).symm⟩
  · rintro ⟨rows, hrows, -, rfl⟩
    exact ⟨rows, hrows, flatMap_rowChars rows⟩

theorem mem_percent_iff {cs : List Char} :
    cs ∈ optional (symbol '%') ↔ ∃ present, text (Script.sign present) = cs := by
  rw [mem_optional_iff, mem_symbol_iff]
  constructor
  · rintro (rfl | rfl)
    · exact ⟨false, rfl⟩
    · exact ⟨true, rfl⟩
  · rintro ⟨_ | _, rfl⟩
    · exact .inl rfl
    · exact .inr rfl

/-- A script whose closing sign may be out of place. -/
structure IsLoose (s : Script) : Prop where
  rows : ∀ row ∈ s.rows, row.IsSound
  last : Phrase.IsLine s.last
  lastReadable : ∀ p ∈ s.last, p.IsReadable
  apart : s.rows.IsChain Row.Apart

theorem IsLoose.isReadable {s : Script} (h : IsLoose s) : s.IsReadable :=
  ⟨fun row hrow => (h.rows row hrow).readable, h.lastReadable⟩

theorem IsLoose.isScript {s : Script} (h : IsLoose s) (hclosing : s.closed = true → s.CanClose) :
    s.IsScript :=
  ⟨fun row hrow => (h.rows row hrow).isRow, h.last, h.apart, hclosing⟩

theorem isLine_of_percent {front : List Phrase} {cs : List Char}
    (h : Phrase.IsLine (front ++ [.trivia .comment cs])) :
    Phrase.IsLine (front ++ [.trivia .comment (cs ++ ['%'])]) := by
  obtain ⟨hshapes, hordered, hapart⟩ := h
  obtain ⟨hfront, hcomment⟩ := List.forall_mem_append.mp hshapes
  have hshape : HasShape .comment cs :=
    hcomment _ (List.mem_singleton_self _) ⟨.comment, cs⟩
      (by simp [Phrase.lexemes, TriviaKind.tokenKind])
  obtain ⟨inner, rfl, hinner⟩ := hshape
  refine ⟨List.forall_mem_append.mpr ⟨hfront, List.forall_mem_singleton.mpr ?_⟩, ?_, ?_⟩
  · intro l hl
    obtain rfl := List.mem_singleton.mp hl
    refine ⟨inner ++ ['%'], rfl, List.forall_mem_append.mpr ⟨hinner, ?_⟩⟩
    exact List.forall_mem_singleton.mpr rfl
  · rw [List.map_append] at hordered ⊢
    exact hordered
  · rw [List.map_append] at hapart ⊢
    exact hapart

/-- A closing sign that is out of place belongs to the comment before it or opens the script. -/
theorem IsLoose.exists_isScript {s : Script} (h : IsLoose s) :
    ∃ s' : Script, s'.IsScript ∧ s'.IsReadable ∧ s'.chars = s.chars := by
  obtain ⟨opened, rows, last, closed⟩ := s
  cases closed with
  | false => exact ⟨_, h.isScript (absurd · Bool.false_ne_true), h.isReadable, rfl⟩
  | true =>
      by_cases hcomment : ∃ p ∈ last.getLast?, p.part = .trivia .comment
      · obtain ⟨p, hp, hpart⟩ := hcomment
        obtain ⟨front, rfl⟩ := List.getLast?_eq_some_iff.mp hp
        cases p with
        | trivia kind cs =>
            cases hpart
            obtain ⟨hrows, hlast, hread, hapart⟩ := h
            obtain ⟨hfront, -⟩ := List.forall_mem_append.mp hread
            have hread' : ∀ p ∈ front ++ [.trivia .comment (cs ++ ['%'])], p.IsReadable :=
              List.forall_mem_append.mpr ⟨hfront, List.forall_mem_singleton.mpr ⟨trivial, trivial⟩⟩
            have hloose : IsLoose ⟨opened, rows, front ++ [.trivia .comment (cs ++ ['%'])], false⟩ :=
              ⟨hrows, isLine_of_percent hlast, hread', hapart⟩
            refine ⟨_, hloose.isScript (absurd · Bool.false_ne_true), hloose.isReadable, ?_⟩
            simp [Script.chars_eq, Phrase.lexemes, Script.sign, Script.percent]
        | number ls n => cases hpart
        | literal ls chars => cases hpart
        | checksum ds => cases hpart
      · by_cases hnonempty : opened = true ∨ rows ≠ [] ∨ last ≠ []
        · refine ⟨_, h.isScript fun _ => ⟨?_, hnonempty⟩, h.isReadable, rfl⟩
          exact fun p hp hpart => hcomment ⟨p, hp, hpart⟩
        · simp only [not_or, not_not, Bool.not_eq_true] at hnonempty
          obtain ⟨rfl, rfl, rfl⟩ := hnonempty
          have hloose : IsLoose ⟨true, [], [], false⟩ := ⟨h.rows, h.last, h.lastReadable, h.apart⟩
          exact ⟨_, hloose.isScript (absurd · Bool.false_ne_true), hloose.isReadable, rfl⟩

theorem mem_file_iff {cs : List Char} :
    cs ∈ file ↔ ∃ s : Script, s.IsScript ∧ s.IsReadable ∧ cs = s.chars := by
  constructor
  · intro hcs
    obtain ⟨_, hinit, _, hclosed, rfl⟩ := Language.mem_mul.mp hcs
    obtain ⟨_, hinit', _, hend, rfl⟩ := Language.mem_mul.mp hinit
    obtain ⟨_, hopened, _, hbody, rfl⟩ := Language.mem_mul.mp hinit'
    obtain ⟨opened, rfl⟩ := mem_percent_iff.mp hopened
    obtain ⟨rows, hrows, hapart, rfl⟩ := mem_rows_iff.mp hbody
    obtain ⟨last, hlast, hread, rfl⟩ := mem_line_iff_exists_isLine.mp hend
    obtain ⟨closed, rfl⟩ := mem_percent_iff.mp hclosed
    have hloose : IsLoose ⟨opened, rows, last, closed⟩ := ⟨hrows, hlast, hread, hapart⟩
    obtain ⟨s, hs, hread, hchars⟩ := hloose.exists_isScript
    exact ⟨s, hs, hread, by rw [hchars, Script.chars_eq]⟩
  · rintro ⟨s, hs, hread, rfl⟩
    have hrows : ∀ row ∈ s.rows, row.IsSound := fun row hrow =>
      ⟨hs.rows row hrow, hread.rows row hrow⟩
    rw [Script.chars_eq]
    refine Language.append_mem_mul (Language.append_mem_mul (Language.append_mem_mul ?_ ?_) ?_) ?_
    · exact mem_percent_iff.mpr ⟨s.opened, rfl⟩
    · exact mem_rows_iff.mpr ⟨s.rows, hrows, hs.apart, rfl⟩
    · exact mem_line_iff_exists_isLine.mpr ⟨s.last, hs.last, hread.last, rfl⟩
    · exact mem_percent_iff.mpr ⟨s.closed, rfl⟩

theorem mem_snippet_iff {cs : List Char} : cs ∈ snippet ↔
    ∃ s : Script, s.IsScript ∧ s.IsReadable ∧ cs = s.chars ∧ s.opened = false ∧ s.closed = false := by
  constructor
  · intro hcs
    obtain ⟨_, hbody, _, hend, rfl⟩ := Language.mem_mul.mp hcs
    obtain ⟨rows, hrows, hapart, rfl⟩ := mem_rows_iff.mp hbody
    obtain ⟨last, hlast, hread, rfl⟩ := mem_line_iff_exists_isLine.mp hend
    have hloose : IsLoose ⟨false, rows, last, false⟩ := ⟨hrows, hlast, hread, hapart⟩
    refine ⟨_, hloose.isScript (absurd · Bool.false_ne_true), hloose.isReadable, ?_, rfl, rfl⟩
    simp [Script.chars_eq, Script.sign]
  · rintro ⟨s, hs, hread, rfl, hopened, hclosed⟩
    have hrows : ∀ row ∈ s.rows, row.IsSound := fun row hrow =>
      ⟨hs.rows row hrow, hread.rows row hrow⟩
    have hchars : s.chars = text (Row.allLexemes s.rows) ++ text (Phrase.allLexemes s.last) := by
      simp [Script.chars_eq, hopened, hclosed, Script.sign]
    rw [hchars]
    refine Language.append_mem_mul ?_ ?_
    · exact mem_rows_iff.mpr ⟨s.rows, hrows, hs.apart, rfl⟩
    · exact mem_line_iff_exists_isLine.mpr ⟨s.last, hs.last, hread.last, rfl⟩

end Grammar

/-- The texts that can be read are exactly the words of the grammar. -/
theorem accepted_language (source : String) :
    ((∃ d, parseSnippet source = .ok d) ↔ source.toList ∈ Grammar.snippet) ∧
      ((∃ d, parseFile source = .ok d) ↔ source.toList ∈ Grammar.file) ∧
      ((∃ l, parseLine source = .ok l) ↔ source.toList ∈ Grammar.line) := by
  refine ⟨?_, ?_, ?_⟩
  · simp only [parseSnippet_eq_ok_iff, Grammar.mem_snippet_iff]
    constructor
    · rintro ⟨d, s, hs, hread, hsource, hopened, hclosed, -⟩
      exact ⟨s, hs, hread, hsource, hopened, hclosed⟩
    · rintro ⟨s, hs, hread, hsource, hopened, hclosed⟩
      exact ⟨_, s, hs, hread, hsource, hopened, hclosed, rfl⟩
  · simp only [parseFile_eq_ok_iff, Grammar.mem_file_iff]
    constructor
    · rintro ⟨d, s, hs, hread, hsource, -⟩
      exact ⟨s, hs, hread, hsource⟩
    · rintro ⟨s, hs, hread, hsource⟩
      exact ⟨_, s, hs, hread, hsource, rfl⟩
  · simp only [parseLine_eq_ok_iff, Grammar.mem_line_iff_exists_isLine]
    constructor
    · rintro ⟨l, ps, hps, hread, hsource, -⟩
      exact ⟨ps, hps, hread, hsource⟩
    · rintro ⟨ps, hps, hread, hsource⟩
      exact ⟨_, ps, hps, hread, hsource, rfl⟩

end NcProgram
