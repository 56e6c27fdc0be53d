import NcProgram.Proofs.Node.Shift
import NcProgram.Proofs.Script.Source

namespace NcProgram

open Lexeme

theorem Line.isBlank_shift (k : Nat) (l : Line Item) : (l.shift k).isBlank = l.isBlank := by
  simp [LineViews.isBlank, Line.shift, LineViews.shift]

theorem Line.unlessBlank_shift (k : Nat) (l : Line Item) :
    (l.shift k).unlessBlank = l.unlessBlank.map (Line.shift k) := by
  rw [unlessBlank, unlessBlank, isBlank_shift]
  cases l.isBlank <;> rfl

/-- A terminated line with every offset in it moved. -/
def Line.shiftTerminated (k : Nat) (p : Line Item × Trivia) : Line Item × Trivia :=
  (p.1.shift k, p.2.shift k)

theorem Row.pair_add (o k : Nat) (row : Row) :
    row.pair (o + k) = Line.shiftTerminated k (row.pair o) := by
  rw [pair, Phrase.line_add, Nat.add_right_comm o k (Phrase.textSize row.phrases)]
  rfl

theorem Row.lines_add (o k : Nat) (rows : List Row) :
    lines (o + k) rows = (lines o rows).map (Line.shiftTerminated k) := by
  induction rows generalizing o with
  | nil => rfl
  | cons row rows ih =>
      rw [lines, lines, List.map_cons, Nat.add_right_comm o k row.size, ih, pair_add]

namespace Script

/-- The script with percent signs around it. -/
def delimited (s : Script) : Script :=
  { s with opened := true, closed := true }

theorem chars_delimited {s : Script} (hopened : s.opened = false) (hclosed : s.closed = false) :
    s.delimited.chars = '%' :: s.chars ++ ['%'] := by
  simp [chars_eq, delimited, sign, hopened, hclosed, percent]

theorem IsScript.delimited {s : Script} (h : s.IsScript)
    (hcomment : ∀ p ∈ s.last.getLast?, p.part ≠ .trivia .comment) : s.delimited.IsScript :=
  ⟨h.rows, h.last, h.apart, fun _ => ⟨hcomment, .inl rfl⟩⟩

theorem document_delimited {s : Script} (hopened : s.opened = false) (hclosed : s.closed = false)
    (kind kind' : DocumentKind) : s.delimited.document kind = ⟨kind,
      (s.document kind').lines.map (Line.shiftTerminated 1),
      (s.document kind').lastLine.map (Line.shift 1),
      .ofSize 0 (Text.utf8Length s.chars + 2)⟩ := by
  have hsign : text (sign s.delimited.opened) = ['%'] := rfl
  have hnone : text (sign s.opened) = [] := by rw [hopened]; rfl
  have hpercent : '%'.utf8Size = 1 := rfl
  have hrows : s.delimited.rowsMark.offset = s.rowsMark.offset + 1 := by
    rw [offset_rowsMark, offset_rowsMark, hsign, hnone]
    rfl
  have hlast : s.delimited.lastMark.offset = s.lastMark.offset + 1 := by
    rw [offset_lastMark, offset_lastMark, hsign, hnone]
    exact Nat.add_comm 1 _
  have hsize : Text.utf8Length s.delimited.chars = Text.utf8Length s.chars + 2 := by
    rw [chars_delimited hopened hclosed]
    simp only [List.cons_append, Text.utf8Length_cons, Text.utf8Length_append, Text.utf8Length_nil,
      hpercent]
    omega
  rw [document, hrows, hlast, hsize, Row.lines_add]
  have hline := Phrase.line_add s.lastMark.offset 1 s.last
  exact congrArg (Document.mk kind _ · _)
    ((congrArg Line.unlessBlank hline).trans (Line.unlessBlank_shift 1 _))

theorem part_ne_comment {s : Script} (h : Phrase.IsLine s.last) {kind : DocumentKind}
    (hcomment : ∀ l ∈ (s.document kind).lastLine, l.comment = none) :
    ∀ p ∈ s.last.getLast?, p.part ≠ .trivia .comment := by
  intro p hp hpart
  have hmem := List.mem_of_mem_getLast? hp
  have hblank : (Phrase.line s.lastMark.offset s.last).isBlank = false := by
    rw [Bool.eq_false_iff, ne_eq, Phrase.isBlank_line_iff h]
    intro hall
    cases hpart.symm.trans (hall p hmem)
  have hnone : (Phrase.items s.lastMark.offset s.last).findSome? (Item.trivia? .comment) = none :=
    hcomment _ (by rw [document, Line.unlessBlank, hblank]; rfl)
  have hitems : .trivia .comment ∈ (Phrase.items s.lastMark.offset s.last).map Item.part := by
    rw [Phrase.map_part_items, ← hpart]
    exact List.mem_map_of_mem hmem
  obtain ⟨i, hi, hkind⟩ := List.mem_map.mp hitems
  have hi := List.findSome?_eq_none_iff.mp hnone i hi
  cases i with
  | field | checksum => cases hkind
  | trivia t =>
      obtain hkind : t.kind = .comment := by simpa [Item.part] using hkind
      simp [Item.trivia?, hkind] at hi

end Script

theorem files_and_snippets_agree (source : String) :
    ((∃ d, parseSnippet source = .ok d) ↔
      ∃ f, parseFile source = .ok f ∧ f.kind = .file false false) ∧
    (∀ d f, parseSnippet source = .ok d → parseFile source = .ok f →
      d.kind = .snippet ∧ f.kind = .file false false ∧ d.lines = f.lines ∧
        d.lastLine = f.lastLine ∧ d.span = f.span) ∧
    ∀ d, parseSnippet source = .ok d → (∀ l ∈ d.lastLine, l.comment = none) →
      parseFile ("%" ++ source ++ "%") = .ok ⟨.file true true,
        d.lines.map (Line.shiftTerminated 1), d.lastLine.map (Line.shift 1),
        .ofSize 0 (Text.utf8Length source.toList + 2)⟩ := by
  refine ⟨?_, ?_, ?_⟩
  · constructor
    · rintro ⟨d, hd⟩
      exact ⟨_, (parseSnippet_eq_ok_iff_parseFile.mp hd).2, rfl⟩
    · rintro ⟨⟨kind, lines, last, span⟩, hf, rfl⟩
      exact ⟨⟨.snippet, lines, last, span⟩, parseSnippet_eq_ok_iff_parseFile.mpr ⟨rfl, hf⟩⟩
  · intro d f hd hf
    obtain ⟨hkind, hfile⟩ := parseSnippet_eq_ok_iff_parseFile.mp hd
    cases hf.symm.trans hfile
    exact ⟨hkind, rfl, rfl, rfl, rfl⟩
  · intro d hd hcomment
    obtain ⟨s, hs, hread, htext, hopened, hclosed, rfl⟩ := parseSnippet_eq_ok_iff.mp hd
    have hlast := Script.part_ne_comment hs.last hcomment
    refine parseFile_eq_ok_iff.mpr
      ⟨s.delimited, hs.delimited hlast, ⟨hread.rows, hread.last⟩, ?_, ?_⟩
    · rw [String.toList_append, String.toList_append, htext,
        Script.chars_delimited hopened hclosed]
      rfl
    · rw [htext]
      exact (Script.document_delimited hopened hclosed _ .snippet).symm

theorem files_and_snippets_agree_after_return :
    ∃ d, parseSnippet "(é)\rX1" = .ok d ∧ parseFile "%(é)\rX1%" = .ok ⟨.file true true,
      d.lines.map (Line.shiftTerminated 1), d.lastLine.map (Line.shift 1), .ofSize 0 9⟩ := by
  let s : Script := ⟨false, [⟨[.trivia .inlineComment ['(', 'é', ')']], ['\r']⟩],
    [.number ['X'] (.whole false ['1'])], false⟩
  have hd : parseSnippet "(é)\rX1" = .ok (s.document .snippet) :=
    parseSnippet_eq_ok_iff.mpr ⟨s, by decide, by decide, by decide, rfl, rfl, rfl⟩
  obtain ⟨-, -, hfile⟩ := files_and_snippets_agree "(é)\rX1"
  refine ⟨_, hd, hfile _ hd ?_⟩
  rintro l ⟨⟩
  rfl

end NcProgram
