import NcProgram.Proofs.RoundTrip
import NcProgram.Proofs.Grammar.Line

/-!
Reading what was written of a program. A last row that shows nothing is not written, and the signs,
the lines and the last line come back without it. The exception is a closing sign with nothing but
such a row in front of it: written alone, it is read as the sign that opens a program.
-/

namespace NcProgram

open Lexeme

/-- What is written of the document is read as the same document, but for its span. -/
def Document.ReadsBack (d : Document Item) : Prop :=
  ∃ text e, (Node.ofDocument d).source = .ok text ∧ parseFile text = .ok e ∧
    e.kind = d.kind ∧ e.lines = d.lines ∧ e.lastLine = d.lastLine

/-- What is written of the document is its closing sign alone, and that is read as an opening one. -/
structure Document.ReadsBackOpened (d : Document Item) : Prop where
  kind : d.kind = .file false true
  source : (Node.ofDocument d).source = .ok "%"
  opened : ∃ e, parseFile "%" = .ok e ∧
    e.kind = .file true false ∧ e.lines = d.lines ∧ e.lastLine = d.lastLine

/-- The text is a percent sign behind spaces and tabs. -/
def IsLonePercent (source : String) : Prop :=
  ∃ blanks, IsRun isSpace blanks ∧ source.toList = blanks ++ ['%']

theorem Document.ReadsBackOpened.not_readsBack {d : Document Item} (h : d.ReadsBackOpened) :
    ¬ d.ReadsBack := by
  rintro ⟨text, e, htext, he, hkind, -, -⟩
  obtain ⟨e', he', hopened, -, -⟩ := h.opened
  obtain rfl : "%" = text := Except.ok.inj (h.source.symm.trans htext)
  obtain rfl : e' = e := Except.ok.inj (he'.symm.trans he)
  rw [h.kind, hopened] at hkind
  cases hkind

namespace Script

def kept (s : Script) : Script :=
  { s with last := s.keptLast }

/-- The closing sign of a script is not all that is written of it. -/
def KeepsSign (s : Script) : Prop :=
  s.closed = true → s.opened = true ∨ s.rows ≠ [] ∨ s.keptLast ≠ []

theorem source_document_kept {s : Script} (h : s.IsScript) (hread : s.IsReadable)
    {kind : DocumentKind} (hopened : kind.startPercent = s.opened)
    (hclosed : kind.endPercent = s.closed) :
    (Node.ofDocument (s.document kind)).source = .ok (String.ofList s.kept.chars) := by
  rw [source_document h hread hopened hclosed, chars_eq]
  rfl

theorem lastLine_kept (kind : DocumentKind) (s : Script) :
    (s.kept.document kind).lastLine = (s.document kind).lastLine := by
  have hmark : s.kept.lastMark = s.lastMark := rfl
  simp only [document, hmark]
  unfold kept keptLast
  split
  next hblank =>
    rw [Line.unlessBlank, Line.unlessBlank, if_pos hblank]
    rfl
  next => rfl

theorem IsReadable.kept {s : Script} (h : s.IsReadable) : s.kept.IsReadable := by
  refine ⟨h.rows, ?_⟩
  unfold Script.kept keptLast
  split
  · simp
  · exact h.last

theorem IsScript.kept {s : Script} (h : s.IsScript) (hsign : s.KeepsSign) : s.kept.IsScript := by
  by_cases hblank : (Phrase.line s.lastMark.offset s.last).isBlank = true
  · have hnil : s.kept.last = [] := if_pos hblank
    refine ⟨h.rows, ?_, h.apart, fun hclosed => ⟨?_, hsign hclosed⟩⟩
    · rw [hnil]
      decide
    · simp [hnil]
  · have hlast : s.keptLast = s.last := if_neg hblank
    have heq : s.kept = s := by
      rw [Script.kept, hlast]
    rw [heq]
    exact h

theorem readsBack_document {s : Script} (h : s.IsScript) (hread : s.IsReadable)
    (hsign : s.KeepsSign) : (s.document (.file s.opened s.closed)).ReadsBack := by
  have hsource : (Node.ofDocument (s.document (.file s.opened s.closed))).source = _ :=
    source_document_kept h hread rfl rfl
  have hkept := parseFile_eq_ok_iff.mpr
    ⟨s.kept, h.kept hsign, hread.kept, String.toList_ofList, rfl⟩
  exact ⟨_, _, hsource, hkept, rfl, rfl, lastLine_kept _ s⟩

/-- A sign that does not stay a closing one has only a row of spaces and tabs in front of it. -/
theorem isLonePercent_of_not_keepsSign {s : Script} (h : s.IsScript) {source : String}
    (hsource : source.toList = s.chars) (hsign : ¬ s.KeepsSign) : IsLonePercent source := by
  obtain ⟨opened, rows, last, closed⟩ := s
  simp only [KeepsSign, Classical.not_imp, not_or, not_not, Bool.not_eq_true] at hsign
  obtain ⟨rfl, rfl, rfl, hkept⟩ := hsign
  -- a sign with no row at all in front of it would have opened the script
  have hlast : last ≠ [] := by simpa using (h.closing rfl).nonempty
  have htext : text (Phrase.allLexemes last) ≠ [] := mt h.last.eq_nil_of_text hlast
  have hspace : (text (Phrase.allLexemes last)).all isSpace = true := by
    rw [← Phrase.isBlank_line_iff_isSpace h.last]
    by_contra hblank
    exact hlast ((if_neg hblank).symm.trans hkept)
  exact ⟨_, ⟨htext, List.all_eq_true.mp hspace⟩, by simp [hsource, chars, lexemes, sign, percent]⟩

def lonePercent (blanks : List Char) : Script :=
  ⟨false, [], [.trivia .whitespace blanks], true⟩

theorem isScript_lonePercent {blanks : List Char} (h : IsRun isSpace blanks) :
    (lonePercent blanks).IsScript := by
  have hshapes := (Grammar.isSound_blank_iff.mpr h).1
  have hordered : Parse.Seen.none.Ordered [.trivia .whitespace] := by decide
  refine ⟨by simp [lonePercent], ?_, .nil, fun _ => ⟨?_, by simp [lonePercent]⟩⟩
  · exact ⟨List.forall_mem_singleton.mpr hshapes, hordered, List.isChain_singleton _⟩
  · simp [lonePercent, Phrase.part]

theorem kept_lonePercent {blanks : List Char} (h : IsRun isSpace blanks) :
    (lonePercent blanks).kept = ⟨false, [], [], true⟩ := by
  have hblank := Phrase.isBlank_line_iff (isScript_lonePercent h).last
    (lonePercent blanks).lastMark.offset
  have hnil : (lonePercent blanks).keptLast = [] :=
    if_pos (hblank.mpr (by simp [lonePercent, Phrase.part]))
  rw [kept, hnil]
  rfl

end Script

theorem readsBackOpened_of_isLonePercent {source : String} {d : Document Item}
    (h : parseFile source = .ok d) (hlone : IsLonePercent source) : d.ReadsBackOpened := by
  obtain ⟨blanks, hblanks, hsource⟩ := hlone
  have hs := Script.isScript_lonePercent hblanks
  have hread : (Script.lonePercent blanks).IsReadable :=
    ⟨by simp [Script.lonePercent], List.forall_mem_singleton.mpr ⟨trivial, trivial⟩⟩
  have hparse := parseFile_eq_ok_iff.mpr ⟨Script.lonePercent blanks, hs, hread, hsource, rfl⟩
  -- a text has one reading, so this script is the one that was read
  obtain rfl := Except.ok.inj (hparse.symm.trans h)
  have hopened := parseFile_eq_ok_iff.mpr
    ⟨⟨true, [], [], false⟩, by decide, by decide, show "%".toList = _ by decide, rfl⟩
  have hlast := Script.lastLine_kept (.file false true) (Script.lonePercent blanks)
  refine ⟨rfl, ?_, _, hopened, rfl, rfl, ?_⟩
  · rw [Script.source_document_kept hs hread rfl rfl, Script.kept_lonePercent hblanks]
    rfl
  · rw [Script.kept_lonePercent hblanks] at hlast
    exact hlast

/-- A program is read back from what is written of it, unless that is a closing sign alone. -/
theorem reads_back_unless_lone_percent {source : String} {d : Document Item}
    (h : parseFile source = .ok d) :
    (d.ReadsBack ↔ ¬ IsLonePercent source) ∧ (IsLonePercent source → d.ReadsBackOpened) := by
  refine ⟨⟨?_, ?_⟩, readsBackOpened_of_isLonePercent h⟩
  · intro hback hlone
    exact (readsBackOpened_of_isLonePercent h hlone).not_readsBack hback
  · intro hlone
    obtain ⟨s, hs, hread, hsource, rfl⟩ := parseFile_eq_ok_iff.mp h
    apply Script.readsBack_document hs hread
    by_contra hsign
    exact hlone (Script.isLonePercent_of_not_keepsSign hs hsource hsign)

theorem reads_back_without_blank_row :
    ∃ d, parseFile "G1\n \t%" = .ok d ∧ d.lastLine.isNone ∧ d.ReadsBack := by
  have hlone : ¬ IsLonePercent "G1\n \t%" := by
    rintro ⟨blanks, ⟨-, hspace⟩, hsource⟩
    obtain rfl : ['G', '1', '\n', ' ', '\t'] = blanks := List.append_cancel_right hsource
    exact absurd (hspace 'G' (by decide)) (by decide)
  have hparse := parseFile_eq_ok_iff.mpr ⟨⟨false, [⟨[.number ['G'] (.whole false ['1'])], ['\n']⟩],
    [.trivia .whitespace [' ', '\t']], true⟩, by decide, by decide,
    show "G1\n \t%".toList = _ by decide, rfl⟩
  exact ⟨_, hparse, rfl, (reads_back_unless_lone_percent hparse).1.mpr hlone⟩

theorem lone_percent_not_read_back :
    ∃ d, parseFile " %" = .ok d ∧ (Node.ofDocument d).source = .ok "%" ∧ ¬ d.ReadsBack := by
  have hblanks : IsRun isSpace [' '] := ⟨List.cons_ne_nil _ _, List.forall_mem_singleton.mpr rfl⟩
  have hparse := parseFile_eq_ok_iff.mpr ⟨Script.lonePercent [' '],
    Script.isScript_lonePercent hblanks, by decide, show " %".toList = _ by decide, rfl⟩
  have hopened := readsBackOpened_of_isLonePercent hparse ⟨[' '], hblanks, rfl⟩
  exact ⟨_, hparse, hopened.source, hopened.not_readsBack⟩

end NcProgram
