import NcProgram.Proofs.Node.Shift
import NcProgram.Proofs.Script.Source
import NcProgram.Proofs.TextRow

namespace NcProgram

open Lexeme

namespace Row

theorem getElem?_lines (o : Nat) (rows : List Row) (i : Nat) :
    (lines o rows)[i]? = rows[i]?.map fun row =>
      let o := o + Text.utf8Length (text (allLexemes (rows.take i)))
      (Phrase.line o row.phrases,
        ⟨.newline, String.ofList row.ending, (o + Phrase.textSize row.phrases : Nat)⟩) := by
  induction rows generalizing o i with
  | nil => rfl
  | cons row rows ih =>
      cases i with
      | zero => rfl
      | succ i =>
          simp only [lines, List.getElem?_cons_succ, ih, List.take_succ_cons, allLexemes_cons,
            text_append, Text.utf8Length_append, size_eq, Nat.add_assoc]

theorem length_lines (o : Nat) (rows : List Row) : (lines o rows).length = rows.length := by
  induction rows generalizing o with
  | nil => rfl
  | cons row rows ih => simp [lines, ih]

end Row

theorem parseLine_of_isLine {ps : List Phrase} (h : Phrase.IsLine ps)
    (hread : ∀ p ∈ ps, p.IsReadable) :
    parseLine (String.ofList (text (Phrase.allLexemes ps))) = .ok (Phrase.line 0 ps) :=
  parseLine_eq_ok_iff.mpr ⟨ps, h, hread, String.toList_ofList, rfl⟩

theorem exists_isLine_of_parseLine {s : String} {l : Line Item} (h : parseLine s = .ok l) :
    ∃ ps, (Phrase.IsLine ps ∧ ∀ p ∈ ps, p.IsReadable) ∧
      String.ofList (text (Phrase.allLexemes ps)) = s := by
  obtain ⟨ps, hps, hread, htext, -⟩ := parseLine_eq_ok_iff.mp h
  exact ⟨ps, ⟨hps, hread⟩, by rw [← htext, String.ofList_toList]⟩

theorem exists_isSound_of_parseLine {row : TextRow} (hrow : row.IsRow) {l : Line Item}
    (h : parseLine row.text = .ok l) : ∃ r : Row, r.IsSound ∧ r.toText = row := by
  obtain ⟨ps, ⟨hps, hread⟩, htext⟩ := exists_isLine_of_parseLine h
  have hending : HasShape .newline row.ending.toList := by
    rcases hrow.ending with hending | hending | hending <;> rw [hending] <;> decide
  refine ⟨⟨ps, row.ending.toList⟩, ⟨⟨hps, hending⟩, hread⟩, ?_⟩
  rw [Row.toText, htext, String.ofList_toList]

theorem parseSnippet_join_iff {rows : List TextRow} {last : String} (hrows : ∀ row ∈ rows, row.IsRow)
    (hlast : TextRow.IsUnbroken last) (hapart : rows.IsChain TextRow.Apart) {d : Document Item} :
    parseSnippet (TextRow.join rows ++ last) = .ok d ↔ ∃ (rs : List Row) (ps : List Phrase),
      (∀ r ∈ rs, r.IsSound) ∧ (Phrase.IsLine ps ∧ ∀ p ∈ ps, p.IsReadable) ∧
        rs.map Row.toText = rows ∧ String.ofList (text (Phrase.allLexemes ps)) = last ∧
        d = Script.document .snippet ⟨false, rs, ps, false⟩ := by
  have htext (rs : List Row) (ps : List Phrase) :
      String.ofList (Script.chars ⟨false, rs, ps, false⟩) =
        TextRow.join (rs.map Row.toText) ++ String.ofList (text (Phrase.allLexemes ps)) := by
    rw [Row.join_toText, ← String.ofList_append]
    simp [Script.chars, Script.lexemes, Script.sign]
  rw [parseSnippet_eq_ok_iff]
  constructor
  · rintro ⟨⟨opened, rs, ps, closed⟩, hs, hread, hsource, rfl, rfl, rfl⟩
    have hjoin := congrArg String.ofList hsource
    rw [String.ofList_toList, htext] at hjoin
    obtain ⟨rfl, rfl⟩ := TextRow.eq_of_join_append hrows
      (List.forall_mem_map.mpr fun r hr => Row.isRow_toText (hs.rows r hr)) hlast
      (Row.isUnbroken_text hs.last) hapart ((Row.isChain_toText_iff hs.rows).mpr hs.apart) hjoin
    exact ⟨rs, ps, fun r hr => ⟨hs.rows r hr, hread.rows r hr⟩, ⟨hs.last, hread.last⟩, rfl, rfl, rfl⟩
  · rintro ⟨rs, ps, hrs, ⟨hps, hread⟩, rfl, rfl, rfl⟩
    have hisRow : ∀ r ∈ rs, r.IsRow := fun r hr => (hrs r hr).isRow
    refine ⟨⟨false, rs, ps, false⟩, ⟨hisRow, hps, (Row.isChain_toText_iff hisRow).mp hapart,
      (absurd · Bool.false_ne_true)⟩, ⟨fun r hr => (hrs r hr).readable, hread⟩, ?_, rfl, rfl, rfl⟩
    rw [← htext, String.toList_ofList]

theorem offset_toText (rs : List Row) (i : Nat) : TextRow.offset (rs.map Row.toText) i =
    Text.utf8Length (text (Row.allLexemes (rs.take i))) := by
  rw [TextRow.offset, ← List.map_take, Row.join_toText, String.toList_ofList]

theorem getElem?_lines_eq {rs : List Row} (hrs : ∀ r ∈ rs, r.IsSound) {i : Nat} {row : TextRow}
    (hrow : (rs.map Row.toText)[i]? = some row) : ∃ l, parseLine row.text = .ok l ∧
      (Row.lines 0 rs)[i]? = some (l.shift (TextRow.offset (rs.map Row.toText) i), ⟨.newline,
        row.ending, (TextRow.offset (rs.map Row.toText) i +
          Text.utf8Length row.text.toList : Nat)⟩) := by
  rw [List.getElem?_map, Option.map_eq_some_iff] at hrow
  obtain ⟨r, hr, rfl⟩ := hrow
  obtain ⟨hisRow, hread⟩ := hrs r (List.mem_of_getElem? hr)
  refine ⟨_, parseLine_of_isLine hisRow.line hread, ?_⟩
  rw [Row.getElem?_lines, hr, offset_toText, ← Phrase.line_shift, Nat.zero_add, Row.toText,
    String.toList_ofList]
  rfl

/-- A bare run of lines is read exactly when each line is read alone, and consists of these lines,
each moved by the text before it. -/
theorem snippet_is_its_lines {rows : List TextRow} {last : String} (hrows : ∀ row ∈ rows, row.IsRow)
    (hlast : TextRow.IsUnbroken last) (hapart : rows.IsChain TextRow.Apart) :
    ((∃ d, parseSnippet (TextRow.join rows ++ last) = .ok d) ↔
      (∀ row ∈ rows, ∃ l, parseLine row.text = .ok l) ∧ ∃ l, parseLine last = .ok l) ∧
    ∀ d, parseSnippet (TextRow.join rows ++ last) = .ok d →
      d.lines.length = rows.length ∧
      (∀ i row, rows[i]? = some row → ∃ l, parseLine row.text = .ok l ∧
        d.lines[i]? = some (l.shift (TextRow.offset rows i), ⟨.newline, row.ending,
          (TextRow.offset rows i + Text.utf8Length row.text.toList : Nat)⟩)) ∧
      ∃ l, parseLine last = .ok l ∧ d.lastLine =
        if l.isBlank then none else some (l.shift (TextRow.offset rows rows.length)) := by
  have hread {d : Document Item} := parseSnippet_join_iff hrows hlast hapart (d := d)
  constructor
  · constructor
    · rintro ⟨d, hd⟩
      obtain ⟨rs, ps, hrs, ⟨hps, hpsread⟩, rfl, rfl, -⟩ := hread.mp hd
      refine ⟨?_, _, parseLine_of_isLine hps hpsread⟩
      intro row hrow
      obtain ⟨r, hr, rfl⟩ := List.mem_map.mp hrow
      exact ⟨_, parseLine_of_isLine (hrs r hr).isRow.line (hrs r hr).readable⟩
    · rintro ⟨hlines, l, hl⟩
      have hsound : ∀ row ∈ rows, ∃ r : Row, r.IsSound ∧ r.toText = row := by
        intro row hrow
        obtain ⟨l, hl⟩ := hlines row hrow
        exact exists_isSound_of_parseLine (hrows row hrow) hl
      obtain ⟨rs, hrs, heq⟩ := exists_map_eq hsound
      obtain ⟨ps, hps, htext⟩ := exists_isLine_of_parseLine hl
      exact ⟨_, hread.mpr ⟨rs, ps, hrs, hps, heq, htext, rfl⟩⟩
  · intro d hd
    obtain ⟨rs, ps, hrs, ⟨hps, hpsread⟩, rfl, rfl, rfl⟩ := hread.mp hd
    have hoffset : TextRow.offset (rs.map Row.toText) (rs.map Row.toText).length =
        Text.utf8Length (text (Row.allLexemes rs)) := by
      rw [offset_toText, List.length_map, List.take_length]
    rw [Script.document_snippet]
    refine ⟨?_, ?_, _, parseLine_of_isLine hps hpsread, ?_⟩
    · rw [List.length_map]
      exact Row.length_lines _ rs
    · exact fun i row hrow => getElem?_lines_eq hrs hrow
    · rw [Phrase.isBlank_line hps 0 (Text.utf8Length (text (Row.allLexemes rs))), hoffset,
        ← Phrase.line_shift]
      rfl

theorem snippet_is_its_lines_after_returns :
    ∃ d, parseSnippet "G1\r\r\n\tX.5" = .ok d ∧ d.lines.length = 2 ∧
      ∃ l, parseLine "\tX.5" = .ok l ∧
        d.lastLine = if l.isBlank then none else some (l.shift 5) := by
  have hsource : TextRow.join [⟨"G1", "\r"⟩, ⟨"", "\r\n"⟩] ++ "\tX.5" = "G1\r\r\n\tX.5" := by
    decide
  have hoffset : TextRow.offset [⟨"G1", "\r"⟩, ⟨"", "\r\n"⟩] 2 = 5 := by decide
  have hfirst : ∃ l, parseLine "G1" = .ok l :=
    ⟨_, parseLine_eq_ok_iff.mpr ⟨[.number ['G'] (.whole false ['1'])], by decide, by decide,
      by decide, rfl⟩⟩
  have hsecond : ∃ l, parseLine "" = .ok l :=
    ⟨_, parseLine_eq_ok_iff.mpr ⟨[], by decide, by decide, by decide, rfl⟩⟩
  have hlast : ∃ l, parseLine "\tX.5" = .ok l :=
    ⟨_, parseLine_eq_ok_iff.mpr ⟨[.trivia .whitespace ['\t'], .number ['X'] (.fraction false ['5'])],
      by decide, by decide, by decide, rfl⟩⟩
  obtain ⟨hreturns, hvalue⟩ := snippet_is_its_lines
    (show ∀ row ∈ [TextRow.mk "G1" "\r", ⟨"", "\r\n"⟩], row.IsRow by decide)
    (show TextRow.IsUnbroken "\tX.5" by decide)
    (show [TextRow.mk "G1" "\r", ⟨"", "\r\n"⟩].IsChain TextRow.Apart by decide)
  obtain ⟨d, hd⟩ := hreturns.mpr ⟨by simp [hfirst, hsecond], hlast⟩
  obtain ⟨hlength, -, l, hl, hlastLine⟩ := hvalue d hd
  rw [hsource] at hd
  exact ⟨d, hd, hlength, l, hl, hoffset ▸ hlastLine⟩

end NcProgram
