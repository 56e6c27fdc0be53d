import NcProgram.Proofs.Node.Printing

namespace NcProgram

open Lexeme

def Item.span : Item → Except Fault Span
  | field f => .ok f.span
  | checksum c => .ok c.span
  | trivia t => t.span

/-- The item is written as the text that its span covers. -/
def Item.IsSlice (source : String) (i : Item) : Prop :=
  ∃ span text, i.span = .ok span ∧ span.slice? source = some text ∧
    (Node.item i).source = .ok text

/-- The line, its items and its views are written as the texts that their spans cover. -/
structure Line.IsLossless (source : String) (l : Line Item) : Prop where
  line : ∃ text, l.span.slice? source = some text ∧ (Node.ofLine l).source = .ok text
  items : ∀ i ∈ l.items, i.IsSlice source
  views : ∀ i ∈ l.parts, i.IsSlice source

/-- The text is that of the document but for a last row of spaces and tabs. The last row is what
stands behind the last line break, between the percent signs. -/
def Document.IsWritten (source : String) (d : Document Item) : Prop :=
  ∃ body last : List Char,
    (∀ c ∈ body.getLast?, isLineBreak c = true) ∧ (∀ c ∈ last, isLineBreak c = false) ∧
    source.toList = (percentSign d.kind.startPercent).toList ++ body ++ last ++
      (percentSign d.kind.endPercent).toList ∧
    (Node.ofDocument d).source = .ok (String.ofList
      ((percentSign d.kind.startPercent).toList ++ body ++ (if last.all isSpace then [] else last) ++
        (percentSign d.kind.endPercent).toList))

structure Document.IsLossless (source : String) (d : Document Item) : Prop where
  lines : ∀ p ∈ d.lines, p.1.IsLossless source ∧ (Item.trivia p.2).IsSlice source
  lastLine : ∀ l ∈ d.lastLine, l.IsLossless source
  written : d.IsWritten source

theorem Trivia.span_ofList (kind : TriviaKind) (chars : List Char) (o : Nat) :
    (Trivia.mk kind (String.ofList chars) o).span = .ok (.ofSize o (Text.utf8Length chars)) := by
  rw [span, String.toList_ofList]
  exact Extent.span_eq_ok o (Text.utf8Length chars)

namespace Phrase

theorem span_item (o : Nat) (p : Phrase) : (p.item o).span = .ok (.ofSize o p.size) := by
  cases p with
  | trivia kind chars =>
      have hsize : (trivia kind chars).size = Text.utf8Length chars := by
        simp [size, Phrase.chars, lexemes]
      rw [hsize]
      exact Trivia.span_ofList kind chars o
  | number letters numeral => rfl
  | literal letters chars => rfl
  | checksum digits => rfl

theorem isSlice_item {p : Phrase} (hshapes : p.HasShapes) (hread : p.IsReadable) {source : String}
    {front back : List Char} (h : source.toList = front ++ (p.chars ++ back)) :
    (p.item (Text.utf8Length front)).IsSlice source :=
  ⟨_, _, span_item _ p, Span.slice?_ofSize h, source_node hshapes hread _⟩

theorem exists_of_mem_items {ps : List Phrase} {source : String} {front back : List Char}
    (h : source.toList = front ++ (text (allLexemes ps) ++ back)) :
    ∀ i ∈ items (Text.utf8Length front) ps, ∃ p ∈ ps, ∃ before after,
      source.toList = before ++ (p.chars ++ after) ∧ i = p.item (Text.utf8Length before) := by
  induction ps generalizing front with
  | nil => nofun
  | cons p ps ih =>
      rw [allLexemes_cons, text_append, List.append_assoc] at h
      have hback : source.toList = front ++ p.chars ++ (text (allLexemes ps) ++ back) := by
        rw [h, List.append_assoc]
        rfl
      have hrest := ih hback
      rw [Text.utf8Length_append] at hrest
      refine List.forall_mem_cons.mpr ⟨⟨p, by simp, front, _, h, rfl⟩, fun i hi => ?_⟩
      obtain ⟨q, hq, hplace⟩ := hrest i hi
      exact ⟨q, List.mem_cons_of_mem p hq, hplace⟩

theorem isSlice_of_mem_items {ps : List Phrase} (hshapes : ∀ p ∈ ps, p.HasShapes)
    (hread : ∀ p ∈ ps, p.IsReadable) {source : String} {front back : List Char}
    (h : source.toList = front ++ (text (allLexemes ps) ++ back)) :
    ∀ i ∈ items (Text.utf8Length front) ps, i.IsSlice source := by
  intro i hi
  obtain ⟨p, hp, before, after, hplace, rfl⟩ := exists_of_mem_items h i hi
  exact isSlice_item (hshapes p hp) (hread p hp) hplace

theorem isLossless_line {ps : List Phrase} (h : IsLine ps) (hread : ∀ p ∈ ps, p.IsReadable)
    {source : String} {front back : List Char}
    (hsource : source.toList = front ++ (text (allLexemes ps) ++ back)) :
    (line (Text.utf8Length front) ps).IsLossless source := by
  have hitems := isSlice_of_mem_items h.shapes hread hsource
  exact ⟨⟨_, Span.slice?_ofSize hsource, source_line h hread _⟩, hitems,
    fun i hi => hitems i (LineViews.mem_of_mem_parts hi)⟩

end Phrase

namespace Row

theorem IsRow.isLossless {row : Row} (h : row.IsRow) (hread : ∀ p ∈ row.phrases, p.IsReadable)
    {source : String} {front back : List Char} (hsource : source.toList =
      front ++ (text (Phrase.allLexemes row.phrases) ++ (row.ending ++ back))) :
    (row.pair (Text.utf8Length front)).1.IsLossless source ∧
      (Item.trivia (row.pair (Text.utf8Length front)).2).IsSlice source := by
  -- a line end is written and placed as a phrase would be
  have hshapes : (Phrase.trivia .newline row.ending).HasShapes :=
    List.forall_mem_singleton.mpr h.ending
  have hbehind : source.toList = front ++ text (Phrase.allLexemes row.phrases) ++
      ((Phrase.trivia .newline row.ending).chars ++ back) := by
    simpa [Phrase.chars, Phrase.lexemes] using hsource
  have hending := Phrase.isSlice_item hshapes ⟨trivial, trivial⟩ hbehind
  rw [Text.utf8Length_append] at hending
  exact ⟨Phrase.isLossless_line h.line hread hsource, hending⟩

theorem isLineBreak_of_mem_getLast? {rows : List Row} (h : ∀ row ∈ rows, row.IsRow) :
    ∀ c ∈ (text (allLexemes rows)).getLast?, isLineBreak c = true := by
  rcases List.eq_nil_or_concat' rows with rfl | ⟨front, row, rfl⟩
  · simp
  · intro c hc
    have hending := (h row (by simp)).ending
    have htext : text (allLexemes (front ++ [row])) =
        text (allLexemes front ++ Phrase.allLexemes row.phrases) ++ row.ending := by
      simp [allLexemes, lexemes]
    rw [htext, List.getLast?_append_of_ne_nil _ hending.ne_nil] at hc
    exact hending.isLineBreak_eq (List.mem_of_mem_getLast? hc)

end Row

namespace Script

theorem text_keptLast {s : Script} (h : s.IsScript) : text (Phrase.allLexemes s.keptLast) =
    if (text (Phrase.allLexemes s.last)).all isSpace then [] else
      text (Phrase.allLexemes s.last) := by
  have hblank := Phrase.isBlank_line_iff_isSpace h.last s.lastMark.offset
  unfold keptLast
  by_cases hspace : (text (Phrase.allLexemes s.last)).all isSpace = true
  · rw [if_pos (hblank.mpr hspace), if_pos hspace, Phrase.allLexemes_nil, text_nil]
  · rw [if_neg (mt hblank.mp hspace), if_neg hspace]

theorem isWritten_document {s : Script} (h : s.IsScript) (hread : s.IsReadable) {source : String}
    (hsource : source.toList = s.chars) {kind : DocumentKind}
    (hopened : kind.startPercent = s.opened) (hclosed : kind.endPercent = s.closed) :
    (s.document kind).IsWritten source := by
  have hwritten := source_document h hread hopened hclosed
  have hkind : (s.document kind).kind = kind := rfl
  have hsign (present : Bool) : (percentSign present).toList = text (sign present) := by
    rw [percentSign_eq, String.toList_ofList]
  refine ⟨text (Row.allLexemes s.rows), text (Phrase.allLexemes s.last),
    Row.isLineBreak_of_mem_getLast? h.rows, Phrase.isLineBreak_eq_false h.last, ?_, ?_⟩
  · rw [hkind, hopened, hclosed, hsign, hsign, hsource, chars_eq]
  · rw [hwritten, hkind, hopened, hclosed, hsign, hsign, text_keptLast h]

theorem exists_of_mem_lines {s : Script} {source : String} (hsource : source.toList = s.chars)
    {kind : DocumentKind} : ∀ p ∈ (s.document kind).lines, ∃ row ∈ s.rows, ∃ before after,
      source.toList = before ++ (text (Phrase.allLexemes row.phrases) ++ (row.ending ++ after)) ∧
      p = row.pair (Text.utf8Length before) := by
  have hrows : source.toList = text (sign s.opened) ++ (text (Row.allLexemes s.rows) ++
      (text (Phrase.allLexemes s.last) ++ text (sign s.closed))) := by
    simp [hsource, chars_eq]
  have hlines := Row.exists_of_mem_lines hrows
  rw [← offset_rowsMark] at hlines
  exact hlines

theorem exists_of_mem_lastLine {s : Script} {source : String} (hsource : source.toList = s.chars)
    {kind : DocumentKind} : ∀ l ∈ (s.document kind).lastLine, ∃ before after,
      source.toList = before ++ (text (Phrase.allLexemes s.last) ++ after) ∧
      l = Phrase.line (Text.utf8Length before) s.last := by
  intro l hl
  refine ⟨text (sign s.opened) ++ text (Row.allLexemes s.rows), text (sign s.closed), ?_, ?_⟩
  · simp [hsource, chars_eq]
  · rw [← offset_lastMark]
    exact Line.eq_of_mem_unlessBlank hl

theorem isLossless_document {s : Script} (h : s.IsScript) (hread : s.IsReadable) {source : String}
    (hsource : source.toList = s.chars) {kind : DocumentKind}
    (hopened : kind.startPercent = s.opened) (hclosed : kind.endPercent = s.closed) :
    (s.document kind).IsLossless source := by
  refine ⟨?_, ?_, isWritten_document h hread hsource hopened hclosed⟩
  · intro p hp
    obtain ⟨row, hrow, before, after, hplace, rfl⟩ := exists_of_mem_lines hsource p hp
    exact (h.rows row hrow).isLossless (hread.rows row hrow) hplace
  · intro l hl
    obtain ⟨before, after, hplace, rfl⟩ := exists_of_mem_lastLine hsource l hl
    exact Phrase.isLossless_line h.last hread.last hplace

end Script

/-- Reading loses nothing but a last row of spaces and tabs. -/
theorem lossless_round_trip (source : String) :
    (∀ d, parseFile source = .ok d → d.IsLossless source) ∧
      (∀ d, parseSnippet source = .ok d → d.IsLossless source) ∧
      ∀ l, parseLine source = .ok l → l.IsLossless source ∧ (Node.ofLine l).source = .ok source := by
  refine ⟨?_, ?_, ?_⟩
  · intro d hd
    obtain ⟨s, hs, hread, hsource, rfl⟩ := parseFile_eq_ok_iff.mp hd
    exact Script.isLossless_document hs hread hsource rfl rfl
  · intro d hd
    obtain ⟨s, hs, hread, hsource, hopened, hclosed, rfl⟩ := parseSnippet_eq_ok_iff.mp hd
    exact Script.isLossless_document hs hread hsource hopened.symm hclosed.symm
  · intro l hl
    obtain ⟨ps, hps, hread, hsource, rfl⟩ := parseLine_eq_ok_iff.mp hl
    have hwhole : source.toList = [] ++ (text (Phrase.allLexemes ps) ++ []) := by
      simpa using hsource
    have hlossless := Phrase.isLossless_line hps hread hwhole
    have hwritten := Phrase.source_line hps hread 0
    rw [← hsource, String.ofList_toList] at hwritten
    exact ⟨hlossless, hwritten⟩

theorem lossless_round_trip_zeros :
    (∃ d, parseFile "%G1*071\n\t%" = .ok d ∧ d.IsLossless "%G1*071\n\t%") ∧
      (∃ d, parseSnippet "G1*071\n\t" = .ok d ∧ d.IsLossless "G1*071\n\t") ∧
      ∃ l, parseLine "G1*071\t" = .ok l ∧ l.IsLossless "G1*071\t" ∧
        (Node.ofLine l).source = .ok "G1*071\t" := by
  obtain ⟨d, hd⟩ : ∃ d, parseFile "%G1*071\n\t%" = .ok d :=
    ⟨_, parseFile_eq_ok_iff.mpr ⟨⟨true, [⟨[.number ['G'] (.whole false ['1']),
      .checksum ['0', '7', '1']], ['\n']⟩], [.trivia .whitespace ['\t']], true⟩, by decide, by decide,
      by decide, rfl⟩⟩
  obtain ⟨e, he⟩ : ∃ e, parseSnippet "G1*071\n\t" = .ok e :=
    ⟨_, parseSnippet_eq_ok_iff.mpr ⟨⟨false, [⟨[.number ['G'] (.whole false ['1']),
      .checksum ['0', '7', '1']], ['\n']⟩], [.trivia .whitespace ['\t']], false⟩, by decide, by decide,
      by decide, rfl, rfl, rfl⟩⟩
  obtain ⟨l, hl⟩ : ∃ l, parseLine "G1*071\t" = .ok l :=
    ⟨_, parseLine_eq_ok_iff.mpr ⟨[.number ['G'] (.whole false ['1']), .checksum ['0', '7', '1'],
      .trivia .whitespace ['\t']], by decide, by decide, by decide, rfl⟩⟩
  exact ⟨⟨d, hd, (lossless_round_trip _).1 d hd⟩, ⟨e, he, (lossless_round_trip _).2.1 e he⟩,
    ⟨l, hl, (lossless_round_trip _).2.2 l hl⟩⟩

end NcProgram
