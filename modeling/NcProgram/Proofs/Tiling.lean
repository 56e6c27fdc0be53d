import NcProgram.Proofs.RoundTrip

/-!
Spans tile the text. The items of a line follow one another without a gap and fill its span, and so
do the lines and line ends of a document between its percent signs. What is tiled is text that is cut
into pieces, and cuts fall between characters.
-/

namespace NcProgram

open Lexeme

namespace Text

/-- A place between two characters of the text, or at one of its ends. -/
def IsBoundary (source : String) (n : Nat) : Prop :=
  ∃ front back, source.toList = front ++ back ∧ utf8Length front = n

end Text

namespace Span

/-- The spans connect one place with another, each from where the one before it ends. -/
def Connect : Nat → List Span → Nat → Prop
  | start, [], stop => stop = start
  | start, s :: ss, stop => s.start = start ∧ Connect s.stop ss stop

/-- The spans of the children of a node connect two places in it: they lie inside the span
of the node, side by side in order. Nothing starts or ends inside a character. -/
structure AreTiles (source : String) (parent : Span) (start : Nat) (children : List Span)
    (stop : Nat) : Prop where
  connect : Connect start children stop
  inside : ∀ s ∈ children, parent.contains s = true
  apart : children.Pairwise fun s t => s.stop ≤ t.start
  boundary : ∀ s ∈ parent :: children,
    Text.IsBoundary source s.start ∧ Text.IsBoundary source s.stop

/-- The spans of pieces of text that stand one after the other. -/
def ofPieces : Nat → List (List Char) → List Span
  | _, [] => []
  | start, cs :: pieces =>
    ofSize start (Text.utf8Length cs) :: ofPieces (start + Text.utf8Length cs) pieces

theorem ofPieces_append (start : Nat) (ps qs : List (List Char)) : ofPieces start (ps ++ qs) =
    ofPieces start ps ++ ofPieces (start + Text.utf8Length ps.flatten) qs := by
  induction ps generalizing start with
  | nil => rfl
  | cons cs ps ih =>
      rw [List.cons_append, ofPieces, ih, ofPieces, List.cons_append, List.flatten_cons,
        Text.utf8Length_append, Nat.add_assoc]

theorem connect_ofPieces (start : Nat) (pieces : List (List Char)) :
    Connect start (ofPieces start pieces) (start + Text.utf8Length pieces.flatten) := by
  induction pieces generalizing start with
  | nil => rfl
  | cons cs pieces ih =>
      rw [List.flatten_cons, Text.utf8Length_append, ← Nat.add_assoc]
      exact ⟨rfl, ih (start + Text.utf8Length cs)⟩

namespace Connect

variable {start stop : Nat} {ss : List Span}

theorem bounds (h : Connect start ss stop) :
    start ≤ stop ∧ ∀ s ∈ ss, start ≤ s.start ∧ s.stop ≤ stop := by
  induction ss generalizing start with
  | nil => exact ⟨Nat.le_of_eq h.symm, by simp⟩
  | cons s ss ih =>
      obtain ⟨rfl, hss⟩ := h
      obtain ⟨hle, hmem⟩ := ih hss
      have hs := s.start_le_stop
      refine ⟨Nat.le_trans hs hle, List.forall_mem_cons.mpr ⟨⟨Nat.le_refl _, hle⟩, ?_⟩⟩
      intro t ht
      exact ⟨Nat.le_trans hs (hmem t ht).1, (hmem t ht).2⟩

theorem apart (h : Connect start ss stop) : ss.Pairwise fun s t => s.stop ≤ t.start := by
  induction ss generalizing start with
  | nil => exact .nil
  | cons s ss ih => exact .cons (fun t ht => (h.2.bounds.2 t ht).1) (ih h.2)

end Connect

section Source

variable {source : String} {front back : List Char} {pieces : List (List Char)}

theorem isBoundary_ofSize {middle : List Char} (h : source.toList = front ++ (middle ++ back)) :
    Text.IsBoundary source (ofSize (Text.utf8Length front) (Text.utf8Length middle)).start ∧
      Text.IsBoundary source (ofSize (Text.utf8Length front) (Text.utf8Length middle)).stop := by
  refine ⟨⟨front, _, h, rfl⟩, front ++ middle, back, ?_, Text.utf8Length_append ..⟩
  rw [h, List.append_assoc]

theorem isBoundary_ofPieces (h : source.toList = front ++ (pieces.flatten ++ back)) :
    ∀ s ∈ ofPieces (Text.utf8Length front) pieces,
      Text.IsBoundary source s.start ∧ Text.IsBoundary source s.stop := by
  induction pieces generalizing front with
  | nil => simp [ofPieces]
  | cons cs pieces ih =>
      rw [List.flatten_cons, List.append_assoc] at h
      have hback : source.toList = front ++ cs ++ (pieces.flatten ++ back) := by
        rw [h, List.append_assoc]
      have hrest := ih hback
      rw [Text.utf8Length_append] at hrest
      exact List.forall_mem_cons.mpr ⟨isBoundary_ofSize h, hrest⟩

theorem areTiles_ofPieces (h : source.toList = front ++ (pieces.flatten ++ back)) {parent : Span}
    (hparent : Text.IsBoundary source parent.start ∧ Text.IsBoundary source parent.stop)
    (hstart : parent.start ≤ Text.utf8Length front)
    (hstop : Text.utf8Length front + Text.utf8Length pieces.flatten ≤ parent.stop) :
    AreTiles source parent (Text.utf8Length front) (ofPieces (Text.utf8Length front) pieces)
      (Text.utf8Length front + Text.utf8Length pieces.flatten) := by
  have hconnect := connect_ofPieces (Text.utf8Length front) pieces
  have hbounds := hconnect.bounds.2
  refine ⟨hconnect, ?_, hconnect.apart, List.forall_mem_cons.mpr ⟨hparent, isBoundary_ofPieces h⟩⟩
  intro s hs
  obtain ⟨hle, hge⟩ := hbounds s hs
  simp only [contains, Bool.and_eq_true, decide_eq_true_eq]
  exact ⟨Nat.le_trans hstart hle, Nat.le_trans hge hstop⟩

end Source

end Span

/-- The items of the line fill its span. -/
def Line.IsTiled (source : String) (l : Line Item) : Prop :=
  ∃ spans, l.items.map Item.span = spans.map .ok ∧
    Span.AreTiles source l.span l.span.start spans l.span.stop

/-- The spans of the lines and their line ends, in order. -/
def Document.childSpans (d : Document Item) : List (Except Fault Span) :=
  (d.lines.flatMap fun p => [.ok p.1.span, p.2.span]) ++ d.lastLine.toList.map fun l => .ok l.span

/-- The lines and line ends start behind an opening sign, and a last line ends before a closing
one. -/
structure Document.IsTiled (source : String) (d : Document Item) : Prop where
  span : d.span = .ofSize 0 (Text.utf8Length source.toList)
  children : ∃ spans stop, d.childSpans = spans.map .ok ∧
    Span.AreTiles source d.span (d.span.start + d.kind.startPercent.toNat) spans stop ∧
    (d.lastLine.isSome → stop + d.kind.endPercent.toNat = d.span.stop)
  lines : ∀ l ∈ d.allLines, l.IsTiled source

namespace Phrase

theorem map_span_items (o : Nat) (ps : List Phrase) :
    (items o ps).map Item.span = (Span.ofPieces o (ps.map chars)).map .ok := by
  induction ps generalizing o with
  | nil => rfl
  | cons p ps ih =>
      rw [items_cons, List.map_cons, span_item, ih]
      rfl

theorem isTiled_line {ps : List Phrase} {source : String} {front back : List Char}
    (h : source.toList = front ++ (text (allLexemes ps) ++ back)) :
    (line (Text.utf8Length front) ps).IsTiled source := by
  refine ⟨_, map_span_items _ ps, ?_⟩
  have hspan := Span.isBoundary_ofSize h
  have hsize : textSize ps = Text.utf8Length (ps.map chars).flatten := by
    rw [textSize, text_allLexemes]
    rfl
  have hpieces : source.toList = front ++ ((ps.map chars).flatten ++ back) := by
    rw [h, text_allLexemes]
    rfl
  have hstop : (line (Text.utf8Length front) ps).span.stop =
      Text.utf8Length front + Text.utf8Length (ps.map chars).flatten := by
    rw [← hsize]
    rfl
  rw [hstop]
  exact Span.areTiles_ofPieces hpieces hspan (Nat.le_refl _) (Nat.le_of_eq hstop.symm)

end Phrase

namespace Row

def chunks (row : Row) : List (List Char) :=
  [text (Phrase.allLexemes row.phrases), row.ending]

theorem flatten_chunks (rows : List Row) :
    (rows.flatMap chunks).flatten = text (allLexemes rows) := by
  induction rows with
  | nil => rfl
  | cons row rows ih => simp [ih, chunks, lexemes]

theorem flatMap_span_lines (o : Nat) (rows : List Row) :
    ((lines o rows).flatMap fun p => [.ok p.1.span, p.2.span]) =
      (Span.ofPieces o (rows.flatMap chunks)).map .ok := by
  induction rows generalizing o with
  | nil => rfl
  | cons row rows ih =>
      have hrest := ih (o + row.size)
      rw [size, ← Nat.add_assoc] at hrest
      rw [lines, pair, List.flatMap_cons, List.flatMap_cons, size, ← Nat.add_assoc, hrest,
        Trivia.span_ofList]
      rfl

end Row

namespace Script

/-- The texts of the lines and line ends of a script, without a last line that shows nothing. -/
def chunks (s : Script) : List (List Char) :=
  s.rows.flatMap Row.chunks ++
    if (Phrase.line s.lastMark.offset s.last).isBlank then [] else [text (Phrase.allLexemes s.last)]

theorem childSpans_document (kind : DocumentKind) (s : Script) :
    (s.document kind).childSpans = (Span.ofPieces s.rowsMark.offset s.chunks).map .ok := by
  have hlast : s.lastMark.offset =
      s.rowsMark.offset + Text.utf8Length (s.rows.flatMap Row.chunks).flatten := by
    rw [Row.flatten_chunks, offset_rowsMark, offset_lastMark, Text.utf8Length_append]
  rw [Document.childSpans, chunks, Span.ofPieces_append, List.map_append, ← hlast,
    ← Row.flatMap_span_lines]
  simp only [document, Line.unlessBlank]
  split <;> rfl

theorem toNat_eq_utf8Length (present : Bool) :
    present.toNat = Text.utf8Length (text (sign present)) := by
  cases present <;> rfl

theorem exists_behind_chunks (kind : DocumentKind) (s : Script) : ∃ behind,
    s.chars = text (sign s.opened) ++ (s.chunks.flatten ++ (behind ++ text (sign s.closed))) ∧
      ((s.document kind).lastLine.isSome → behind = []) := by
  simp only [chars_eq, chunks, document, Line.unlessBlank, List.flatten_append, Row.flatten_chunks]
  -- the text of a last line that is left out is all that stands between the chunks and the sign
  split
  next => exact ⟨text (Phrase.allLexemes s.last), by simp, by simp⟩
  next => exact ⟨[], by simp, fun _ => rfl⟩

theorem isTiled_of_mem_allLines {s : Script} {source : String} (hsource : source.toList = s.chars)
    (kind : DocumentKind) : ∀ l ∈ (s.document kind).allLines, l.IsTiled source := by
  intro l hl
  rcases List.mem_append.mp hl with hl | hl
  · obtain ⟨p, hp, rfl⟩ := List.mem_map.mp hl
    obtain ⟨row, -, before, after, hplace, rfl⟩ := exists_of_mem_lines hsource p hp
    exact Phrase.isTiled_line hplace
  · obtain ⟨before, after, hplace, rfl⟩ :=
      exists_of_mem_lastLine hsource l (Option.mem_toList.mp hl)
    exact Phrase.isTiled_line hplace

theorem isTiled_document {s : Script} {source : String} (hsource : source.toList = s.chars)
    {kind : DocumentKind} (hopened : kind.startPercent = s.opened)
    (hclosed : kind.endPercent = s.closed) : (s.document kind).IsTiled source := by
  obtain ⟨behind, hchars, hbehind⟩ := exists_behind_chunks kind s
  have hspan : (s.document kind).span = .ofSize 0 (Text.utf8Length source.toList) := by
    rw [hsource]
    rfl
  have hstart : (s.document kind).span.start + kind.startPercent.toNat = s.rowsMark.offset := by
    rw [hopened, toNat_eq_utf8Length, offset_rowsMark]
    exact Nat.zero_add _
  have hstop : (s.document kind).span.stop = s.rowsMark.offset +
      (Text.utf8Length s.chunks.flatten + (Text.utf8Length behind + kind.endPercent.toNat)) := by
    rw [hclosed, toNat_eq_utf8Length, offset_rowsMark, ← Text.utf8Length_append,
      ← Text.utf8Length_append, ← Text.utf8Length_append, ← hchars]
    exact Nat.zero_add _
  refine ⟨hspan, ⟨_, s.rowsMark.offset + Text.utf8Length s.chunks.flatten,
    childSpans_document kind s, ?_, ?_⟩, isTiled_of_mem_allLines hsource kind⟩
  · have hwhole : source.toList = [] ++ (source.toList ++ []) := by simp
    have hparent := Span.isBoundary_ofSize hwhole
    rw [Text.utf8Length_nil, ← hspan] at hparent
    have htiles := Span.areTiles_ofPieces (hsource.trans hchars) hparent (Nat.zero_le _)
      (by rw [hstop, ← offset_rowsMark]; omega)
    rw [← offset_rowsMark] at htiles
    exact hstart ▸ htiles
  · intro hkept
    have hdocument : (s.document kind).kind = kind := rfl
    rw [hstop, hbehind hkept, hdocument, Text.utf8Length_nil]
    omega

end Script

/-- Spans tile the text of whatever is read from it. -/
theorem spans_tile_source (source : String) :
    (∀ d, parseFile source = .ok d → d.IsTiled source) ∧
      (∀ d, parseSnippet source = .ok d → d.IsTiled source) ∧
      ∀ l, parseLine source = .ok l →
        l.IsTiled source ∧ l.span = .ofSize 0 (Text.utf8Length source.toList) := by
  refine ⟨?_, ?_, ?_⟩
  · intro d hd
    obtain ⟨s, -, -, hsource, rfl⟩ := parseFile_eq_ok_iff.mp hd
    exact Script.isTiled_document hsource rfl rfl
  · intro d hd
    obtain ⟨s, -, -, hsource, hopened, hclosed, rfl⟩ := parseSnippet_eq_ok_iff.mp hd
    exact Script.isTiled_document hsource hopened.symm hclosed.symm
  · intro l hl
    obtain ⟨ps, -, -, hsource, rfl⟩ := parseLine_eq_ok_iff.mp hl
    have hwhole : source.toList = [] ++ (text (Phrase.allLexemes ps) ++ []) := by
      simpa using hsource
    refine ⟨Phrase.isTiled_line hwhole, ?_⟩
    rw [hsource]
    rfl

theorem spans_tile_source_wide :
    (∃ d, parseFile "%(é)\nG1\n\t%" = .ok d ∧ d.IsTiled "%(é)\nG1\n\t%") ∧
      (∃ d, parseSnippet "G1;€\n\nX2" = .ok d ∧ d.IsTiled "G1;€\n\nX2") ∧
      ∃ l, parseLine "(é)X-1.*7" = .ok l ∧ l.IsTiled "(é)X-1.*7" ∧ l.span = .ofSize 0 10 := by
  obtain ⟨d, hd⟩ : ∃ d, parseFile "%(é)\nG1\n\t%" = .ok d :=
    ⟨_, parseFile_eq_ok_iff.mpr ⟨⟨true, [⟨[.trivia .inlineComment ['(', 'é', ')']], ['\n']⟩,
      ⟨[.number ['G'] (.whole false ['1'])], ['\n']⟩], [.trivia .whitespace ['\t']], true⟩,
      by decide, by decide, by decide, rfl⟩⟩
  obtain ⟨e, he⟩ : ∃ e, parseSnippet "G1;€\n\nX2" = .ok e :=
    ⟨_, parseSnippet_eq_ok_iff.mpr ⟨⟨false, [⟨[.number ['G'] (.whole false ['1']),
      .trivia .comment [';', '€']], ['\n']⟩, ⟨[], ['\n']⟩], [.number ['X'] (.whole false ['2'])],
      false⟩, by decide, by decide, by decide, rfl, rfl, rfl⟩⟩
  obtain ⟨l, hl⟩ : ∃ l, parseLine "(é)X-1.*7" = .ok l :=
    ⟨_, parseLine_eq_ok_iff.mpr ⟨[.trivia .inlineComment ['(', 'é', ')'],
      .number ['X'] (.decimal true ['1'] []), .checksum ['7']], by decide, by decide, by decide, rfl⟩⟩
  obtain ⟨htiled, hspan⟩ := (spans_tile_source _).2.2 l hl
  exact ⟨⟨d, hd, (spans_tile_source _).1 d hd⟩, ⟨e, he, (spans_tile_source _).2.1 e he⟩,
    ⟨l, hl, htiled, hspan.trans (by decide)⟩⟩

end NcProgram
