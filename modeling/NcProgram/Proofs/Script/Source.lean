import NcProgram.Proofs.Script.Tree

namespace NcProgram

open Lexeme Reader

theorem parseLine_eq_ok_iff {source : String} {l : Line Item} :
    parseLine source = .ok l ↔ ∃ ps, Phrase.IsLine ps ∧ (∀ p ∈ ps, p.IsReadable) ∧
      source.toList = text (Phrase.allLexemes ps) ∧ l = Phrase.line 0 ps := by
  have hrun {t : LineTree} : Parse.onlyLine.run (.ofSource source) = .ok t ↔ _ :=
    Parse.run_eq_ok_iff Parse.reachesEnd_onlyLine
  have hbuild {ps : List Phrase} (hps : Phrase.IsLine ps) :
      (LineTree.before (Phrase.trees Stream.origin ps)
        (afterLexemes (Phrase.allLexemes ps)).current).build = .ok l ↔ _ :=
    Phrase.build_before hps.shapes rfl
  rw [parseLine, except_bind_eq_ok_iff]
  constructor
  · rintro ⟨t, ht, hl⟩
    obtain ⟨ls, r, hls, htext, hstep⟩ := hrun.mp ht
    obtain ⟨hline, hend⟩ := Parse.onlyLine_eq_ok_iff.mp hstep
    obtain ⟨hline, p, -⟩ := Parse.line_eq_ok_iff.mp hline
    obtain ⟨hleaves, rfl⟩ := (passes_ofLexemes_iff hls.shapes).mp ⟨p, hend⟩
    obtain ⟨ps, hps, rfl, rfl⟩ := Phrase.exists_line hline hls hleaves.symm
    obtain ⟨hread, hl⟩ := (hbuild hps).mp hl
    exact ⟨ps, hps, hread, htext, hl⟩
  · rintro ⟨ps, hps, hread, htext, hl⟩
    obtain ⟨p, hend⟩ := (passes_ofLexemes_iff hps.isSequence.shapes).mpr ⟨rfl, rfl⟩
    rw [← Phrase.leaves_before _ _ (afterLexemes (Phrase.allLexemes ps)).current] at p
    have hline := Parse.line_eq_ok_iff.mpr ⟨hps.isLine_before _ _, p, rfl⟩
    have hstep := Parse.onlyLine_eq_ok_iff.mpr ⟨hline, hend⟩
    exact ⟨_, hrun.mpr ⟨_, _, hps.isSequence, htext, hstep⟩, (hbuild hps).mpr ⟨hread, hl⟩⟩

namespace Parse

theorem linesFrom_of_percent {r : Reader} (h : r.current.kind = .percent) :
    linesFrom r = .ok ([], .before [] r.current) r := by
  refine linesFrom_eq_ok_iff.mpr ⟨by simp [ArePairs], ⟨isItems_nil _, rfl⟩, .nil r, ?_, ?_⟩
  · simp [h, TokenKind.endsLine]
  · simp [h]

theorem snippet_eq_ok_iff_file {t : SnippetTree} {r r' : Reader} :
    snippet r = .ok t r' ↔ file r = .ok ⟨none, t.lines, t.lastLine, none, t.extent⟩ r' := by
  have hnone {r r' : Reader} : take? .percent r = .ok none r' ↔
      r' = r ∧ r.current.kind ≠ .percent := by
    rw [take?_eq_ok_iff (by decide), Option.toList_none, passes_nil_iff]
    constructor
    · rintro ⟨-, rfl, h⟩
      exact ⟨rfl, h rfl⟩
    · rintro ⟨rfl, h⟩
      exact ⟨by simp, rfl, fun _ => h⟩
  rw [snippet_eq_ok_iff, file_eq_ok_iff]
  constructor
  · rintro ⟨hlines, hend, hextents⟩
    refine ⟨r, r', hnone.mpr ⟨rfl, ?_⟩, hlines, hnone.mpr ⟨rfl, by simp [hend]⟩, hend, hextents⟩
    intro hpercent
    rw [linesFrom_of_percent hpercent] at hlines
    obtain rfl := (EStateM.Result.ok.inj hlines).2
    simp [hpercent] at hend
  · rintro ⟨r₁, r₂, hopen, hlines, hclose, hend, hextents⟩
    obtain ⟨rfl, -⟩ := hnone.mp hopen
    obtain ⟨rfl, -⟩ := hnone.mp hclose
    exact ⟨hlines, hend, hextents⟩

end Parse

namespace Script

/-- The places where the rows, the last row and the closing sign of a script start. -/
def rowsMark (s : Script) : Mark :=
  Stream.origin.afterAll (sign s.opened)

def lastMark (s : Script) : Mark :=
  s.rowsMark.afterAll (Row.allLexemes s.rows)

def closingMark (s : Script) : Mark :=
  s.lastMark.afterAll (Phrase.allLexemes s.last)

theorem offset_rowsMark (s : Script) :
    s.rowsMark.offset = Text.utf8Length (text (sign s.opened)) := by
  rw [rowsMark, offset_afterAll]
  exact Nat.zero_add _

theorem offset_lastMark (s : Script) : s.lastMark.offset =
    Text.utf8Length (text (sign s.opened) ++ text (Row.allLexemes s.rows)) := by
  rw [lastMark, offset_afterAll, offset_rowsMark, Text.utf8Length_append]

/-- The token behind the last row of a script. -/
def next (s : Script) : Token :=
  (signToken s.closingMark s.closed).toList.headD (s.closingMark.afterAll (sign s.closed)).endToken

/-- The tree is that of the script. -/
structure HasTree (s : Script) (t : FileTree) : Prop where
  startPercent : t.startPercent = signToken Stream.origin s.opened
  rows : t.lines.pairs = Row.trees s.rowsMark s.rows
  last : t.lastLine = .before (Phrase.trees s.lastMark s.last) s.next
  endPercent : t.endPercent = signToken s.closingMark s.closed
  extent : t.extent = ⟨0, (Text.utf8Length s.chars : Nat)⟩

/-- The document of some kind that a script means. -/
def document (kind : DocumentKind) (s : Script) : Document Item where
  kind := kind
  lines := Row.lines s.rowsMark.offset s.rows
  lastLine := (Phrase.line s.lastMark.offset s.last).unlessBlank
  span := .ofSize 0 (Text.utf8Length s.chars)

theorem document_snippet (rows : List Row) (last : List Phrase) :
    document .snippet ⟨false, rows, last, false⟩ = ⟨.snippet, Row.lines 0 rows,
      (Phrase.line (Text.utf8Length (text (Row.allLexemes rows))) last).unlessBlank,
      .ofSize 0 (Text.utf8Length (text (Row.allLexemes rows)) + Phrase.textSize last)⟩ := by
  have hlast : (Script.mk false rows last false).lastMark.offset =
      Text.utf8Length (text (Row.allLexemes rows)) := by
    rw [lastMark, offset_afterAll]
    exact Nat.zero_add _
  have hsize : Text.utf8Length (Script.mk false rows last false).chars =
      Text.utf8Length (text (Row.allLexemes rows)) + Phrase.textSize last := by
    simp [chars, lexemes, sign, Phrase.textSize]
  rw [document, hlast, hsize]
  rfl

theorem afterAll_lexemes (s : Script) :
    Stream.origin.afterAll s.lexemes = s.closingMark.afterAll (sign s.closed) := by
  simp [lexemes, closingMark, lastMark, rowsMark]

theorem offset_afterAll_lexemes (s : Script) :
    (Stream.origin.afterAll s.lexemes).offset = Text.utf8Length s.chars := by
  rw [offset_afterAll, chars]
  exact Nat.zero_add _

theorem placed_lexemes (s : Script) : placed Stream.origin s.lexemes =
    (signToken Stream.origin s.opened).toList ++
      (((Row.trees s.rowsMark s.rows).flatMap fun p => p.1.leaves ++ [p.2]) ++
        (LineTree.before (Phrase.trees s.lastMark s.last) s.next).leaves) ++
      (signToken s.closingMark s.closed).toList := by
  simp [lexemes, toList_signToken, Row.leaves_trees, Phrase.leaves_before, rowsMark, lastMark,
    closingMark]

theorem start_next (s : Script) : s.next.start = s.closingMark.offset := by
  rw [next]
  cases s.closed <;> rfl

theorem endsLine_next (s : Script) : s.next.kind.endsLine = true ∧ s.next.kind ≠ .newline := by
  rw [next]
  cases s.closed with
  | false => exact ⟨rfl, TokenKind.noConfusion⟩
  | true => exact ⟨rfl, TokenKind.noConfusion⟩

theorem start_ofLexemes (ls : List Lexeme) : (ofLexemes ls).current.start = 0 := by
  cases ls <;> rfl

theorem exists_script {ls : List Lexeme} (hls : IsSequence ls) {t : FileTree} {r : Reader}
    (h : Parse.file (.ofLexemes ls) = .ok t r) :
    ∃ s : Script, s.IsScript ∧ s.lexemes = ls ∧ s.HasTree t := by
  obtain ⟨r₁, r₂, hopen, hlines, hclose, hend, -, hextent⟩ := Parse.file_eq_ok_iff.mp h
  obtain ⟨hopened, p₁, hopenEnd⟩ := (Parse.take?_eq_ok_iff (by decide)).mp hopen
  obtain ⟨hpairs, hlast, p₂, -⟩ := Parse.linesFrom_eq_ok_iff.mp hlines
  obtain ⟨hclosed, p₃, -⟩ := (Parse.take?_eq_ok_iff (by decide)).mp hclose
  have hpasses := passes_append_iff.mpr ⟨r₁, p₁, passes_append_iff.mpr ⟨r₂, p₂, p₃⟩⟩
  obtain ⟨hleaves, rfl⟩ := (passes_ofLexemes_iff hls.shapes).mp ⟨hpasses, hend⟩
  -- the lexemes are cut where the parts of the tree end
  obtain ⟨ls₁, ls', rfl, h₁, h'⟩ := exists_of_placed_eq_append hleaves.symm
  obtain ⟨ls'', ls₄, rfl, h'', h₄⟩ := exists_of_placed_eq_append h'
  obtain ⟨ls₂, ls₃, rfl, h₂, h₃⟩ := exists_of_placed_eq_append h''
  obtain ⟨hls₁, hls', -⟩ := isSequence_append_iff.mp hls
  obtain ⟨hls'', hls₄, -⟩ := isSequence_append_iff.mp hls'
  obtain ⟨hls₂, hls₃, -⟩ := isSequence_append_iff.mp hls''
  obtain ⟨opened, rfl, hstart⟩ := exists_sign hopened hls₁ h₁
  obtain ⟨rows, hrows, rfl, htrees⟩ := Row.exists_rows hpairs hls₂ h₂
  obtain ⟨ps, hps, rfl, htree⟩ := Phrase.exists_line hlast hls₃ h₃
  obtain ⟨closed, rfl, hstop⟩ := exists_sign hclosed hls₄ h₄
  let s : Script := ⟨opened, rows, ps, closed⟩
  have hlexemes : s.lexemes = sign opened ++ (Row.allLexemes rows ++ Phrase.allLexemes ps ++
      sign closed) := by
    simp [s, lexemes]
  rw [← hlexemes] at hls hextent hend p₃ ⊢
  have hnext : r₂.current = s.next := by
    rw [p₃.current_eq, hstop, current_afterLexemes, afterAll_lexemes, next]
    simp [s, closingMark, lastMark, rowsMark]
  obtain ⟨hapart, hcomment⟩ := (isSequence_lexemes_iff (s := s) hrows hps).mp hls
  refine ⟨s, ⟨hrows, hps, hapart, fun hclosed => ⟨hcomment hclosed, ?_⟩⟩, rfl, ?_⟩
  · by_contra hempty
    simp only [s, not_or, not_not, Bool.not_eq_true] at hempty
    obtain ⟨rfl, rfl, rfl⟩ := hempty
    obtain rfl : closed = true := hclosed
    have hr : r₂ = r₁ := by
      rw [← htrees, htree] at p₂
      exact passes_nil_iff.mp p₂
    refine hopenEnd (by simpa [signToken] using hstart) ?_
    rw [← hr, hnext]
    rfl
  · refine ⟨hstart, htrees.symm, ?_, ?_, ?_⟩
    · rw [htree, hnext, lastMark, rowsMark]
    · rw [hstop, closingMark, lastMark, rowsMark, afterAll_append]
    · rw [hextent, start_ofLexemes, current_afterLexemes]
      exact congrArg (Extent.mk 0) (congrArg Nat.cast s.offset_afterAll_lexemes)

theorem exists_tree {s : Script} (h : s.IsScript) :
    ∃ t r, Parse.file (.ofLexemes s.lexemes) = .ok t r ∧ s.HasTree t := by
  obtain ⟨p, hend⟩ := (passes_ofLexemes_iff h.isSequence.shapes).mpr ⟨rfl, rfl⟩
  rw [placed_lexemes, passes_append_iff] at p
  obtain ⟨r₂, p, p₃⟩ := p
  obtain ⟨r₁, p₁, p₂⟩ := passes_append_iff.mp p
  have hnext : r₂.current = s.next := by
    rw [p₃.current_eq, current_afterLexemes, afterAll_lexemes, next]
  have hlines := Parse.linesFrom_eq_ok_iff.mpr ⟨Row.arePairs_trees h.rows,
    hnext ▸ h.last.isLine_before s.lastMark s.next, p₂, hnext ▸ s.endsLine_next⟩
  have hopen : Parse.take? .percent (.ofLexemes s.lexemes) =
      .ok (signToken Stream.origin s.opened) r₁ := by
    refine (Parse.take?_eq_ok_iff (by decide)).mpr ⟨kind_of_mem_signToken, p₁, ?_⟩
    intro hopened hpercent
    -- nothing stands between the two signs, so the second one is a lone one
    obtain ⟨hempty, rfl⟩ := EStateM.Result.ok.inj
      ((Parse.linesFrom_of_percent hpercent).symm.trans hlines)
    have hrows : s.rows = [] := by
      cases hrows : s.rows with
      | nil => rfl
      | cons row rows => simp [hrows, Row.trees] at hempty
    have hlast : s.last = [] := by
      cases hlast : s.last with
      | nil => rfl
      | cons p ps => simp [hlast, Phrase.trees, LineTree.before] at hempty
    cases hclosed : s.closed with
    | false =>
        rw [hnext, next, hclosed] at hpercent
        cases hpercent
    | true =>
        have hfalse : s.opened = false := by simpa [signToken] using hopened
        simpa [hfalse, hrows, hlast] using (h.closing hclosed).nonempty
  have hclose : Parse.take? .percent r₂ =
      .ok (signToken s.closingMark s.closed) (.afterLexemes s.lexemes) := by
    refine (Parse.take?_eq_ok_iff (by decide)).mpr ⟨kind_of_mem_signToken, p₃, ?_⟩
    rintro -
    rw [hend]
    exact TokenKind.noConfusion
  refine ⟨⟨_, ⟨_, r₁.current.start,
      (LineTree.before (Phrase.trees s.lastMark s.last) s.next).extent.start⟩, _, _, _⟩, _,
    Parse.file_eq_ok_iff.mpr ⟨r₁, r₂, hopen, hlines, hclose, hend, rfl, rfl⟩,
    rfl, rfl, rfl, rfl, ?_⟩
  rw [start_ofLexemes, current_afterLexemes]
  exact congrArg (Extent.mk 0) (congrArg Nat.cast s.offset_afterAll_lexemes)

theorem build_eq_ok_iff {s : Script} (h : s.IsScript) {t : FileTree} (ht : s.HasTree t)
    {d : Document Item} :
    t.build = .ok d ↔ s.IsReadable ∧ d = s.document (.file s.opened s.closed) := by
  have hlast {l : Line Item} := Phrase.build_before (l := l) h.last.shapes s.start_next
  have hspan : t.extent.span = .ok (.ofSize 0 (Text.utf8Length s.chars)) := by
    have hspan := Extent.span_eq_ok 0 (Text.utf8Length s.chars)
    rw [Nat.zero_add] at hspan
    rw [ht.extent]
    exact hspan
  simp only [FileTree.build, LinesTree.build, ht.rows, ht.last, ht.startPercent, ht.endPercent,
    hspan, isSome_signToken, except_bind_eq_ok_iff, except_pure_eq_ok_iff, Except.ok.injEq,
    Row.build_trees h.rows, hlast]
  constructor
  · rintro ⟨_, ⟨hrows, rfl⟩, _, ⟨hlast, rfl⟩, _, rfl, rfl⟩
    exact ⟨⟨hrows, hlast⟩, rfl⟩
  · rintro ⟨⟨hrows, hlast⟩, rfl⟩
    exact ⟨_, ⟨hrows, rfl⟩, _, ⟨hlast, rfl⟩, _, rfl, rfl⟩

end Script

theorem Parse.run_map {α β : Type} (f : α → β) (p : Parse α) (s : Stream) :
    (f <$> p).run s = f <$> p.run s := by
  unfold run
  cases Reader.ofStream s with
  | error e => rfl
  | ok r =>
      have hmap : (f <$> p) r = EStateM.map f p r := rfl
      simp only [bind, Except.bind, hmap, EStateM.map]
      cases p r <;> rfl

/-- A text is read as a whole program exactly when it is the text of a script that has a meaning. -/
theorem parseFile_eq_ok_iff {source : String} {d : Document Item} :
    parseFile source = .ok d ↔ ∃ s : Script, s.IsScript ∧ s.IsReadable ∧ source.toList = s.chars ∧
      d = s.document (.file s.opened s.closed) := by
  have hrun {t : FileTree} : Parse.file.run (.ofSource source) = .ok t ↔ _ :=
    Parse.run_eq_ok_iff Parse.reachesEnd_file
  simp only [parseFile, parseDocument, Parse.document, Bool.false_eq_true, if_false, Parse.run_map,
    except_bind_eq_ok_iff, except_map_eq_ok_iff]
  constructor
  · rintro ⟨_, ⟨t, ht, rfl⟩, hd⟩
    obtain ⟨ls, r, hls, htext, hstep⟩ := hrun.mp ht
    obtain ⟨s, hs, rfl, htree⟩ := Script.exists_script hls hstep
    obtain ⟨hread, hd⟩ := (Script.build_eq_ok_iff hs htree).mp hd
    exact ⟨s, hs, hread, htext, hd⟩
  · rintro ⟨s, hs, hread, htext, hd⟩
    obtain ⟨t, r, hstep, htree⟩ := Script.exists_tree hs
    exact ⟨_, ⟨t, hrun.mpr ⟨_, r, hs.isSequence, htext, hstep⟩, rfl⟩,
      (Script.build_eq_ok_iff hs htree).mpr ⟨hread, hd⟩⟩

theorem SnippetTree.build_eq_ok_iff {t : SnippetTree} {d : Document Item} :
    t.build = .ok d ↔ d.kind = .snippet ∧
      FileTree.build ⟨none, t.lines, t.lastLine, none, t.extent⟩ =
        .ok { d with kind := .file false false } := by
  obtain ⟨kind, lines, last, span⟩ := d
  simp only [SnippetTree.build, FileTree.build, except_bind_eq_ok_iff, except_pure_eq_ok_iff,
    Document.mk.injEq, Option.isSome_none, true_and]
  constructor
  · rintro ⟨l, hl, m, hm, s, hs, rfl, h⟩
    exact ⟨rfl, l, hl, m, hm, s, hs, h⟩
  · rintro ⟨rfl, l, hl, m, hm, s, hs, h⟩
    exact ⟨l, hl, m, hm, s, hs, rfl, h⟩

theorem parseSnippet_eq_ok_iff_parseFile {source : String} {d : Document Item} :
    parseSnippet source = .ok d ↔
      d.kind = .snippet ∧ parseFile source = .ok { d with kind := .file false false } := by
  have hfile {t : FileTree} : Parse.file.run (.ofSource source) = .ok t ↔ _ :=
    Parse.run_eq_ok_iff Parse.reachesEnd_file
  have hsnippet {t : SnippetTree} : Parse.snippet.run (.ofSource source) = .ok t ↔ _ :=
    Parse.run_eq_ok_iff Parse.reachesEnd_snippet
  simp only [parseSnippet, parseFile, parseDocument, Parse.document, Bool.false_eq_true, if_false,
    if_true, Parse.run_map, except_bind_eq_ok_iff, except_map_eq_ok_iff]
  constructor
  · rintro ⟨_, ⟨t, ht, rfl⟩, hd⟩
    obtain ⟨ls, r, hls, htext, hstep⟩ := hsnippet.mp ht
    obtain ⟨hkind, hd⟩ := SnippetTree.build_eq_ok_iff.mp hd
    exact ⟨hkind, _, ⟨_, hfile.mpr ⟨ls, r, hls, htext, Parse.snippet_eq_ok_iff_file.mp hstep⟩, rfl⟩,
      hd⟩
  · rintro ⟨hkind, _, ⟨t, ht, rfl⟩, hd⟩
    obtain ⟨ls, r, hls, htext, hstep⟩ := hfile.mp ht
    obtain ⟨startPercent, lines, lastLine, endPercent, extent⟩ := t
    obtain ⟨rfl, rfl⟩ : startPercent = none ∧ endPercent = none := by
      simp only [DocumentTree.build, FileTree.build, except_bind_eq_ok_iff, except_pure_eq_ok_iff,
        Document.mk.injEq, DocumentKind.file.injEq, Option.isSome_eq_false_iff,
        Option.isNone_iff_eq_none] at hd
      obtain ⟨-, -, -, -, -, -, ⟨hstart, hstop⟩, -⟩ := hd
      exact ⟨hstart, hstop⟩
    exact ⟨_, ⟨⟨lines, lastLine, extent⟩,
      hsnippet.mpr ⟨ls, r, hls, htext, Parse.snippet_eq_ok_iff_file.mpr hstep⟩, rfl⟩,
      SnippetTree.build_eq_ok_iff.mpr ⟨hkind, hd⟩⟩

theorem parseSnippet_eq_ok_iff {source : String} {d : Document Item} :
    parseSnippet source = .ok d ↔ ∃ s : Script, s.IsScript ∧ s.IsReadable ∧
      source.toList = s.chars ∧ s.opened = false ∧ s.closed = false ∧ d = s.document .snippet := by
  obtain ⟨kind, lines, last, span⟩ := d
  rw [parseSnippet_eq_ok_iff_parseFile, parseFile_eq_ok_iff]
  simp only [Script.document, Document.mk.injEq, DocumentKind.file.injEq]
  constructor
  · rintro ⟨rfl, s, hs, hread, htext, ⟨hopened, hclosed⟩, h⟩
    exact ⟨s, hs, hread, htext, hopened.symm, hclosed.symm, rfl, h⟩
  · rintro ⟨s, hs, hread, htext, hopened, hclosed, rfl, h⟩
    exact ⟨rfl, s, hs, hread, htext, ⟨hopened.symm, hclosed.symm⟩, h⟩

theorem Script.exists_snippet_tree {s : Script} (h : s.IsScript) (hopened : s.opened = false)
    (hclosed : s.closed = false) {source : String} (htext : source.toList = s.chars) :
    ∃ t, s.HasTree t ∧
      Tree.ofSource .snippet source = .ok (.document (.snippet ⟨t.lines, t.lastLine, t.extent⟩)) := by
  obtain ⟨t, r, hstep, ht⟩ := exists_tree h
  refine ⟨t, ht, ?_⟩
  have hunsigned : t = ⟨none, t.lines, t.lastLine, none, t.extent⟩ := by
    have hstart := ht.startPercent
    have hstop := ht.endPercent
    rw [hopened] at hstart
    rw [hclosed] at hstop
    obtain ⟨startPercent, lines, lastLine, endPercent, extent⟩ := t
    cases hstart
    cases hstop
    rfl
  rw [hunsigned] at hstep
  have hsnippet : Parse.snippet (.ofLexemes s.lexemes) = .ok ⟨t.lines, t.lastLine, t.extent⟩ r :=
    Parse.snippet_eq_ok_iff_file.mpr hstep
  have hrun := (Parse.run_eq_ok_iff Parse.reachesEnd_snippet).mpr
    ⟨_, r, h.isSequence, htext, hsnippet⟩
  rw [Tree.ofSource, Tree.ofStream, Parse.rule, Parse.document, if_pos rfl, Parse.run_map,
    Parse.run_map, hrun]
  rfl

end NcProgram
