import NcProgram.Proofs.LineByLine
import NcProgram.Proofs.WellFormed

namespace NcProgram

open Lexeme

theorem Line.ext_of_views {l m : Line Item} (hviews : l.toLineViews = m.toLineViews)
    (hitems : l.items = m.items) (hspan : l.span = m.span) : l = m := by
  obtain ⟨views, items, span⟩ := l
  obtain ⟨views', items', span'⟩ := m
  cases hviews
  cases hitems
  cases hspan
  rfl

theorem Span.eq_of_stop {s : Span} {n : Nat} (h : s.stop = s.start + n) :
    s = .ofSize s.start n := by
  apply Span.eq_ofSize
  rw [size, h, Nat.add_sub_cancel_left]

theorem Line.isWellFormed_iff {o : Nat} {l : Line Item} : l.IsWellFormed o ↔
    ∃ ps, Phrase.IsLine ps ∧ (∀ p ∈ ps, p.IsReadable) ∧ l = Phrase.line o ps := by
  constructor
  · rintro ⟨⟨harranged, hapart, hbetween, rfl, hviews⟩, hitems⟩
    obtain ⟨ps, hshapes, hread, heq, hstop⟩ := Item.areBetween_iff.mp ⟨hitems, hbetween⟩
    rw [heq, Phrase.map_part_items] at harranged hapart
    refine ⟨ps, Phrase.isLine_iff.mpr ⟨hshapes, harranged, hapart⟩, hread, ?_⟩
    exact Line.ext_of_views (hviews.trans (congrArg LineViews.ofItems heq)) heq
      (Span.eq_of_stop hstop)
  · rintro ⟨ps, hps, hread, rfl⟩
    obtain ⟨hshapes, harranged, hapart⟩ := Phrase.isLine_iff.mp hps
    obtain ⟨hitems, hbetween⟩ := Item.areBetween_iff.mpr ⟨ps, hshapes, hread, rfl, rfl⟩
    rw [← Phrase.map_part_items o] at harranged hapart
    exact ⟨⟨harranged, hapart, hbetween, rfl, rfl⟩, hitems⟩

theorem Line.isWellFormed_of_parseLine {l : Line Item} {source : String}
    (h : parseLine source = .ok l) : l.IsWellFormed 0 := by
  obtain ⟨ps, hps, hread, -, rfl⟩ := parseLine_eq_ok_iff.mp h
  exact Line.isWellFormed_iff.mpr ⟨ps, hps, hread, rfl⟩

namespace Row

theorem areBetween_iff {ls : List (Line Item × Trivia)} {o e : Nat} : Line.AreBetween o ls e ↔
    ∃ rows : List Row, (∀ row ∈ rows, row.IsSound) ∧ ls = lines o rows ∧
      e = o + Text.utf8Length (text (allLexemes rows)) := by
  constructor
  · intro h
    induction ls generalizing o with
    | nil => exact ⟨[], by simp, rfl, h⟩
    | cons p ls ih =>
        obtain ⟨l, kind, ending, position⟩ := p
        obtain ⟨hl, rfl, hending, rfl, hrest⟩ := h
        obtain ⟨rows, hrows, rfl, rfl⟩ := ih hrest
        obtain ⟨ps, hps, hread, rfl⟩ := Line.isWellFormed_iff.mp hl
        have hstop : (Phrase.line o ps).span.stop + Text.utf8Length ending.toList =
            o + size ⟨ps, ending.toList⟩ := Nat.add_assoc ..
        refine ⟨⟨ps, ending.toList⟩ :: rows, List.forall_mem_cons.mpr
          ⟨⟨⟨hps, Grammar.mem_newline_iff.mp hending⟩, hread⟩, hrows⟩, ?_, ?_⟩
        · rw [lines, pair, hstop, String.ofList_toList]
          rfl
        · rw [hstop, allLexemes_cons, text_append, Text.utf8Length_append, ← size_eq, Nat.add_assoc]
  · rintro ⟨rows, hrows, rfl, rfl⟩
    induction rows generalizing o with
    | nil => rfl
    | cons row rows ih =>
        obtain ⟨hrow, hrows⟩ := List.forall_mem_cons.mp hrows
        have hending : (String.ofList row.ending).toList ∈ Grammar.newline :=
          Grammar.toList_ofList_mem (Grammar.mem_newline_iff.mpr hrow.isRow.ending)
        refine ⟨Line.isWellFormed_iff.mpr ⟨_, hrow.isRow.line, hrow.readable, rfl⟩, rfl, hending,
          rfl, ?_⟩
        have hstop : (Phrase.line o row.phrases).span.stop +
            Text.utf8Length (String.ofList row.ending).toList = o + row.size := by
          rw [String.toList_ofList]
          exact Nat.add_assoc ..
        rw [hstop, allLexemes_cons, text_append, Text.utf8Length_append, ← size_eq, ← Nat.add_assoc]
        exact ih hrows

theorem doNotMeet_iff {row next : Row} {o o' : Nat} {i j : Int} :
    Line.DoNotMeet (Phrase.line o row.phrases, ⟨.newline, String.ofList row.ending, i⟩)
      (Phrase.line o' next.phrases, ⟨.newline, String.ofList next.ending, j⟩) ↔
        row.Apart next := by
  have hempty : (Phrase.line o' next.phrases).items = [] ↔ next.phrases = [] := by
    cases hphrases : next.phrases <;> simp [Phrase.line, Line.ofItems]
  have hreturn : String.ofList row.ending = "\r" ↔ row.ending = ['\r'] := String.ofList_inj
  have hlineFeed : String.ofList next.ending = "\n" ↔ next.ending = ['\n'] := String.ofList_inj
  simp only [Line.DoNotMeet, Apart, hempty, hreturn, hlineFeed]
  tauto

theorem isChain_lines_iff (o : Nat) (rows : List Row) :
    (lines o rows).IsChain Line.DoNotMeet ↔ rows.IsChain Apart := by
  induction rows generalizing o with
  | nil => simp [lines]
  | cons row rows ih =>
      rw [lines, List.isChain_cons, List.isChain_cons, ih]
      refine and_congr_left fun _ => ?_
      cases rows with
      | nil => simp [lines]
      | cons next rows => simpa [lines, pair] using doNotMeet_iff

end Row

/-- A snippet is well-formed exactly when it is what a script without percent signs means, whose last
row is empty where it shows nothing. -/
theorem Document.isWellFormed_iff {d : Document Item} : d.IsWellFormed ↔
    ∃ s : Script, s.IsScript ∧ s.IsReadable ∧ s.opened = false ∧ s.closed = false ∧
      s.keptLast = s.last ∧ d = s.document .snippet := by
  obtain ⟨kind, ls, last, span⟩ := d
  constructor
  · rintro ⟨rfl, ⟨e, hlines, hlast⟩, hapart, hstart⟩
    obtain ⟨rows, hrows, rfl, rfl⟩ := Row.areBetween_iff.mp hlines
    rw [Nat.zero_add] at hlast
    have hscript {ps : List Phrase} (hps : Phrase.IsLine ps) :
        (Script.mk false rows ps false).IsScript :=
      ⟨fun row hrow => (hrows row hrow).isRow, hps, (Row.isChain_lines_iff 0 rows).mp hapart,
        (absurd · Bool.false_ne_true)⟩
    have hreadable {ps : List Phrase} (hps : ∀ p ∈ ps, p.IsReadable) :
        (Script.mk false rows ps false).IsReadable :=
      ⟨fun row hrow => (hrows row hrow).readable, hps⟩
    have hspan {n : Nat} (hstop : span.stop = n) : span = .ofSize 0 n := by
      have h := Span.eq_of_stop (s := span) (n := n) (by rw [hstop, hstart, Nat.zero_add])
      rwa [hstart] at h
    cases last with
    | none =>
        refine ⟨⟨false, rows, [], false⟩, hscript (by decide), hreadable (by simp), rfl, rfl, rfl, ?_⟩
        rw [Script.document_snippet, hspan hlast]
        rfl
    | some l =>
        obtain ⟨hl, hblank, hstop⟩ := hlast
        obtain ⟨ps, hps, hread, rfl⟩ := Line.isWellFormed_iff.mp hl
        refine ⟨⟨false, rows, ps, false⟩, hscript hps, hreadable hread, rfl, rfl, ?_, ?_⟩
        · rw [Script.keptLast, Phrase.isBlank_line hps _ _, hblank]
          rfl
        · rw [Script.document_snippet, hspan hstop, Line.unlessBlank, hblank]
          rfl
  · rintro ⟨⟨opened, rows, ps, closed⟩, hs, hread, rfl, rfl, hkept, hd⟩
    rw [Script.document_snippet] at hd
    cases hd
    refine ⟨rfl, ⟨_, Row.areBetween_iff.mpr ⟨rows, fun row hrow => ⟨hs.rows row hrow,
      hread.rows row hrow⟩, rfl, rfl⟩, ?_⟩, (Row.isChain_lines_iff 0 rows).mpr hs.apart, rfl⟩
    rw [Nat.zero_add, Line.unlessBlank]
    cases hblank : (Phrase.line (Text.utf8Length (text (Row.allLexemes rows))) ps).isBlank with
    | true =>
        rw [Script.keptLast, Phrase.isBlank_line hs.last _ _, hblank] at hkept
        obtain rfl : [] = ps := hkept
        exact Nat.zero_add _
    | false =>
        exact ⟨Line.isWellFormed_iff.mpr ⟨ps, hs.last, hread.last, rfl⟩, hblank, Nat.zero_add _⟩

theorem Script.keptLast_of_source {s : Script} (h : s.IsScript) (hread : s.IsReadable)
    {kind : DocumentKind} (hopened : kind.startPercent = s.opened)
    (hclosed : kind.endPercent = s.closed) {source : String}
    (hsource : (Node.ofDocument (s.document kind)).source = .ok source)
    (htext : source.toList = s.chars) : s.keptLast = s.last := by
  rw [source_document h hread hopened hclosed, Except.ok.injEq] at hsource
  rw [← hsource, String.toList_ofList, chars_eq, List.append_left_inj,
    List.append_right_inj] at htext
  unfold keptLast at htext ⊢
  split
  next hblank =>
    rw [if_pos hblank] at htext
    exact (h.last.eq_nil_of_text htext.symm).symm
  next => rfl

/-- Lines and snippets are well-formed exactly when they are read back from their own text. -/
theorem isWellFormed_iff_reads_back : (∀ l : Line Item, l.IsWellFormed 0 ↔
      ∃ s, (Node.ofLine l).source = .ok s ∧ parseLine s = .ok l) ∧
    ∀ d : Document Item, d.IsWellFormed ↔
      ∃ s, (Node.ofDocument d).source = .ok s ∧ parseSnippet s = .ok d := by
  constructor
  · intro l
    rw [Line.isWellFormed_iff]
    constructor
    · rintro ⟨ps, hps, hread, rfl⟩
      exact ⟨_, Phrase.source_line hps hread 0, parseLine_of_isLine hps hread⟩
    · rintro ⟨s, -, hl⟩
      exact Line.isWellFormed_iff.mp (Line.isWellFormed_of_parseLine hl)
  · intro d
    rw [Document.isWellFormed_iff]
    constructor
    · rintro ⟨s, hs, hread, hopened, hclosed, hkept, rfl⟩
      have hstart : DocumentKind.snippet.startPercent = s.opened := hopened.symm
      have hsource := Script.source_document hs hread hstart hclosed.symm
      rw [hkept] at hsource
      refine ⟨_, hsource, parseSnippet_eq_ok_iff.mpr ⟨s, hs, hread, ?_, hopened, hclosed, rfl⟩⟩
      simp [Script.chars, Script.lexemes]
    · rintro ⟨source, hsource, hd⟩
      obtain ⟨s, hs, hread, htext, hopened, hclosed, rfl⟩ := parseSnippet_eq_ok_iff.mp hd
      have hstart : DocumentKind.snippet.startPercent = s.opened := hopened.symm
      exact ⟨s, hs, hread, hopened, hclosed,
        Script.keptLast_of_source hs hread hstart hclosed.symm hsource htext, rfl⟩

/-- A field over more bytes than its texts have is written without the rest. -/
theorem wide_field_not_read_back :
    let l : Line Item := .ofItems [.field ⟨"G", .integer 1, ["1"], .ofSize 0 5⟩] (.ofSize 0 5)
    (∀ i ∈ l.items, i.IsSpelled) ∧ l.IsLaidOut 0 ∧
      (Node.ofLine l).source = .ok "G1" ∧ parseLine "G1" ≠ .ok l := by
  intro l
  have hletters : ['G'] ∈ Grammar.letters := Grammar.mem_letters_iff.mpr (by decide)
  have hdigits : ['1'] ∈ Grammar.digits := Grammar.mem_digits_iff.mpr (by decide)
  have hspelled : ∀ i ∈ l.items, i.IsSpelled :=
    List.forall_mem_singleton.mpr ⟨hletters, .integer hdigits⟩
  have harranged : Part.AreArranged [.field] :=
    ⟨[.field], [], [], rfl, List.forall_mem_singleton.mpr (.inl rfl), .inl rfl, .inl rfl⟩
  refine ⟨hspelled, ⟨harranged, .singleton _, ⟨_, rfl, rfl, rfl⟩, rfl, rfl⟩, rfl, fun hl => ?_⟩
  have hfield := (Line.isWellFormed_of_parseLine hl).items _ (List.mem_singleton_self _)
  exact absurd (hfield.width _ rfl) (by decide)

end NcProgram
