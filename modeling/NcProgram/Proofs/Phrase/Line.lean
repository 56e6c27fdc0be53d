import NcProgram.Proofs.Phrase.Reading

namespace NcProgram

open Lexeme

namespace Lexeme

theorem apart_newline {l : Lexeme} (h : l.kind ≠ .newline) (chars : List Char) :
    Apart l ⟨.newline, chars⟩ := by
  obtain ⟨kind, _⟩ := l
  cases kind <;> simp_all [Apart]

theorem apart_iff_of_kinds {l k : Lexeme} (hnewline : l.kind ≠ .newline)
    (hletters : l.kind ≠ .letters) (hnewline' : k.kind ≠ .newline) (hinteger : k.kind ≠ .integer) :
    Apart l k ↔ l.kind ≠ .comment ∧ ¬ (l.kind = .whitespace ∧ k.kind = .whitespace) := by
  obtain ⟨kind, _⟩ := l
  cases kind <;> simp_all [Apart]

end Lexeme

/-- The second part may stand directly behind the first one. -/
def Part.Apart (p q : Part) : Prop :=
  p ≠ .trivia .comment ∧ ¬ (p = .trivia .whitespace ∧ q = .trivia .whitespace)

instance (p q : Part) : Decidable (p.Apart q) :=
  inferInstanceAs (Decidable (_ ∧ _))

namespace Phrase

theorem exists_lexemes_eq_cons (p : Phrase) :
    ∃ l ls, p.lexemes = l :: ls ∧ l.kind ≠ .integer ∧
      (l.kind = .whitespace ↔ p.part = .trivia .whitespace) := by
  cases p with
  | trivia kind chars =>
      refine ⟨_, _, rfl, ?_⟩
      cases kind <;> simp [part, TriviaKind.tokenKind]
  | number letters numeral => exact ⟨_, _, rfl, by simp [part]⟩
  | literal letters chars => exact ⟨_, _, rfl, by simp [part]⟩
  | checksum digits => exact ⟨_, _, rfl, by simp [part, star]⟩

theorem exists_numeral_lexemes_eq_concat (n : Numeral) :
    ∃ ls l, n.lexemes = ls ++ [l] ∧ (l.kind = .integer ∨ l.kind = .dot) := by
  cases n with
  | whole negative digits => exact ⟨Numeral.sign negative, _, rfl, .inl rfl⟩
  | decimal negative digits afterPoint =>
      by_cases hnil : afterPoint = []
      · refine ⟨Numeral.sign negative ++ [Numeral.run digits], Numeral.point, ?_, .inr rfl⟩
        simp [Numeral.lexemes, Numeral.places, hnil]
      · refine ⟨Numeral.sign negative ++ [Numeral.run digits, Numeral.point],
          Numeral.run afterPoint, ?_, .inl rfl⟩
        simp [Numeral.lexemes, Numeral.places, hnil]
  | fraction negative afterPoint =>
      refine ⟨Numeral.sign negative ++ [Numeral.point], Numeral.run afterPoint, ?_, .inl rfl⟩
      simp [Numeral.lexemes]

theorem exists_lexemes_eq_concat (p : Phrase) :
    ∃ ls l, p.lexemes = ls ++ [l] ∧ l.kind ≠ .letters ∧
      (l.kind = .comment ↔ p.part = .trivia .comment) ∧
      (l.kind = .whitespace ↔ p.part = .trivia .whitespace) := by
  cases p with
  | trivia kind chars =>
      refine ⟨[], _, rfl, ?_⟩
      cases kind <;> simp [part, TriviaKind.tokenKind]
  | number letters numeral =>
      obtain ⟨ls, l, hlexemes, hkind⟩ := exists_numeral_lexemes_eq_concat numeral
      refine ⟨⟨.letters, letters⟩ :: ls, l, by simp [lexemes, hlexemes], ?_⟩
      rcases hkind with hkind | hkind <;> simp [hkind, part]
  | literal letters chars => exact ⟨[⟨.letters, letters⟩], _, rfl, by simp [part]⟩
  | checksum digits => exact ⟨[star], _, rfl, by simp [part, Numeral.run]⟩

theorem isChain_lexemes (p : Phrase) : p.lexemes.IsChain Lexeme.Apart := by
  cases p with
  | trivia kind chars => exact List.isChain_singleton _
  | number letters numeral =>
      rcases numeral with ⟨_ | _, digits⟩ | ⟨_ | _, digits, afterPoint⟩ | ⟨_ | _, afterPoint⟩
      all_goals
        simp [lexemes, Numeral.lexemes, Numeral.sign, Numeral.minusSign, Numeral.point, Numeral.run,
          Numeral.places, Lexeme.Apart]
      all_goals
        split <;> simp [Lexeme.Apart]
  | literal letters chars => simp [lexemes, Lexeme.Apart]
  | checksum digits => simp [lexemes, star, Lexeme.Apart]

theorem endsLine_eq_false {p : Phrase} (h : p.part ≠ .trivia .newline) {l : Lexeme}
    (hl : l ∈ p.lexemes) : l.kind.endsLine = false := by
  cases p with
  | trivia kind chars =>
      obtain rfl := List.mem_singleton.mp hl
      cases kind with
      | newline => exact absurd rfl h
      | whitespace | comment | inlineComment => rfl
  | number letters numeral =>
      rcases numeral with ⟨_ | _, digits⟩ | ⟨_ | _, digits, afterPoint⟩ | ⟨_ | _, afterPoint⟩
      all_goals
        simp only [lexemes, Numeral.lexemes, Numeral.sign, Numeral.minusSign, Numeral.point,
          Numeral.run, Numeral.places] at hl
        grind [TokenKind.endsLine]
  | literal letters chars => grind [lexemes, TokenKind.endsLine]
  | checksum digits => grind [lexemes, star, Numeral.run, TokenKind.endsLine]

theorem kind_ne_newline {p : Phrase} (h : p.part ≠ .trivia .newline) {l : Lexeme}
    (hl : l ∈ p.lexemes) : l.kind ≠ .newline := by
  intro hkind
  simpa [hkind, TokenKind.endsLine] using endsLine_eq_false h hl

theorem stops_iff_apart {p q : Phrase} (hp : p.part ≠ .trivia .newline) (hq : q.HasShapes)
    (hqpart : q.part ≠ .trivia .newline) (rest : List Char) :
    (∀ l ∈ p.lexemes.getLast?, Stops l.kind l.chars (q.chars ++ rest)) ↔
      Part.Apart p.part q.part := by
  obtain ⟨ls, l, hl, hletters, hcomment, hblank⟩ := exists_lexemes_eq_concat p
  obtain ⟨k, ks, hk, hinteger, hblank'⟩ := exists_lexemes_eq_cons q
  have hlast : p.lexemes.getLast? = some l := by simp [hl]
  have hstops : Stops l.kind l.chars (q.chars ++ rest) ↔ Lexeme.Apart l k := by
    rw [chars, hk, text_cons, List.append_assoc]
    exact Lexeme.stops_iff_apart (hq k (by simp [hk])) _
  have hnewline : l.kind ≠ .newline := kind_ne_newline hp (by simp [hl])
  have hnewline' : k.kind ≠ .newline := kind_ne_newline hqpart (by simp [hk])
  simp only [hlast, Option.mem_some_iff, forall_eq', hstops, Part.Apart, ← hcomment, ← hblank,
    ← hblank', ne_eq]
  exact apart_iff_of_kinds hnewline hletters hnewline' hinteger

/-- Phrases that can stand together on a line. -/
structure IsLine (ps : List Phrase) : Prop where
  shapes : ∀ p ∈ ps, p.HasShapes
  ordered : Parse.Seen.none.Ordered (ps.map part)
  apart : (ps.map part).IsChain Part.Apart

instance (ps : List Phrase) : Decidable (IsLine ps) :=
  decidable_of_iff ((∀ p ∈ ps, p.HasShapes) ∧ Parse.Seen.none.Ordered (ps.map part) ∧
    (ps.map part).IsChain Part.Apart)
    ⟨fun h => ⟨h.1, h.2.1, h.2.2⟩, fun h => ⟨h.shapes, h.ordered, h.apart⟩⟩

theorem part_ne_newline_of_ordered {seen : Parse.Seen} {parts : List Part}
    (h : seen.Ordered parts) {a : Part} (ha : a ∈ parts) : a ≠ .trivia .newline := by
  induction parts generalizing seen with
  | nil => simp at ha
  | cons b parts ih =>
      rcases List.mem_cons.mp ha with rfl | ha
      · rintro rfl
        exact h.1 rfl
      · exact ih h.2 ha

theorem IsLine.part_ne_newline {ps : List Phrase} (h : IsLine ps) {p : Phrase} (hp : p ∈ ps) :
    p.part ≠ .trivia .newline :=
  part_ne_newline_of_ordered h.ordered (List.mem_map_of_mem hp)

/-- The lexemes of phrases do not run together when the phrases may stand side by side. -/
theorem isSequence_allLexemes_iff {ps : List Phrase} (hshapes : ∀ p ∈ ps, p.HasShapes)
    (hparts : ∀ p ∈ ps, p.part ≠ .trivia .newline) :
    IsSequence (allLexemes ps) ↔ (ps.map part).IsChain Part.Apart := by
  induction ps with
  | nil => simp [isSequence_nil]
  | cons p ps ih =>
      obtain ⟨hp, hps⟩ := List.forall_mem_cons.mp hshapes
      obtain ⟨hpart, hparts⟩ := List.forall_mem_cons.mp hparts
      have hlexemes : IsSequence p.lexemes := ⟨hp, isChain_lexemes p⟩
      rw [allLexemes_cons, isSequence_append_iff, ih hps hparts]
      cases ps with
      | nil => simp [hlexemes, Lexeme.stops_nil]
      | cons q ps =>
          have hstops := stops_iff_apart hpart (hps q (by simp)) (hparts q (by simp))
            (text (allLexemes ps))
          simp only [allLexemes_cons, text_append, List.map_cons, List.isChain_cons_cons, ← hstops,
            chars]
          constructor
          · rintro ⟨-, hchain, hp⟩
            exact ⟨hp, hchain⟩
          · rintro ⟨hp, hchain⟩
            exact ⟨hlexemes, hchain, hp⟩

theorem IsLine.isSequence {ps : List Phrase} (h : IsLine ps) : IsSequence (allLexemes ps) :=
  (isSequence_allLexemes_iff h.shapes fun _ => h.part_ne_newline).mpr h.apart

theorem IsLine.endsLine_eq_false {ps : List Phrase} (h : IsLine ps) {l : Lexeme}
    (hl : l ∈ allLexemes ps) : l.kind.endsLine = false := by
  obtain ⟨p, hp, hl⟩ := List.mem_flatMap.mp hl
  exact Phrase.endsLine_eq_false (h.part_ne_newline hp) hl

theorem IsLine.kind_ne_newline {ps : List Phrase} (h : IsLine ps) {l : Lexeme}
    (hl : l ∈ allLexemes ps) : l.kind ≠ .newline := by
  intro hkind
  simpa [hkind, TokenKind.endsLine] using h.endsLine_eq_false hl

theorem isLineBreak_eq_false {ps : List Phrase} (h : IsLine ps) :
    ∀ c ∈ text (allLexemes ps), isLineBreak c = false := by
  intro c hc
  obtain ⟨l, hl, hc⟩ := List.mem_flatMap.mp hc
  rw [(h.isSequence.shapes l hl).isLineBreak_eq hc, decide_eq_false (h.kind_ne_newline hl)]

theorem IsLine.eq_nil_of_text {ps : List Phrase} (h : IsLine ps)
    (htext : text (allLexemes ps) = []) : ps = [] := by
  cases ps with
  | nil => rfl
  | cons p ps =>
      obtain ⟨l, ls, hl, -⟩ := exists_lexemes_eq_cons p
      have hne := (h.isSequence.shapes l (by simp [hl])).ne_nil
      simp [hl, hne] at htext

def textSize (ps : List Phrase) : Nat :=
  Text.utf8Length (text (allLexemes ps))

theorem textSize_cons (p : Phrase) (ps : List Phrase) :
    textSize (p :: ps) = p.size + textSize ps := by
  rw [textSize, allLexemes_cons, text_append, Text.utf8Length_append]
  rfl

/-- The line that phrases mean at an offset. -/
def line (o : Nat) (ps : List Phrase) : Line Item :=
  .ofItems (items o ps) (.ofSize o (textSize ps))

theorem extent_before {m : Mark} {ps : List Phrase} {next : Token}
    (hnext : next.start = (m.afterAll (allLexemes ps)).offset) :
    (LineTree.before (trees m ps) next).extent = ⟨m.offset, (m.offset + textSize ps : Nat)⟩ := by
  have hstop : ((placed m (allLexemes ps)).map Token.stop).getLastD next.start =
      (m.offset + textSize ps : Nat) := by
    rw [textSize, ← offset_afterAll]
    generalize allLexemes ps = ls at *
    cases ls with
    | nil => exact hnext
    | cons l ls =>
        have hlast := stop_getLastD_placed ls (stop_token m l)
        rw [placed_cons, List.map_cons, List.getLastD_cons, afterAll_cons, ← hlast]
        rw [List.getLastD_eq_getLast?, List.getLast?_map, List.getLastD_eq_getLast?]
        cases (placed (m.after l) ls).getLast? <;> rfl
  have hstart : ((placed m (allLexemes ps)).headD next).start = m.offset := by
    generalize allLexemes ps = ls at *
    cases ls with
    | nil => exact hnext
    | cons l ls => rfl
  simp only [LineTree.before, leaves_trees, hstop, hstart]

theorem build_before {ps : List Phrase} (h : ∀ p ∈ ps, p.HasShapes) {m : Mark} {next : Token}
    (hnext : next.start = (m.afterAll (allLexemes ps)).offset) {l : Line Item} :
    (LineTree.before (trees m ps) next).build = .ok l ↔
      (∀ p ∈ ps, p.IsReadable) ∧ l = line m.offset ps := by
  have hitems : (LineTree.before (trees m ps) next).items = trees m ps := rfl
  simp only [LineTree.build, hitems, extent_before hnext, Extent.span_eq_ok,
    except_bind_eq_ok_iff, build_trees h, except_pure_eq_ok_iff, Except.ok.injEq]
  constructor
  · rintro ⟨_, ⟨hread, rfl⟩, _, rfl, rfl⟩
    exact ⟨hread, rfl⟩
  · rintro ⟨hread, rfl⟩
    exact ⟨_, ⟨hread, rfl⟩, _, rfl, rfl⟩

theorem IsLine.isLine_before {ps : List Phrase} (h : IsLine ps) (m : Mark) (next : Token) :
    (LineTree.before (trees m ps) next).IsLine next := by
  refine ⟨⟨fun t => isItem_of_mem_trees, ?_⟩, rfl⟩
  rw [LineTree.before, map_part_trees]
  exact h.ordered

theorem leaves_before (m : Mark) (ps : List Phrase) (next : Token) :
    (LineTree.before (trees m ps) next).leaves = placed m (allLexemes ps) :=
  leaves_trees m ps

theorem exists_line {m : Mark} {t : LineTree} {next : Token} (ht : t.IsLine next)
    {ls : List Lexeme} (hls : IsSequence ls) (h : placed m ls = t.leaves) :
    ∃ ps, IsLine ps ∧ allLexemes ps = ls ∧ t = .before (trees m ps) next := by
  obtain ⟨⟨hitems, hordered⟩, heq⟩ := ht
  obtain ⟨ps, rfl, htrees⟩ := exists_phrases hitems hls.shapes h
  rw [← htrees, map_part_trees] at hordered
  have hshapes : ∀ p ∈ ps, p.HasShapes := fun p hp l hl =>
    hls.shapes l (List.mem_flatMap.mpr ⟨p, hp, hl⟩)
  have hparts : ∀ p ∈ ps, p.part ≠ .trivia .newline := fun p hp =>
    part_ne_newline_of_ordered hordered (List.mem_map_of_mem hp)
  have hapart := (isSequence_allLexemes_iff hshapes hparts).mp hls
  exact ⟨ps, ⟨hshapes, hordered, hapart⟩, rfl, htrees ▸ heq⟩

end Phrase

end NcProgram
