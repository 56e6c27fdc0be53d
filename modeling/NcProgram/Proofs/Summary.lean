import NcProgram.Proofs.Node.Views
import NcProgram.Proofs.Script.Source
import NcProgram.Proofs.Tokenizing
import NcProgram.Node.Outline

namespace NcProgram

open Lexeme

/-- More than blanks stands behind the last line end. Percent signs and the end of the text are no part
of a line. -/
def hasLastLine (kinds : List TokenKind) : Bool :=
  (kinds.rtakeWhile (· ≠ .newline)).any (· ∉ [.whitespace, .percent, .eof])

def lineCount (kinds : List TokenKind) : Nat :=
  kinds.count .newline + if hasLastLine kinds then 1 else 0

/-- The summary that the tokens of a text say. -/
def summaryOfTokens (name : String) (ts : List Token) : String :=
  let kinds := ts.map Token.kind
  name ++ ": " ++ toString (lineCount kinds) ++ " lines, " ++ toString (kinds.count .letters) ++
    " fields, " ++ toString (kinds.count .star) ++ " checksums"

theorem countP_eq_sum_toNat {α : Type} (p : α → Bool) (xs : List α) :
    xs.countP p = (xs.map fun x => (p x).toNat).sum := by
  induction xs with
  | nil => rfl
  | cons x xs ih =>
      rw [List.countP_cons, ih, List.map_cons, List.sum_cons, Nat.add_comm]
      cases p x <;> rfl

namespace Lexeme

def kinds (ls : List Lexeme) : List TokenKind :=
  ls.map kind

@[simp] theorem kinds_nil : kinds [] = [] := rfl

@[simp] theorem kinds_cons (l : Lexeme) (ls : List Lexeme) : kinds (l :: ls) = l.kind :: kinds ls := rfl

@[simp] theorem kinds_append (ls ms : List Lexeme) : kinds (ls ++ ms) = kinds ls ++ kinds ms :=
  List.map_append

theorem map_kind_placed (m : Mark) (ls : List Lexeme) : (placed m ls).map Token.kind = kinds ls := by
  rw [kinds, ← map_lexeme_placed m ls, List.map_map, map_lexeme_placed]
  rfl

end Lexeme

namespace Phrase

theorem count_kinds_lexemes (p : Phrase) :
    (kinds p.lexemes).count .letters = [p.part].count .field ∧
      (kinds p.lexemes).count .star = [p.part].count .checksum := by
  cases p with
  | trivia kind chars => cases kind <;> exact ⟨rfl, rfl⟩
  | literal => exact ⟨rfl, rfl⟩
  | checksum => exact ⟨rfl, rfl⟩
  | number letters n =>
      have hnumeral {k : TokenKind} (hk : k ≠ .minus ∧ k ≠ .integer ∧ k ≠ .dot) :
          k ∉ kinds n.lexemes := by
        intro hmem
        obtain ⟨l, hl, rfl⟩ := List.mem_map.mp hmem
        rcases Numeral.kind_of_mem_lexemes hl with h | h | h <;> simp [h] at hk
      have hletters := List.count_eq_zero_of_not_mem (hnumeral (k := .letters) (by decide))
      have hstar := List.count_eq_zero_of_not_mem (hnumeral (k := .star) (by decide))
      simp [lexemes, part, hletters, hstar]

theorem count_kinds (ps : List Phrase) :
    (kinds (allLexemes ps)).count .letters = (ps.map part).count .field ∧
      (kinds (allLexemes ps)).count .star = (ps.map part).count .checksum := by
  induction ps with
  | nil => exact ⟨rfl, rfl⟩
  | cons p ps ih =>
      obtain ⟨hletters, hstar⟩ := count_kinds_lexemes p
      rw [allLexemes_cons, kinds_append, List.count_append, List.count_append, hletters, hstar, ih.1,
        ih.2, ← List.count_append, ← List.count_append]
      exact ⟨rfl, rfl⟩

theorem length_fields (o : Nat) (ps : List Phrase) :
    (line o ps).fields.length = (kinds (allLexemes ps)).count .letters := by
  have hfield (i : Item) : i.field?.isSome = (i.part == .field) := by cases i <;> rfl
  rw [(count_kinds ps).1, ← map_part_items o ps, List.count, List.countP_map]
  change ((items o ps).filterMap Item.field?).length = _
  rw [List.length_filterMap_eq_countP]
  exact congrArg (List.countP · _) (funext hfield)

theorem isSome_checksum {ps : List Phrase} (h : IsLine ps) (o : Nat) :
    (line o ps).checksum.isSome.toNat = (kinds (allLexemes ps)).count .star := by
  have hchecksum (i : Item) : i.checksum?.isSome = true ↔ i.part = .checksum := by
    cases i <;> simp [Item.checksum?, Item.part]
  have hle := Parse.Seen.count_checksum_le h.ordered
  rw [(count_kinds ps).2]
  have hsome : (line o ps).checksum.isSome = true ↔ .checksum ∈ ps.map part := by
    rw [← map_part_items o ps, List.mem_map]
    change ((items o ps).findSome? Item.checksum?).isSome = true ↔ _
    rw [List.findSome?_isSome_iff]
    exact exists_congr fun i => and_congr_right fun _ => hchecksum i
  by_cases hmem : .checksum ∈ ps.map part
  · have hpos := List.count_pos_iff.mpr hmem
    rw [hsome.mpr hmem]
    change _ ≤ 1 at hle
    change 1 = _
    omega
  · rw [Bool.eq_false_iff.mpr (mt hsome.mp hmem), List.count_eq_zero_of_not_mem hmem]
    rfl

theorem kind_eq_whitespace_of_isBlank {ps : List Phrase} (h : IsLine ps) {o : Nat}
    (hblank : (line o ps).isBlank = true) : ∀ k ∈ kinds (allLexemes ps), k = .whitespace := by
  intro k hk
  obtain ⟨l, hl, rfl⟩ := List.mem_map.mp hk
  obtain ⟨p, hp, hl⟩ := List.mem_flatMap.mp hl
  have hpart := (isBlank_line_iff h o).mp hblank p hp
  cases p with
  | trivia kind chars =>
      cases hpart
      rw [List.mem_singleton.mp hl]
      rfl
  | number => cases hpart
  | literal => cases hpart
  | checksum => cases hpart

theorem isBlank_line_iff_kinds {ps : List Phrase} (h : IsLine ps) (o : Nat) :
    (line o ps).isBlank = true ↔ ∀ k ∈ kinds (allLexemes ps), k = .whitespace := by
  refine ⟨kind_eq_whitespace_of_isBlank h, fun hall => (isBlank_line_iff h o).mpr fun p hp => ?_⟩
  obtain ⟨l, ls, hl, -, hwhitespace⟩ := exists_lexemes_eq_cons p
  apply hwhitespace.mp
  exact hall _ (List.mem_map_of_mem (List.mem_flatMap.mpr ⟨p, hp, by simp [hl]⟩))

theorem kind_of_mem_kinds {ps : List Phrase} (h : IsLine ps) :
    ∀ k ∈ kinds (allLexemes ps), k ≠ .newline ∧ k ≠ .percent ∧ k ≠ .eof := by
  intro k hk
  obtain ⟨l, hl, rfl⟩ := List.mem_map.mp hk
  have hends := h.endsLine_eq_false hl
  refine ⟨?_, ?_, ?_⟩ <;> intro hkind <;> simp [hkind, TokenKind.endsLine] at hends

theorem count_newline {ps : List Phrase} (h : IsLine ps) :
    (kinds (allLexemes ps)).count .newline = 0 :=
  List.count_eq_zero_of_not_mem fun hmem => (kind_of_mem_kinds h _ hmem).1 rfl

end Phrase

namespace Row

theorem length_lines_eq (o : Nat) {rows : List Row} (h : ∀ row ∈ rows, row.IsRow) :
    (lines o rows).length = (kinds (allLexemes rows)).count .newline := by
  induction rows generalizing o with
  | nil => rfl
  | cons row rows ih =>
      obtain ⟨hrow, hrows⟩ := List.forall_mem_cons.mp h
      simp [lines, lexemes, ih _ hrows, Phrase.count_newline hrow.line, Nat.add_comm]

variable {w : Line Item → Nat} {k : TokenKind}

theorem sum_lines (hk : k ≠ .newline) (hw : ∀ o ps, Phrase.IsLine ps →
    w (Phrase.line o ps) = (kinds (Phrase.allLexemes ps)).count k) {rows : List Row}
    (h : ∀ row ∈ rows, row.IsRow) (o : Nat) :
    ((lines o rows).map fun p => w p.1).sum = (kinds (allLexemes rows)).count k := by
  induction rows generalizing o with
  | nil => rfl
  | cons row rows ih =>
      obtain ⟨hrow, hrows⟩ := List.forall_mem_cons.mp h
      simp [lines, pair, lexemes, ih hrows, hw _ _ hrow.line, Ne.symm hk]

end Row

namespace Script

variable {s : Script} {w : Line Item → Nat} {k : TokenKind}

theorem kind_of_mem_sign (present : Bool) : ∀ k ∈ kinds (sign present), k = .percent := by
  cases present <;> simp [sign, percent]

theorem count_sign (hk : k ≠ .percent) (present : Bool) : (kinds (sign present)).count k = 0 :=
  List.count_eq_zero_of_not_mem fun hmem => hk (kind_of_mem_sign present k hmem)

theorem sum_allLines (h : s.IsScript) (hk : k ≠ .newline ∧ k ≠ .percent ∧ k ≠ .whitespace)
    (hw : ∀ o ps, Phrase.IsLine ps →
      w (Phrase.line o ps) = (kinds (Phrase.allLexemes ps)).count k) (kind : DocumentKind) :
    ((s.document kind).allLines.map w).sum = (kinds s.lexemes).count k := by
  obtain ⟨hnewline, hpercent, hwhitespace⟩ := hk
  have hrows := Row.sum_lines hnewline hw h.rows s.rowsMark.offset
  -- a line that is left out holds nothing that is counted
  have hlast : ((Phrase.line s.lastMark.offset s.last).unlessBlank.toList.map w).sum =
      (kinds (Phrase.allLexemes s.last)).count k := by
    rw [Line.unlessBlank]
    split
    next hblank =>
      have hkinds := Phrase.kind_eq_whitespace_of_isBlank h.last hblank
      exact (List.count_eq_zero_of_not_mem fun hmem => hwhitespace (hkinds k hmem)).symm
    next => simp [hw _ _ h.last]
  rw [lexemes, kinds_append, kinds_append, kinds_append, List.count_append, List.count_append,
    List.count_append, count_sign hpercent, count_sign hpercent, ← hrows, ← hlast]
  simp [Document.allLines, document, List.map_map, Function.comp_def]

theorem rtakeWhile_opening (s : Script) :
    ∀ k ∈ (kinds (sign s.opened ++ Row.allLexemes s.rows)).rtakeWhile (· ≠ .newline),
      k = .percent := by
  intro k hk
  rcases List.eq_nil_or_concat' s.rows with hnil | ⟨front, row, hrows⟩
  · rw [hnil, Row.allLexemes_nil, List.append_nil] at hk
    exact kind_of_mem_sign _ _ ((List.rtakeWhile_suffix _ _).subset hk)
  · have hkinds : kinds (sign s.opened ++ Row.allLexemes s.rows) = kinds (sign s.opened ++
        Row.allLexemes front ++ Phrase.allLexemes row.phrases) ++ [.newline] := by
      simp [hrows, Row.allLexemes, Row.lexemes]
    rw [hkinds, List.rtakeWhile_concat_neg _ _ _ (by simp)] at hk
    cases hk

theorem hasLastLine_eq (h : s.IsScript) (o : Nat) :
    hasLastLine (kinds s.lexemes ++ [.eof]) = !(Phrase.line o s.last).isBlank := by
  have hopening := s.rtakeWhile_opening
  have hclosing := kind_of_mem_sign s.closed
  have hlast := Phrase.kind_of_mem_kinds h.last
  have hbehind : ∀ k ∈ kinds (Phrase.allLexemes s.last) ++ (kinds (sign s.closed) ++ [.eof]),
      decide (k ≠ .newline) = true := by
    intro k hk
    simp only [List.mem_append, List.mem_singleton] at hk
    rcases hk with hk | hk | rfl
    · exact decide_eq_true (hlast k hk).1
    · rw [hclosing k hk]
      rfl
    · rfl
  have hkinds : kinds s.lexemes ++ [.eof] = kinds (sign s.opened ++ Row.allLexemes s.rows) ++
      (kinds (Phrase.allLexemes s.last) ++ (kinds (sign s.closed) ++ [.eof])) := by
    simp [lexemes]
  rw [hasLastLine, hkinds, rtakeWhile_append_of_pos hbehind, Bool.eq_iff_iff, Bool.not_eq_true',
    ← Bool.not_eq_true, Phrase.isBlank_line_iff_kinds h.last, List.any_eq_true]
  simp only [List.mem_append, decide_eq_true_eq, List.mem_cons, List.not_mem_nil, or_false, not_or]
  constructor
  · rintro ⟨k, hk, hwhitespace, hpercent, heof⟩ hall
    rcases hk with hk | hk | hk | hk
    · exact hpercent (hopening k hk)
    · exact hwhitespace (hall k hk)
    · exact hpercent (hclosing k hk)
    · exact heof hk
  · intro hnot
    obtain ⟨k, hk, hwhitespace⟩ := not_forall₂.mp hnot
    obtain ⟨-, hpercent, heof⟩ := hlast k hk
    exact ⟨k, .inr (.inl hk), hwhitespace, hpercent, heof⟩

theorem length_allLines (h : s.IsScript) (kind : DocumentKind) :
    (s.document kind).allLines.length = lineCount (kinds s.lexemes ++ [.eof]) := by
  have hrows := Row.length_lines_eq s.rowsMark.offset h.rows
  have hlast := Phrase.count_newline h.last
  have hsign (present : Bool) := count_sign (k := .newline) (by decide) present
  rw [lineCount, hasLastLine_eq h s.lastMark.offset, Document.allLines, List.length_append,
    List.length_map]
  simp only [document, hrows, lexemes, kinds_append, List.count_append, hsign, hlast]
  rw [Line.unlessBlank]
  cases (Phrase.line s.lastMark.offset s.last).isBlank <;> simp

theorem summary_document (h : s.IsScript) {source : String} (hsource : source.toList = s.chars)
    (kind : DocumentKind) : ∃ ts, tokenize source = .ok ts ∧
      (s.document kind).summary = summaryOfTokens kind.name ts := by
  refine ⟨_, tokenize_eq_ok_iff.mpr ⟨s.lexemes, h.isSequence, hsource, rfl⟩, ?_⟩
  have hfields := sum_allLines h (w := fun l => l.fields.length) (by decide)
    (fun o ps _ => Phrase.length_fields o ps) kind
  have hchecksums := sum_allLines h (w := fun l => l.checksum.isSome.toNat) (by decide)
    (fun o ps hps => Phrase.isSome_checksum hps o) kind
  have hkinds : (placed Stream.origin s.lexemes ++
      [(Stream.origin.afterAll s.lexemes).endToken]).map Token.kind = kinds s.lexemes ++ [.eof] := by
    rw [List.map_append, map_kind_placed]
    rfl
  rw [Document.summary, summaryOfTokens, hkinds, ← length_allLines h kind, List.length_flatMap,
    hfields, countP_eq_sum_toNat, hchecksums, List.count_append, List.count_append]
  rfl

end Script

/-- The numbers in the summary of whatever is read are counts of its tokens. -/
theorem summary_counts_tokens (source : String) :
    (∀ d, parseFile source = .ok d →
      ∃ ts, tokenize source = .ok ts ∧ d.summary = summaryOfTokens "file" ts) ∧
    ∀ d, parseSnippet source = .ok d →
      ∃ ts, tokenize source = .ok ts ∧ d.summary = summaryOfTokens "snippet" ts := by
  constructor
  · intro d hd
    obtain ⟨s, hs, -, hsource, rfl⟩ := parseFile_eq_ok_iff.mp hd
    exact Script.summary_document hs hsource _
  · intro d hd
    obtain ⟨s, hs, -, hsource, -, -, rfl⟩ := parseSnippet_eq_ok_iff.mp hd
    exact Script.summary_document hs hsource _

theorem summary_counts_tokens_blank_row :
    (∃ d, parseFile "%G1X.5*071\n\t%" = .ok d ∧
      ∃ ts, tokenize "%G1X.5*071\n\t%" = .ok ts ∧ d.summary = summaryOfTokens "file" ts) ∧
      ∃ d, parseSnippet "G1\r\n(a)" = .ok d ∧
        ∃ ts, tokenize "G1\r\n(a)" = .ok ts ∧ d.summary = summaryOfTokens "snippet" ts := by
  obtain ⟨d, hd⟩ : ∃ d, parseFile "%G1X.5*071\n\t%" = .ok d :=
    ⟨_, parseFile_eq_ok_iff.mpr ⟨⟨true, [⟨[.number ['G'] (.whole false ['1']),
      .number ['X'] (.fraction false ['5']), .checksum ['0', '7', '1']], ['\n']⟩],
      [.trivia .whitespace ['\t']], true⟩, by decide, by decide, by decide, rfl⟩⟩
  obtain ⟨e, he⟩ : ∃ e, parseSnippet "G1\r\n(a)" = .ok e :=
    ⟨_, parseSnippet_eq_ok_iff.mpr ⟨⟨false, [⟨[.number ['G'] (.whole false ['1'])], ['\r', '\n']⟩],
      [.trivia .inlineComment ['(', 'a', ')']], false⟩, by decide, by decide, by decide, rfl, rfl,
      rfl⟩⟩
  exact ⟨⟨d, hd, (summary_counts_tokens _).1 d hd⟩, ⟨e, he, (summary_counts_tokens _).2 e he⟩⟩

end NcProgram
