import NcProgram.Proofs.Phrase.Line

/-!
Scripts: programs as text alone, before anything has a place. A script is terminated rows of phrases,
a last row, and the percent signs around them. A lone return in front of an empty row that ends with
a line feed would be read as one line end with it, and a comment reaches over a percent sign behind
it; nothing else keeps rows from standing in a text one after the other.
-/

namespace NcProgram

open Lexeme Phrase

theorem exists_map_eq {α β : Type} {f : α → β} {P : α → Prop} {bs : List β}
    (h : ∀ b ∈ bs, ∃ a, P a ∧ f a = b) : ∃ as : List α, (∀ a ∈ as, P a) ∧ as.map f = bs := by
  induction bs with
  | nil => exact ⟨[], by simp, rfl⟩
  | cons b bs ih =>
      obtain ⟨⟨a, ha, rfl⟩, hbs⟩ := List.forall_mem_cons.mp h
      obtain ⟨as, has, rfl⟩ := ih hbs
      exact ⟨a :: as, List.forall_mem_cons.mpr ⟨ha, has⟩, rfl⟩

/-- Phrases and the line end behind them. -/
structure Row where
  phrases : List Phrase
  ending : List Char
  deriving DecidableEq

namespace Row

def lexemes (row : Row) : List Lexeme :=
  allLexemes row.phrases ++ [⟨.newline, row.ending⟩]

def allLexemes (rows : List Row) : List Lexeme :=
  rows.flatMap lexemes

structure IsRow (row : Row) : Prop where
  line : IsLine row.phrases
  ending : HasShape .newline row.ending

structure IsSound (row : Row) : Prop where
  isRow : row.IsRow
  readable : ∀ p ∈ row.phrases, p.IsReadable

/-- The line ends of the rows do not run together. -/
def Apart (row next : Row) : Prop :=
  row.ending = ['\r'] → next.phrases = [] → next.ending ≠ ['\n']

instance (row : Row) : Decidable row.IsRow :=
  decidable_of_iff (IsLine row.phrases ∧ HasShape .newline row.ending)
    ⟨fun h => ⟨h.1, h.2⟩, fun h => ⟨h.line, h.ending⟩⟩

instance (row next : Row) : Decidable (row.Apart next) :=
  inferInstanceAs (Decidable (_ → _ → _))

@[simp] theorem allLexemes_nil : allLexemes [] = [] := rfl

@[simp] theorem allLexemes_cons (row : Row) (rows : List Row) :
    allLexemes (row :: rows) = row.lexemes ++ allLexemes rows := rfl

end Row

structure Script where
  opened : Bool
  rows : List Row
  last : List Phrase
  closed : Bool
  deriving DecidableEq

namespace Script

def percent : Lexeme :=
  ⟨.percent, ['%']⟩

def sign (present : Bool) : List Lexeme :=
  if present then [percent] else []

def lexemes (s : Script) : List Lexeme :=
  sign s.opened ++ Row.allLexemes s.rows ++ Phrase.allLexemes s.last ++ sign s.closed

def chars (s : Script) : List Char :=
  text s.lexemes

theorem chars_eq (s : Script) : s.chars = text (sign s.opened) ++ text (Row.allLexemes s.rows) ++
    text (Phrase.allLexemes s.last) ++ text (sign s.closed) := by
  simp only [chars, lexemes, text_append]

/-- A percent sign may close the script. A lone one opens it instead. -/
structure CanClose (s : Script) : Prop where
  comment : ∀ p ∈ s.last.getLast?, p.part ≠ .trivia .comment
  nonempty : s.opened = true ∨ s.rows ≠ [] ∨ s.last ≠ []

/-- Scripts that can be read back from their text. -/
structure IsScript (s : Script) : Prop where
  rows : ∀ row ∈ s.rows, row.IsRow
  last : IsLine s.last
  apart : s.rows.IsChain Row.Apart
  closing : s.closed = true → s.CanClose

structure IsReadable (s : Script) : Prop where
  rows : ∀ row ∈ s.rows, ∀ p ∈ row.phrases, p.IsReadable
  last : ∀ p ∈ s.last, p.IsReadable

instance (s : Script) : Decidable s.CanClose :=
  decidable_of_iff ((∀ p ∈ s.last.getLast?, p.part ≠ .trivia .comment) ∧
    (s.opened = true ∨ s.rows ≠ [] ∨ s.last ≠ []))
    ⟨fun h => ⟨h.1, h.2⟩, fun h => ⟨h.comment, h.nonempty⟩⟩

instance (s : Script) : Decidable s.IsScript :=
  decidable_of_iff ((∀ row ∈ s.rows, row.IsRow) ∧ IsLine s.last ∧ s.rows.IsChain Row.Apart ∧
    (s.closed = true → s.CanClose))
    ⟨fun h => ⟨h.1, h.2.1, h.2.2.1, h.2.2.2⟩, fun h => ⟨h.rows, h.last, h.apart, h.closing⟩⟩

instance (s : Script) : Decidable s.IsReadable :=
  decidable_of_iff ((∀ row ∈ s.rows, ∀ p ∈ row.phrases, p.IsReadable) ∧ ∀ p ∈ s.last, p.IsReadable)
    ⟨fun h => ⟨h.1, h.2⟩, fun h => ⟨h.rows, h.last⟩⟩

end Script

namespace Lexeme

theorem head_ne_lineFeed_of_kind {l : Lexeme} (hl : HasShape l.kind l.chars)
    (hkind : l.kind ≠ .newline) (rest : List Char) : (l.chars ++ rest).head? ≠ some '\n' := by
  obtain ⟨kind, chars⟩ := l
  obtain ⟨c, cs, rfl⟩ := List.exists_cons_of_ne_nil hl.ne_nil
  have hbreak := (class_of_head hl).1
  rw [decide_eq_false hkind] at hbreak
  rintro ⟨⟩
  cases hbreak

theorem isSequence_newline_append {ls : List Lexeme} (hls : IsSequence ls)
    (hkinds : ∀ l ∈ ls, l.kind ≠ .newline) {ending : List Char} (hending : HasShape .newline ending)
    {ms : List Lexeme} : IsSequence (ls ++ [⟨.newline, ending⟩] ++ ms) ↔
      (ending = ['\r'] → (text ms).head? ≠ some '\n') ∧ IsSequence ms := by
  have hstops : ∀ l ∈ ls.getLast?, Stops l.kind l.chars (text (⟨.newline, ending⟩ :: ms)) :=
    fun l hl => (stops_iff_apart (b := ⟨.newline, ending⟩) hending (text ms)).mpr
      (apart_newline (hkinds l (List.mem_of_mem_getLast? hl)) ending)
  rw [List.append_assoc, List.singleton_append, isSequence_append_iff, isSequence_cons]
  constructor
  · rintro ⟨-, ⟨-, hstop, hms⟩, -⟩
    exact ⟨hstop, hms⟩
  · rintro ⟨hstop, hms⟩
    exact ⟨hls, ⟨hending, hstop, hms⟩, hstops⟩

end Lexeme

namespace Phrase

theorem head_ne_lineFeed {ps : List Phrase} (hps : IsLine ps) (hne : ps ≠ []) (rest : List Char) :
    (text (allLexemes ps) ++ rest).head? ≠ some '\n' := by
  obtain ⟨p, ps, rfl⟩ := List.exists_cons_of_ne_nil hne
  obtain ⟨l, ls, hl, -⟩ := exists_lexemes_eq_cons p
  have hmem : l ∈ allLexemes (p :: ps) := by simp [hl]
  rw [allLexemes_cons, hl, List.cons_append, text_cons, List.append_assoc]
  exact head_ne_lineFeed_of_kind (hps.isSequence.shapes l hmem) (hps.kind_ne_newline hmem) _

end Phrase

namespace Row

theorem head_lineFeed_iff {rows : List Row} (hrows : ∀ row ∈ rows, row.IsRow) {rest : List Lexeme}
    (hrest : (text rest).head? ≠ some '\n') :
    (text (allLexemes rows ++ rest)).head? = some '\n' ↔
      ∃ row ∈ rows.head?, row.phrases = [] ∧ row.ending = ['\n'] := by
  cases rows with
  | nil => simpa using hrest
  | cons row rows =>
      have hrow := hrows row (by simp)
      by_cases hnil : row.phrases = []
      · obtain ⟨c, cs, hcs⟩ := List.exists_cons_of_ne_nil hrow.ending.ne_nil
        have hc := Lexeme.head_ne_lineFeed (hcs ▸ hrow.ending)
        rw [← hcs] at hc
        simp only [allLexemes_cons, lexemes, hnil, Phrase.allLexemes_nil, List.nil_append,
          text_append, text_cons, hcs, List.cons_append, List.head?_cons, Option.some.injEq,
          Option.mem_some_iff, exists_eq_left', true_and]
        rw [← hcs]
        exact not_iff_not.mp hc
      · have hhead := Phrase.head_ne_lineFeed hrow.line hnil
          (text ([⟨.newline, row.ending⟩] ++ (allLexemes rows ++ rest)))
        simp only [allLexemes_cons, lexemes, List.append_assoc, text_append] at hhead ⊢
        exact iff_of_false hhead (by simp [hnil])

theorem isSequence_append_iff {rows : List Row} (hrows : ∀ row ∈ rows, row.IsRow)
    {rest : List Lexeme} (hrest : (text rest).head? ≠ some '\n') :
    IsSequence (allLexemes rows ++ rest) ↔ rows.IsChain Apart ∧ IsSequence rest := by
  induction rows with
  | nil => simp
  | cons row rows ih =>
      obtain ⟨hrow, hrows⟩ := List.forall_mem_cons.mp hrows
      have happend : IsSequence (row.lexemes ++ (allLexemes rows ++ rest)) ↔
          (row.ending = ['\r'] → (text (allLexemes rows ++ rest)).head? ≠ some '\n') ∧
            IsSequence (allLexemes rows ++ rest) :=
        isSequence_newline_append hrow.line.isSequence
          (fun l hl => hrow.line.kind_ne_newline hl) hrow.ending
      have hapart : (∀ next ∈ rows.head?, Apart row next) ↔
          (row.ending = ['\r'] → (text (allLexemes rows ++ rest)).head? ≠ some '\n') := by
        rw [ne_eq, head_lineFeed_iff hrows hrest]
        constructor
        · rintro h hending ⟨next, hnext, hphrases, hlineFeed⟩
          exact h next hnext hending hphrases hlineFeed
        · intro h next hnext hending hphrases hlineFeed
          exact h hending ⟨next, hnext, hphrases, hlineFeed⟩
      rw [allLexemes_cons, List.append_assoc, happend, ih hrows,
        List.isChain_cons, hapart, and_assoc]

end Row

namespace Script

theorem isSequence_last_iff {ps : List Phrase} (hps : IsLine ps) (closed : Bool) :
    IsSequence (Phrase.allLexemes ps ++ sign closed) ↔
      (closed = true → ∀ p ∈ ps.getLast?, p.part ≠ .trivia .comment) := by
  cases closed with
  | false => simp [sign, hps.isSequence]
  | true =>
      have hpercent : IsSequence (sign true) := ⟨by simp [sign, percent, HasShape], by simp [sign]⟩
      rw [Lexeme.isSequence_append_iff]
      rcases List.eq_nil_or_concat' ps with rfl | ⟨front, p, rfl⟩
      · simp [isSequence_nil, hpercent]
      · obtain ⟨ls, l, hl, -, hcomment, -⟩ := exists_lexemes_eq_concat p
        have hlast : (Phrase.allLexemes (front ++ [p])).getLast? = some l := by
          simp [hl, ← List.append_assoc]
        have hmem : l ∈ Phrase.allLexemes (front ++ [p]) := List.mem_of_mem_getLast? hlast
        have hnewline : l.kind ≠ .newline := hps.kind_ne_newline hmem
        have hstops : Stops l.kind l.chars (text (sign true)) ↔ l.kind ≠ .comment := by
          have happly := stops_iff_apart (a := l) (b := percent) rfl []
          rw [List.append_nil] at happly
          refine happly.trans ?_
          obtain ⟨kind, _⟩ := l
          cases kind <;> simp_all [Lexeme.Apart, percent]
        simp only [hlast, Option.mem_some_iff, forall_eq', hstops, hps.isSequence, hpercent,
          List.getLast?_concat, true_and, forall_const, ne_eq, hcomment]

/-- The lexemes of a script do not run together exactly when its rows may follow one another and no
comment reaches over its closing sign. -/
theorem isSequence_lexemes_iff {s : Script} (hrows : ∀ row ∈ s.rows, row.IsRow)
    (hlast : IsLine s.last) : IsSequence s.lexemes ↔ s.rows.IsChain Row.Apart ∧
      (s.closed = true → ∀ p ∈ s.last.getLast?, p.part ≠ .trivia .comment) := by
  have hhead : (text (Phrase.allLexemes s.last ++ sign s.closed)).head? ≠ some '\n' := by
    by_cases hnil : s.last = []
    · cases hclosed : s.closed <;> simp [hnil, sign, percent]
    · rw [text_append]
      exact head_ne_lineFeed hlast hnil _
  have hsign (ls : List Lexeme) : IsSequence (sign s.opened ++ ls) ↔ IsSequence ls := by
    cases s.opened with
    | false => rfl
    | true => simp [sign, isSequence_cons, percent, HasShape, Stops]
  rw [lexemes, List.append_assoc, List.append_assoc, hsign,
    Row.isSequence_append_iff hrows hhead, isSequence_last_iff hlast]

theorem IsScript.isSequence {s : Script} (h : s.IsScript) : IsSequence s.lexemes :=
  (isSequence_lexemes_iff h.rows h.last).mpr ⟨h.apart, fun hclosed => (h.closing hclosed).comment⟩

end Script

end NcProgram
