import NcProgram.Proofs.Script
import NcProgram.Proofs.Tree.Whole

namespace NcProgram

open Lexeme

namespace Row

/-- The trees of rows that follow one another from a place on, each with its line end. -/
def trees : Mark → List Row → List (LineTree × Token)
  | _, [] => []
  | m, row :: rows =>
    let next := token (m.afterAll (Phrase.allLexemes row.phrases)) ⟨.newline, row.ending⟩
    (.before (Phrase.trees m row.phrases) next, next) :: trees (m.afterAll row.lexemes) rows

/-- The number of bytes that a row takes up. -/
def size (row : Row) : Nat :=
  Phrase.textSize row.phrases + Text.utf8Length row.ending

theorem size_eq (row : Row) : row.size = Text.utf8Length (text row.lexemes) := by
  simp [size, lexemes, Phrase.textSize]

/-- The line that a row means at an offset, with its line end. -/
def pair (o : Nat) (row : Row) : Line Item × Trivia :=
  (Phrase.line o row.phrases,
    ⟨.newline, String.ofList row.ending, (o + Phrase.textSize row.phrases : Nat)⟩)

/-- The lines that rows mean from an offset on. -/
def lines : Nat → List Row → List (Line Item × Trivia)
  | _, [] => []
  | o, row :: rows => row.pair o :: lines (o + row.size) rows

theorem exists_of_mem_lines {rows : List Row} {source : String} {front back : List Char}
    (h : source.toList = front ++ (text (allLexemes rows) ++ back)) :
    ∀ p ∈ lines (Text.utf8Length front) rows, ∃ row ∈ rows, ∃ before after,
      source.toList = before ++ (text (Phrase.allLexemes row.phrases) ++ (row.ending ++ after)) ∧
      p = row.pair (Text.utf8Length before) := by
  induction rows generalizing front with
  | nil => simp [lines]
  | cons row rows ih =>
      have hrow : source.toList = front ++ (text (Phrase.allLexemes row.phrases) ++
          (row.ending ++ (text (allLexemes rows) ++ back))) := by
        simp [h, lexemes]
      have hrows : source.toList = front ++ text row.lexemes ++ (text (allLexemes rows) ++ back) := by
        simp [h]
      have hrest := ih hrows
      rw [Text.utf8Length_append, ← size_eq] at hrest
      refine List.forall_mem_cons.mpr ⟨⟨row, List.mem_cons_self, front, _, hrow, rfl⟩, ?_⟩
      intro p hp
      obtain ⟨found, hfound, hplace⟩ := hrest p hp
      exact ⟨found, List.mem_cons_of_mem row hfound, hplace⟩

theorem offset_afterAll_lexemes (m : Mark) (row : Row) :
    (m.afterAll row.lexemes).offset = m.offset + row.size := by
  rw [offset_afterAll, size_eq]

theorem leaves_trees (m : Mark) (rows : List Row) :
    ((trees m rows).flatMap fun p => p.1.leaves ++ [p.2]) = placed m (allLexemes rows) := by
  induction rows generalizing m with
  | nil => rfl
  | cons row rows ih => simp [trees, Phrase.leaves_before, ih, lexemes]

theorem arePairs_trees {m : Mark} {rows : List Row} (h : ∀ row ∈ rows, row.IsRow) :
    Parse.ArePairs (trees m rows) := by
  induction rows generalizing m with
  | nil => simp [Parse.ArePairs, trees]
  | cons row rows ih =>
      obtain ⟨hrow, hrows⟩ := List.forall_mem_cons.mp h
      exact List.forall_mem_cons.mpr ⟨⟨hrow.line.isLine_before m _, rfl⟩, ih hrows⟩

theorem exists_rows {m : Mark} {pairs : List (LineTree × Token)} (hpairs : Parse.ArePairs pairs)
    {ls : List Lexeme} (hls : IsSequence ls)
    (h : placed m ls = pairs.flatMap fun p => p.1.leaves ++ [p.2]) :
    ∃ rows : List Row, (∀ row ∈ rows, row.IsRow) ∧ allLexemes rows = ls ∧ trees m rows = pairs := by
  induction pairs generalizing m ls with
  | nil =>
      cases ls with
      | nil => exact ⟨[], by simp, rfl, rfl⟩
      | cons l ls => simp at h
  | cons pair pairs ih =>
      obtain ⟨t, terminator⟩ := pair
      obtain ⟨⟨ht, hkind⟩, htail⟩ := List.forall_mem_cons.mp hpairs
      rw [List.flatMap_cons, List.append_assoc] at h
      dsimp only at h ht hkind
      obtain ⟨ls₁, ls', rfl, h₁, h⟩ := exists_of_placed_eq_append h
      obtain ⟨ls₂, ls₃, rfl, h₂, h₃⟩ := exists_of_placed_eq_append h
      obtain ⟨hls₁, hls', -⟩ := Lexeme.isSequence_append_iff.mp hls
      obtain ⟨hls₂, hls₃, -⟩ := Lexeme.isSequence_append_iff.mp hls'
      obtain ⟨ps, hps, rfl, rfl⟩ := Phrase.exists_line ht hls₁ h₁
      obtain ⟨ending, rfl, hending, rfl⟩ := Numeral.exists_lexeme hkind hls₂.shapes h₂
      have hmark : m.afterAll (lexemes ⟨ps, ending⟩) =
          (m.afterAll (Phrase.allLexemes ps)).afterAll [⟨.newline, ending⟩] :=
        afterAll_append m _ _
      obtain ⟨rows, hrows, rfl, rfl⟩ := ih (m := m.afterAll (lexemes ⟨ps, ending⟩)) htail hls₃
        (hmark ▸ h₃)
      refine ⟨⟨ps, ending⟩ :: rows, List.forall_mem_cons.mpr ⟨⟨hps, hending⟩, hrows⟩, ?_, rfl⟩
      simp [lexemes]

theorem build_trees {rows : List Row} (h : ∀ row ∈ rows, row.IsRow) {m : Mark}
    {ls : List (Line Item × Trivia)} :
    ((trees m rows).mapM fun p => do
        let line ← p.1.build
        pure (line, Trivia.ofToken .newline p.2)) = Except.ok ls ↔
      (∀ row ∈ rows, ∀ p ∈ row.phrases, p.IsReadable) ∧ ls = lines m.offset rows := by
  induction rows generalizing m ls with
  | nil =>
      simp only [trees, List.mapM_nil, except_pure_eq_ok_iff, lines]
      simp [eq_comm]
  | cons row rows ih =>
      obtain ⟨hrow, hrows⟩ := List.forall_mem_cons.mp h
      have hterminator : Trivia.ofToken .newline
          (token (m.afterAll (Phrase.allLexemes row.phrases)) ⟨.newline, row.ending⟩) =
          ⟨.newline, String.ofList row.ending, (m.offset + Phrase.textSize row.phrases : Nat)⟩ := by
        rw [Trivia.ofToken, start_token, offset_afterAll, Phrase.textSize]
        rfl
      have hbuild {l : Line Item} := Phrase.build_before (l := l) hrow.line.shapes
        (start_token (m.afterAll (Phrase.allLexemes row.phrases)) ⟨.newline, row.ending⟩)
      simp only [trees, List.mapM_cons, except_bind_eq_ok_iff, except_pure_eq_ok_iff, hbuild,
        ih hrows, List.forall_mem_cons, lines, hterminator, offset_afterAll_lexemes]
      constructor
      · rintro ⟨_, ⟨_, ⟨hread, rfl⟩, rfl⟩, _, ⟨hreads, rfl⟩, rfl⟩
        exact ⟨⟨hread, hreads⟩, rfl⟩
      · rintro ⟨⟨hread, hreads⟩, rfl⟩
        exact ⟨_, ⟨_, ⟨hread, rfl⟩, rfl⟩, _, ⟨hreads, rfl⟩, rfl⟩

end Row

namespace Script

/-- The tokens that a percent sign leaves at a place. -/
def signToken (m : Mark) (present : Bool) : Option Token :=
  if present then some (percent.token m) else none

theorem toList_signToken (m : Mark) (present : Bool) :
    (signToken m present).toList = placed m (sign present) := by
  cases present <;> rfl

theorem isSome_signToken (m : Mark) (present : Bool) : (signToken m present).isSome = present := by
  cases present <;> rfl

theorem kind_of_mem_signToken {m : Mark} {present : Bool} :
    ∀ t ∈ signToken m present, t.kind = .percent := by
  cases present <;> simp [signToken, token, percent, Token.ofText]

theorem exists_sign {m : Mark} {found : Option Token} (hfound : ∀ t ∈ found, t.kind = .percent)
    {ls : List Lexeme} (hls : IsSequence ls) (h : placed m ls = found.toList) :
    ∃ present, ls = sign present ∧ found = signToken m present := by
  cases found with
  | none =>
      cases ls with
      | nil => exact ⟨false, rfl, rfl⟩
      | cons l ls => simp at h
  | some t =>
      obtain ⟨chars, rfl, hchars, rfl⟩ := Numeral.exists_lexeme (hfound t rfl) hls.shapes h
      obtain rfl : chars = ['%'] := hchars
      exact ⟨true, rfl, rfl⟩

end Script

end NcProgram
