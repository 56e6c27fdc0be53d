import NcProgram.Proofs.Lexeme.Shape
import NcProgram.Token.Stream
import Mathlib.Data.List.Chain

/-!
Texts as sequences of lexemes. A sequence whose neighbours do not carry each other on is read back
from its text lexeme by lexeme, each at the place behind the text before it, and every text without
lexical mistakes is the text of such a sequence.
-/

namespace NcProgram

namespace Lexeme

/-- The second lexeme does not carry the first one on. -/
def Apart (a b : Lexeme) : Prop :=
  match a.kind with
  | .newline => a.chars = ['\r'] → b.chars ≠ ['\n']
  | .whitespace => b.kind ≠ .whitespace
  | .integer => b.kind ≠ .integer
  | .letters => b.kind ≠ .letters
  | .comment => b.kind = .newline
  | _ => True

/-- Lexemes that can stand in a text in this order. -/
structure IsSequence (ls : List Lexeme) : Prop where
  shapes : ∀ l ∈ ls, HasShape l.kind l.chars
  apart : ls.IsChain Apart

/-- The characters of lexemes, in order. -/
def text (ls : List Lexeme) : List Char :=
  ls.flatMap chars

/-- A lexeme as a token at a place. -/
def token (m : Mark) (l : Lexeme) : Token :=
  .ofText l.kind (String.ofList l.chars) m.offset m.line m.column

end Lexeme

namespace Mark

/-- The place behind a lexeme. -/
def after (m : Mark) (l : Lexeme) : Mark where
  offset := m.offset + Text.utf8Length l.chars
  line := if l.kind = .newline then m.line + 1 else m.line
  column := if l.kind = .newline then 1 else m.column + l.chars.length

/-- The place behind lexemes that follow one another. -/
def afterAll (m : Mark) (ls : List Lexeme) : Mark :=
  ls.foldl after m

/-- The end of a text at a place. -/
def endToken (m : Mark) : Token :=
  .ofText .eof "" m.offset m.line m.column

end Mark

namespace Lexeme

/-- The tokens of lexemes that follow one another from a place on. -/
def placed : Mark → List Lexeme → List Token
  | _, [] => []
  | m, l :: ls => l.token m :: placed (m.after l) ls

@[simp] theorem text_nil : text [] = [] := rfl

@[simp] theorem text_cons (l : Lexeme) (ls : List Lexeme) :
    text (l :: ls) = l.chars ++ text ls := rfl

@[simp] theorem text_append (ls ms : List Lexeme) : text (ls ++ ms) = text ls ++ text ms := by
  simp [text]

@[simp] theorem placed_nil (m : Mark) : placed m [] = [] := rfl

@[simp] theorem placed_cons (m : Mark) (l : Lexeme) (ls : List Lexeme) :
    placed m (l :: ls) = l.token m :: placed (m.after l) ls := rfl

@[simp] theorem afterAll_nil (m : Mark) : m.afterAll [] = m := rfl

@[simp] theorem afterAll_cons (m : Mark) (l : Lexeme) (ls : List Lexeme) :
    m.afterAll (l :: ls) = (m.after l).afterAll ls := rfl

@[simp] theorem afterAll_append (m : Mark) (ls ms : List Lexeme) :
    m.afterAll (ls ++ ms) = (m.afterAll ls).afterAll ms := by
  simp [Mark.afterAll]

@[simp] theorem placed_append (m : Mark) (ls ms : List Lexeme) :
    placed m (ls ++ ms) = placed m ls ++ placed (m.afterAll ls) ms := by
  induction ls generalizing m with
  | nil => rfl
  | cons l ls ih => simp [ih]

theorem offset_afterAll (m : Mark) (ls : List Lexeme) :
    (m.afterAll ls).offset = m.offset + Text.utf8Length (text ls) := by
  induction ls generalizing m with
  | nil => simp
  | cons l ls ih => simp [ih, Mark.after, Nat.add_assoc]

theorem exists_of_placed_eq_append {m : Mark} {ls : List Lexeme} {ts us : List Token}
    (h : placed m ls = ts ++ us) :
    ∃ ls₁ ls₂, ls = ls₁ ++ ls₂ ∧ placed m ls₁ = ts ∧ placed (m.afterAll ls₁) ls₂ = us := by
  induction ts generalizing m ls with
  | nil => exact ⟨[], ls, rfl, rfl, h⟩
  | cons t ts ih =>
      cases ls with
      | nil => simp at h
      | cons l ls =>
          simp only [placed_cons, List.cons_append, List.cons.injEq] at h
          obtain ⟨ls₁, ls₂, rfl, rfl, rfl⟩ := ih h.2
          exact ⟨l :: ls₁, ls₂, rfl, by simp [h.1], rfl⟩

theorem kind_ne_eof_of_mem_placed {m : Mark} {ls : List Lexeme}
    (h : ∀ l ∈ ls, HasShape l.kind l.chars) {t : Token} (ht : t ∈ placed m ls) :
    t.kind ≠ .eof := by
  induction ls generalizing m with
  | nil => simp at ht
  | cons l ls ih =>
      rcases List.mem_cons.mp ht with rfl | ht
      · exact (h l (by simp)).kind_ne_eof
      · exact ih (fun k hk => h k (by simp [hk])) ht

theorem class_of_head {kind : TokenKind} {c : Char} {cs : List Char} (h : HasShape kind (c :: cs)) :
    isLineBreak c = decide (kind = .newline) ∧ isSpace c = decide (kind = .whitespace) ∧
      c.isDigit = decide (kind = .integer) ∧ c.isAlpha = decide (kind = .letters) := by
  cases kind with
  | newline =>
      simp only [HasShape, terminators, List.mem_cons, List.cons.injEq, List.not_mem_nil,
        or_false] at h
      rcases h with ⟨rfl, _⟩ | ⟨rfl, _⟩ | ⟨rfl, _⟩ <;> decide
  | whitespace =>
      rcases isSpace_eq_true_iff.mp (h.2 c (by simp)) with rfl | rfl <;> decide
  | dot | star | minus | percent =>
      obtain ⟨rfl, -⟩ : c = _ ∧ cs = [] := by simpa [HasShape] using h
      decide
  | string | inlineComment =>
      obtain ⟨inner, heq, -⟩ := h
      obtain ⟨rfl, -⟩ := List.cons.inj heq
      decide
  | comment =>
      obtain ⟨inner, heq, -⟩ := h
      obtain ⟨rfl, -⟩ := List.cons.inj heq
      decide
  | integer =>
      have hc := h.2 c (by simp)
      obtain ⟨h₁, h₂, -⟩ := isPlain_of_isDigit hc
      have h₃ : c.isAlpha = false := by
        by_contra hne
        simp [isDigit_of_isAlpha (by simpa using hne)] at hc
      simp [h₁, h₂, h₃, hc]
  | letters =>
      have hc := h.2 c (by simp)
      obtain ⟨h₁, h₂, -⟩ := isPlain_of_isAlpha hc
      simp [h₁, h₂, isDigit_of_isAlpha hc, hc]
  | eof => exact h.elim

theorem head_ne_lineFeed {kind : TokenKind} {c : Char} {cs : List Char}
    (h : HasShape kind (c :: cs)) : c ≠ '\n' ↔ c :: cs ≠ ['\n'] := by
  constructor
  · rintro hc ⟨rfl, rfl⟩
    exact hc rfl
  · rintro hcs rfl
    have hkind : kind = .newline := of_decide_eq_true (class_of_head h).1.symm
    subst hkind
    simp [HasShape, terminators] at h
    exact hcs (by rw [h])

theorem stops_iff_apart {a b : Lexeme} (hb : HasShape b.kind b.chars) (rest : List Char) :
    Stops a.kind a.chars (b.chars ++ rest) ↔ Apart a b := by
  obtain ⟨kind, chars⟩ := a
  obtain ⟨next, nextChars⟩ := b
  obtain ⟨c, cs, rfl⟩ := List.exists_cons_of_ne_nil hb.ne_nil
  obtain ⟨h₁, h₂, h₃, h₄⟩ := class_of_head hb
  cases kind with
  | newline => simp [Stops, Apart, ← head_ne_lineFeed hb]
  | whitespace => simp [Stops, Apart, h₂]
  | integer => simp [Stops, Apart, h₃]
  | letters => simp [Stops, Apart, h₄]
  | comment => simp [Stops, Apart, h₁]
  | dot | star | minus | percent | string | inlineComment | eof => simp [Stops, Apart]

theorem stops_nil (l : Lexeme) : Stops l.kind l.chars [] := by
  obtain ⟨kind, chars⟩ := l
  cases kind <;> simp [Stops]

theorem isSequence_cons {l : Lexeme} {ls : List Lexeme} :
    IsSequence (l :: ls) ↔
      HasShape l.kind l.chars ∧ Stops l.kind l.chars (text ls) ∧ IsSequence ls := by
  constructor
  · rintro ⟨hshapes, hapart⟩
    refine ⟨hshapes l (by simp), ?_, fun k hk => hshapes k (by simp [hk]), hapart.tail⟩
    cases ls with
    | nil => exact stops_nil l
    | cons k ls =>
        exact (stops_iff_apart (hshapes k (by simp)) (text ls)).mpr
          (List.isChain_cons_cons.mp hapart).1
  · rintro ⟨hshape, hstops, hshapes, hapart⟩
    refine ⟨by simpa [hshape] using hshapes, ?_⟩
    cases ls with
    | nil => exact List.isChain_singleton l
    | cons k ls =>
        exact List.isChain_cons_cons.mpr
          ⟨(stops_iff_apart (hshapes k (by simp)) (text ls)).mp hstops, hapart⟩

theorem isSequence_nil : IsSequence [] :=
  ⟨by simp, List.isChain_nil⟩

theorem isSequence_append_iff {ls ms : List Lexeme} :
    IsSequence (ls ++ ms) ↔ IsSequence ls ∧ IsSequence ms ∧
      ∀ l ∈ ls.getLast?, Stops l.kind l.chars (text ms) := by
  have hstops (hms : ∀ m ∈ ms, HasShape m.kind m.chars) (l : Lexeme) :
      (∀ m ∈ ms.head?, Apart l m) ↔ Stops l.kind l.chars (text ms) := by
    cases ms with
    | nil => simp [stops_nil]
    | cons m ms => simp [stops_iff_apart (hms m (by simp))]
  constructor
  · rintro ⟨hshapes, hapart⟩
    obtain ⟨hls, hms⟩ := List.forall_mem_append.mp hshapes
    obtain ⟨hapart₁, hapart₂, hapart⟩ := List.isChain_append.mp hapart
    exact ⟨⟨hls, hapart₁⟩, ⟨hms, hapart₂⟩, fun l hl => (hstops hms l).mp (hapart l hl)⟩
  · rintro ⟨⟨hls, hapart₁⟩, ⟨hms, hapart₂⟩, hapart⟩
    exact ⟨List.forall_mem_append.mpr ⟨hls, hms⟩,
      List.isChain_append.mpr ⟨hapart₁, hapart₂, fun l hl => (hstops hms l).mpr (hapart l hl)⟩⟩

end Lexeme

namespace Cursor

/-- The place where a cursor stands. -/
def place (c : Cursor) : Mark :=
  ⟨c.offset, c.line, c.column⟩

theorem exists_scan_eq {c : Cursor} {l : Lexeme} {rest : List Char}
    (hshape : Lexeme.HasShape l.kind l.chars) (hstops : Lexeme.Stops l.kind l.chars rest)
    (hahead : c.ahead = l.chars ++ rest) :
    ∃ next, c.scan = .ok (l.token c.place, next) ∧ next.ahead = rest ∧
      next.place = c.place.after l := by
  have hfirst := Lexeme.first_append hshape hstops
  refine ⟨(c.marked.take l.kind l.chars.length).2, ?_, ?_, ?_⟩
  · simp only [scan, hahead, hfirst, take, Except.ok.injEq, Prod.mk.injEq, and_true]
    simp [token, Lexeme.token, marked, place, hahead]
  · simp only [take]
    split <;> simp [lineFeed, move, marked, hahead]
  · simp only [take]
    split
    next hkind => simp [lineFeed, move, marked, hahead, place, Mark.after, hkind]
    next hkind => simp [move, marked, hahead, place, Mark.after, hkind]

theorem exists_lexeme_of_scan {c next : Cursor} {t : Token} (h : c.scan = .ok (t, next)) :
    ∃ l : Lexeme, Lexeme.HasShape l.kind l.chars ∧ Lexeme.Stops l.kind l.chars next.ahead ∧
      c.ahead = l.chars ++ next.ahead ∧ t = l.token c.place := by
  have hscan := h
  unfold scan at h
  split at h
  next kind n hfirst =>
    obtain ⟨lexeme, rest, hahead, rfl, hshape, hstops⟩ := Lexeme.exists_of_first hfirst
    obtain ⟨next', hnext, hrest, -⟩ :=
      exists_scan_eq (l := ⟨kind, lexeme⟩) hshape hstops hahead
    obtain ⟨rfl, rfl⟩ : t = Lexeme.token c.place ⟨kind, lexeme⟩ ∧ next = next' := by
      simpa [hscan] using hnext
    exact ⟨⟨kind, lexeme⟩, hshape, hrest ▸ hstops, hrest ▸ hahead, rfl⟩
  next => simp at h

end Cursor

namespace Stream

open Lexeme

theorem ofCursor_eq {ls : List Lexeme} (h : IsSequence ls) {c : Cursor} (hc : c.ahead = text ls) :
    ofCursor c = ⟨placed c.place ls ++ [(c.place.afterAll ls).endToken], none⟩ := by
  induction ls generalizing c with
  | nil =>
      rw [ofCursor, if_pos (by simpa using hc)]
      rfl
  | cons l ls ih =>
      obtain ⟨hshape, hstops, hls⟩ := isSequence_cons.mp h
      obtain ⟨next, hscan, hahead, hplace⟩ := Cursor.exists_scan_eq hshape hstops hc
      have hne : c.ahead ≠ [] := by simp [hc, hshape.ne_nil]
      rw [ofCursor, if_neg hne]
      split
      next t next' hscan' =>
        obtain ⟨rfl, rfl⟩ : l.token c.place = t ∧ next = next' := by simpa [hscan] using hscan'
        rw [ih hls hahead, hplace]
        rfl
      next e hscan' => simp [hscan] at hscan'

theorem exists_sequence {c : Cursor} (h : (ofCursor c).failure = none) :
    ∃ ls, IsSequence ls ∧ c.ahead = text ls := by
  fun_induction ofCursor c with
  | case1 c hc => exact ⟨[], isSequence_nil, hc⟩
  | case2 c hc t next hscan ih =>
      obtain ⟨ls, hls, htext⟩ := ih h
      obtain ⟨l, hshape, hstops, hahead, -⟩ := Cursor.exists_lexeme_of_scan hscan
      refine ⟨l :: ls, isSequence_cons.mpr ⟨hshape, htext ▸ hstops, hls⟩, ?_⟩
      rw [hahead, htext, text_cons]
  | case3 c hc e hscan => simp at h

theorem kind_ne_eof {c : Cursor} (h : (ofCursor c).failure ≠ none) {t : Token}
    (ht : t ∈ (ofCursor c).tokens) : t.kind ≠ .eof := by
  fun_induction ofCursor c with
  | case1 c hc => simp at h
  | case2 c hc u next hscan ih =>
      rcases List.mem_cons.mp ht with rfl | ht
      · obtain ⟨l, hshape, -, -, rfl⟩ := Cursor.exists_lexeme_of_scan hscan
        exact hshape.kind_ne_eof
      · exact ih h ht
  | case3 c hc e hscan => simp at ht

def origin : Mark :=
  ⟨0, 1, 1⟩

theorem ofSource_eq {ls : List Lexeme} (h : IsSequence ls) {source : String}
    (hsource : source.toList = text ls) :
    ofSource source = ⟨placed origin ls ++ [(origin.afterAll ls).endToken], none⟩ :=
  ofCursor_eq h (c := .ofText source.toList) hsource

end Stream

end NcProgram
