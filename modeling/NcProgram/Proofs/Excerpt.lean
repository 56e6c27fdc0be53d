import NcProgram.Proofs.Phrase.Reading
import NcProgram.Proofs.Text.Rows

namespace NcProgram

open Lexeme

/-- The lines above, the line cut into what is in front of the marked characters, these, and what is
behind them, and the rest of the text from the terminator of the line on. -/
structure Excerpt where
  above : List Char
  before : List Char
  marked : List Char
  after : List Char
  below : List Char

/-- Characters of a text on one line or a whole terminator, with no terminator cut in two in front of
them. There are none only at the end of the text. -/
structure IsPiece (behind piece ahead : List Char) : Prop where
  shape : (∀ c ∈ piece, isLineBreak c = false) ∨
    HasShape .newline piece ∧ Stops .newline piece ahead
  whole : behind.getLast? = some '\r' → (piece ++ ahead).head? ≠ some '\n'
  atEnd : piece = [] → ahead = []

namespace Excerpt

def row (x : Excerpt) : List Char :=
  x.before ++ x.marked ++ x.after

def text (x : Excerpt) : List Char :=
  x.above ++ x.row ++ x.below

def number (x : Excerpt) : Nat :=
  Text.lineEnds x.above + 1

def column (x : Excerpt) : Nat :=
  x.before.length + 1

def gutter (x : Excerpt) : String :=
  toString x.number ++ " | "

/-- The row is a whole line without its terminator, and no terminator is cut in two. -/
structure IsLine (x : Excerpt) : Prop where
  unbroken : ∀ c ∈ x.row, isLineBreak c = false
  above : ∀ c ∈ x.above.getLast?, isLineBreak c = true
  below : ∀ c ∈ x.below.head?, isLineBreak c = true
  whole : x.above.getLast? = some '\r' → (x.row ++ x.below).head? ≠ some '\n'

/-- The marked characters are those of the span that lie on the line. When there are none, the span is
empty or the terminator of the line, and starts at the end of the line. -/
structure Marks (x : Excerpt) (s : Span) : Prop where
  start : s.start = Text.utf8Length (x.above ++ x.before)
  stop : s.stop = Text.utf8Length (x.above ++ x.before ++ x.marked) ∨
    x.marked = [] ∧ ∃ terminator rest, x.below = terminator ++ rest ∧
      HasShape .newline terminator ∧ Stops .newline terminator rest ∧
      s.stop = Text.utf8Length (x.above ++ x.before ++ terminator)
  atEnd : x.marked = [] → x.after = []

/-- The complaint, where it applies, the line, and carets below the marked characters. -/
def shown (x : Excerpt) (complaint : Complaint) : String :=
  "error: " ++ complaint.text ++ "\n  --> line " ++ toString x.number ++ ", col " ++
    toString x.column ++ "\n" ++ x.gutter ++ String.ofList x.row ++ "\n" ++
    String.ofList (List.replicate (x.gutter.length + x.column - 1) ' ') ++
    String.ofList (List.replicate (max 1 x.marked.length) '^')

variable {x : Excerpt} {s : Span}

theorem upperRows_eq (h : x.IsLine) : Text.upperRows (x.above ++ x.before) = x.above := by
  have hbefore : ∀ c ∈ x.before, isLineBreak c = false := fun c hc => h.unbroken c (by simp [row, hc])
  have hlast : Text.lastRow (x.above ++ x.before) = x.before := by
    rw [Text.lastRow_append_of_unbroken hbefore]
    cases hend : x.above.getLast? with
    | none => rw [List.getLast?_eq_none_iff.mp hend]; rfl
    | some c =>
        rw [← List.nil_append x.above, Text.lastRow_append_of_break hend (h.above c hend),
          List.nil_append]
  have happend := Text.upperRows_append_lastRow (x.above ++ x.before)
  rw [hlast] at happend
  exact List.append_cancel_right happend

theorem lineEnds_eq (h : x.IsLine) :
    1 + Text.lineEnds (x.above ++ x.before) = x.number := by
  have hbefore : ∀ c ∈ x.before, isLineBreak c = false := fun c hc => h.unbroken c (by simp [row, hc])
  rw [Text.lineEnds_append, Text.lineEnds_of_unbroken hbefore, number]
  · omega
  · intro hlast hhead
    have := hbefore '\n' (List.mem_of_mem_head? hhead)
    simp [isLineBreak] at this

theorem bounds_eq (h : x.IsLine) :
    LineBounds.ofOffset x.text (Text.utf8Length (x.above ++ x.before)) =
      ⟨x.number, Text.utf8Length x.above, Text.utf8Length (x.above ++ x.row)⟩ := by
  have htext : x.text = (x.above ++ x.before) ++ (x.marked ++ x.after ++ x.below) := by
    simp [text, row]
  have hrest : (x.marked ++ x.after ++ x.below).takeWhile (!isLineBreak ·) = x.marked ++ x.after := by
    have hmarked : ∀ c ∈ x.marked ++ x.after, (!isLineBreak c) = true := by
      intro c hc
      have hrow : c ∈ x.row := by
        rw [row, List.append_assoc]
        exact List.mem_append_right _ hc
      simp [h.unbroken c hrow]
    rw [List.takeWhile_append_of_pos hmarked]
    cases hbelow : x.below with
    | nil => simp
    | cons c rest => simp [h.below c (by simp [hbelow])]
  rw [htext, LineBounds.ofOffset_utf8Length, hrest, lineEnds_eq h, upperRows_eq h]
  simp [row, Nat.add_assoc]

/-- The line behind the given text, from its last row on. -/
def around (behind marked after below : List Char) : Excerpt :=
  ⟨Text.upperRows behind, Text.lastRow behind, marked, after, below⟩

theorem above_append_before_around (behind marked after below : List Char) :
    (around behind marked after below).above ++ (around behind marked after below).before = behind :=
  Text.upperRows_append_lastRow behind

theorem text_around (behind marked after below : List Char) :
    (around behind marked after below).text = behind ++ (marked ++ after ++ below) := by
  simp only [text, row, ← List.append_assoc, above_append_before_around]
  rfl

theorem column_around (behind marked after below : List Char) :
    (around behind marked after below).column = 1 + (Text.lastRow behind).length :=
  Nat.add_comm _ _

theorem number_around {behind marked after below : List Char}
    (h : (around behind marked after below).IsLine) :
    (around behind marked after below).number = 1 + Text.lineEnds behind := by
  rw [← lineEnds_eq h, above_append_before_around]

theorem isLine_around {behind marked after below : List Char}
    (hrow : ∀ c ∈ marked ++ after, isLineBreak c = false)
    (hbelow : ∀ c ∈ below.head?, isLineBreak c = true)
    (hwhole : behind.getLast? = some '\r' → (marked ++ after ++ below).head? ≠ some '\n') :
    (around behind marked after below).IsLine := by
  have hlast : ∀ c ∈ Text.lastRow behind, isLineBreak c = false := Text.lastRow_unbroken
  refine ⟨?_, Text.isLineBreak_getLast?_upperRows, hbelow, ?_⟩
  · rw [row, List.append_assoc]
    exact List.forall_mem_append.mpr ⟨hlast, hrow⟩
  · intro hreturn
    rw [row, List.append_assoc, List.append_assoc]
    change (Text.lastRow behind ++ (marked ++ (after ++ below))).head? ≠ some '\n'
    have hbehind := Text.upperRows_append_lastRow behind
    cases hcase : Text.lastRow behind with
    | nil =>
        rw [hcase, List.append_nil] at hbehind
        rw [List.nil_append, ← List.append_assoc]
        exact hwhole (hbehind ▸ hreturn)
    | cons c cs =>
        rintro ⟨⟩
        have hfeed := hlast '\n' (hcase ▸ List.mem_cons_self)
        simp [isLineBreak] at hfeed

theorem exists_of_isPiece {behind piece ahead : List Char} (h : IsPiece behind piece ahead) :
    ∃ x : Excerpt, x.text = behind ++ piece ++ ahead ∧ x.IsLine ∧
      x.Marks (.ofSize (Text.utf8Length behind) (Text.utf8Length piece)) ∧
      x.number = 1 + Text.lineEnds behind ∧ x.column = 1 + (Text.lastRow behind).length := by
  rcases h.shape with hunbroken | ⟨hshape, hstops⟩
  · have hrest : ahead.takeWhile (!isLineBreak ·) ++ ahead.dropWhile (!isLineBreak ·) = ahead :=
      List.takeWhile_append_dropWhile
    -- the line goes on behind the piece up to the next line break
    let x := around behind piece (ahead.takeWhile (!isLineBreak ·))
      (ahead.dropWhile (!isLineBreak ·))
    have hx : x.IsLine := by
      refine isLine_around (List.forall_mem_append.mpr ⟨hunbroken, fun c hc => ?_⟩) ?_ ?_
      · simpa using List.mem_takeWhile_imp hc
      · intro c hc
        have hnot := List.head?_dropWhile_not (!isLineBreak ·) ahead
        rw [Option.mem_def.mp hc] at hnot
        simpa using hnot
      · rw [List.append_assoc, hrest]
        exact h.whole
    refine ⟨x, ?_, hx, ⟨?_, .inl ?_, ?_⟩, number_around hx, column_around _ _ _ _⟩
    · rw [text_around, List.append_assoc, List.append_assoc, hrest]
    · rw [above_append_before_around]
      rfl
    · rw [above_append_before_around, Text.utf8Length_append]
      rfl
    · intro hnil
      have hahead := h.atEnd hnil
      simp [x, around, hahead]
  · -- a terminator is no part of its line, so nothing is marked at the end of that
    let x := around behind [] [] (piece ++ ahead)
    have hx : x.IsLine := by
      refine isLine_around nofun ?_ h.whole
      obtain ⟨c, cs, rfl⟩ := List.exists_cons_of_ne_nil hshape.ne_nil
      rintro _ ⟨⟩
      exact (class_of_head hshape).1.trans (decide_eq_true rfl)
    refine ⟨x, ?_, hx, ⟨?_, .inr ⟨rfl, piece, ahead, rfl, hshape, hstops, ?_⟩, fun _ => rfl⟩,
      number_around hx, column_around _ _ _ _⟩
    · rw [text_around, List.nil_append, List.nil_append, List.append_assoc]
    · rw [above_append_before_around]
      rfl
    · rw [above_append_before_around, Text.utf8Length_append]
      rfl

end Excerpt

namespace ProgramError

open Excerpt

theorem excerpt_utf8Length (front cs back : List Char) :
    excerpt (front ++ cs ++ back) (Text.utf8Length front) (Text.utf8Length (front ++ cs)) =
      .ok cs := by
  rw [excerpt, Text.sliceBytes?_utf8Length_append]

theorem excerpt_marked {x : Excerpt} {s : Span} (h : x.Marks s) :
    excerpt x.text s.start (max s.start (min s.stop (Text.utf8Length (x.above ++ x.row)))) =
      .ok x.marked := by
  have htext : x.text = (x.above ++ x.before) ++ x.marked ++ (x.after ++ x.below) := by
    simp [Excerpt.text, row]
  have hstop : max s.start (min s.stop (Text.utf8Length (x.above ++ x.row))) =
      Text.utf8Length ((x.above ++ x.before) ++ x.marked) := by
    have hstart := h.start
    rcases h.stop with hstop | ⟨hmarked, _, _, _, _, _, hstop⟩
    · simp only [row, Text.utf8Length_append] at hstart hstop ⊢
      omega
    · have hafter := h.atEnd hmarked
      simp only [row, hmarked, hafter, Text.utf8Length_append, Text.utf8Length_nil] at hstart hstop ⊢
      omega
  rw [htext, hstop, h.start]
  exact excerpt_utf8Length _ _ _

theorem diagnostic_eq {e : ProgramError} {x : Excerpt} (h : x.IsLine) (hspan : x.Marks e.span)
    {source : String} (hsource : source.toList = x.text) :
    e.diagnostic source = .ok (x.shown e.complaint) := by
  have hrow : excerpt x.text (Text.utf8Length x.above) (Text.utf8Length (x.above ++ x.row)) =
      .ok x.row := excerpt_utf8Length _ _ _
  have hbefore : excerpt x.text (Text.utf8Length x.above) e.span.start = .ok x.before := by
    have htext : x.text = x.above ++ x.before ++ (x.marked ++ x.after ++ x.below) := by
      simp [Excerpt.text, row]
    rw [htext, hspan.start]
    exact excerpt_utf8Length _ _ _
  have hmarked := excerpt_marked hspan
  have hbounds : LineBounds.ofOffset x.text e.span.start =
      ⟨x.number, Text.utf8Length x.above, Text.utf8Length (x.above ++ x.row)⟩ := by
    rw [hspan.start]
    exact bounds_eq h
  rw [diagnostic]
  dsimp only
  rw [hsource, hbounds]
  exact except_bind_eq_ok_iff.mpr ⟨_, hrow, except_bind_eq_ok_iff.mpr ⟨_, hbefore,
    except_bind_eq_ok_iff.mpr ⟨_, hmarked, rfl⟩⟩⟩

end ProgramError

end NcProgram
