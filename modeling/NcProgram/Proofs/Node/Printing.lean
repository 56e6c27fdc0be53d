import NcProgram.Proofs.Node.Views
import NcProgram.Proofs.Script.Source
import NcProgram.Node.Source

namespace NcProgram

open Lexeme

theorem Span.slice?_ofSize {source : String} {front middle back : List Char}
    (h : source.toList = front ++ (middle ++ back)) :
    (Span.ofSize (Text.utf8Length front) (Text.utf8Length middle)).slice? source =
      some (String.ofList middle) := by
  have hslice := Text.sliceBytes?_utf8Length_append front middle back
  rw [Text.utf8Length_append, List.append_assoc, ← h] at hslice
  simp only [slice?, ofSize, hslice, Option.map_some]

namespace Numeral

theorem join_raw (n : Numeral) : String.join n.raw = String.ofList (text n.lexemes) := by
  apply String.toList_inj.mp
  cases n with
  | whole negative digits =>
      cases negative <;> simp [raw, lexemes, sign, minusSign, run]
  | decimal negative digits afterPoint =>
      cases negative <;>
        simp [raw, lexemes, sign, minusSign, run, point, text_places]
  | fraction negative afterPoint =>
      cases negative <;> simp [raw, lexemes, sign, minusSign, run, point]

end Numeral

theorem Checksum.source_eq {n w : Nat} (hn : n ≤ maxChecksum) (hw : w ≤ Text.maxDigits) {s : Span}
    (hs : s.size = w + 1) : (Checksum.mk n s).source = .ok ("*" ++ zeroFilled w n) := by
  have hspan : ¬ maxSpanSize < w + 1 := by
    simp only [Text.maxDigits, maxSpanSize] at *
    omega
  have hfilled : ¬ maxFilledSize < w + 1 := by
    simp only [Text.maxDigits, maxFilledSize] at *
    omega
  have hshort : Text.isTooLongToWrite n = false :=
    Text.isTooLongToWrite_of_lt (w := 3) (by decide) (Nat.lt_of_le_of_lt hn (by decide))
  refine except_bind_eq_ok_iff.mpr ⟨w + 1, by rw [Span.checkedSize, hs, if_neg hspan], ?_⟩
  simp only [Nat.succ_ne_zero, Int.natAbs_natCast, hshort, Bool.false_eq_true, if_false,
    if_neg hfilled, Nat.add_sub_cancel]
  rfl

namespace Phrase

theorem chars_checksum (digits : List Char) : (checksum digits).chars = '*' :: digits := by
  simp [chars, lexemes, star, Numeral.run]

theorem isRun_of_checksum {digits : List Char} (h : (checksum digits).HasShapes) :
    IsRun Char.isDigit digits :=
  h (Numeral.run digits) (by simp [lexemes])

theorem size_checksum {digits : List Char} (h : (checksum digits).HasShapes) :
    (checksum digits).size = digits.length + 1 := by
  have hdigits := Text.utf8Length_of_isDigit (isRun_of_checksum h).2
  rw [size, chars_checksum, Text.utf8Length_cons, hdigits, Nat.add_comm]
  rfl

theorem source_item {p : Phrase} (hshapes : p.HasShapes) (hread : p.IsReadable) (o : Nat) :
    (p.item o).source = .ok (String.ofList p.chars) := by
  cases p with
  | trivia kind chars => simp [item, Item.source, Phrase.chars, lexemes]
  | number letters numeral =>
      simp [item, Item.source, Field.text, Numeral.join_raw, Phrase.chars, lexemes]
  | literal letters chars =>
      simp [item, Item.source, Field.text, Phrase.chars, lexemes, String.join_cons]
  | checksum digits =>
      obtain ⟨hne, hdigits⟩ := isRun_of_checksum hshapes
      have hsource := Checksum.source_eq (n := Text.decimalValue digits) (w := digits.length)
        hread.fitsByte hread.shortRuns (s := .ofSize o (checksum digits).size)
        ((Nat.add_sub_cancel_left ..).trans (size_checksum hshapes))
      rw [item, Item.source, hsource, chars_checksum, Except.ok.injEq]
      apply String.toList_inj.mp
      simp [zeroFilled_decimalValue hne hdigits]

theorem source_node {p : Phrase} (hshapes : p.HasShapes) (hread : p.IsReadable) (o : Nat) :
    (Node.item (p.item o)).source = .ok (String.ofList p.chars) := by
  rw [Node.source, Node.pieces, source_item hshapes hread]
  simp [bind, Except.bind, pure, Except.pure, String.join_cons]

theorem pieces_items {ps : List Phrase} (hshapes : ∀ p ∈ ps, p.HasShapes)
    (hread : ∀ p ∈ ps, p.IsReadable) (o : Nat) :
    piecesOfNodes ((items o ps).map .item) = .ok (ps.map fun p => String.ofList p.chars) := by
  induction ps generalizing o with
  | nil => rfl
  | cons p ps ih =>
      obtain ⟨hp, hps⟩ := List.forall_mem_cons.mp hshapes
      obtain ⟨hpread, hpsread⟩ := List.forall_mem_cons.mp hread
      have hpiece : (Node.item (p.item o)).pieces = .ok [String.ofList p.chars] := by
        rw [Node.pieces, source_item hp hpread]
        rfl
      rw [items_cons, List.map_cons, piecesOfNodes, hpiece, ih hps hpsread]
      rfl

theorem join_pieces (ps : List Phrase) :
    String.join (ps.map fun p => String.ofList p.chars) = String.ofList (text (allLexemes ps)) := by
  induction ps with
  | nil => rfl
  | cons p ps ih => rw [List.map_cons, String.join_cons, ih, allLexemes_cons, text_append,
      String.ofList_append, chars]

theorem source_line {ps : List Phrase} (h : IsLine ps) (hread : ∀ p ∈ ps, p.IsReadable) (o : Nat) :
    (Node.ofLine (line o ps)).source = .ok (String.ofList (text (allLexemes ps))) := by
  have hpieces : (Node.ofLine (line o ps)).pieces = .ok (ps.map fun p => String.ofList p.chars) :=
    pieces_items h.shapes hread o
  rw [Node.source, hpieces, ← join_pieces]
  rfl

end Phrase

namespace Row

def pieces (row : Row) : List String :=
  row.phrases.map (fun p => String.ofList p.chars) ++ [String.ofList row.ending]

theorem pieces_lines {rows : List Row} (h : ∀ row ∈ rows, row.IsRow)
    (hread : ∀ row ∈ rows, ∀ p ∈ row.phrases, p.IsReadable) (o : Nat) :
    piecesOfLines ((lines o rows).map fun p => (p.1.map .item, p.2)) =
      .ok (rows.flatMap pieces) := by
  induction rows generalizing o with
  | nil => rfl
  | cons row rows ih =>
      obtain ⟨hrow, hrows⟩ := List.forall_mem_cons.mp h
      obtain ⟨hrowread, hrowsread⟩ := List.forall_mem_cons.mp hread
      have hfirst := Phrase.pieces_items hrow.line.shapes hrowread o
      have hline : (row.pair o).1.items = Phrase.items o row.phrases := rfl
      rw [lines, List.map_cons, Line.map, piecesOfLines, hline, hfirst, ih hrows hrowsread,
        List.flatMap_cons, pieces, List.append_assoc]
      rfl

theorem join_pieces (rows : List Row) :
    String.join (rows.flatMap pieces) = String.ofList (text (allLexemes rows)) := by
  induction rows with
  | nil => rfl
  | cons row rows ih =>
      simp [String.join_append, ih, pieces, lexemes, Phrase.join_pieces, String.join_cons]

end Row

namespace Script

theorem percentSign_eq (present : Bool) :
    percentSign present = String.ofList (text (sign present)) := by
  cases present <;> rfl

/-- What is written of the last row of a script: nothing when it shows nothing. -/
def keptLast (s : Script) : List Phrase :=
  if (Phrase.line s.lastMark.offset s.last).isBlank then [] else s.last

theorem pieces_last {s : Script} (h : s.IsScript) (hread : s.IsReadable) :
    piecesOfLast ((Phrase.line s.lastMark.offset s.last).unlessBlank.map (Line.map .item)) =
      .ok (s.keptLast.map fun p => String.ofList p.chars) := by
  unfold Line.unlessBlank keptLast
  split
  · rfl
  · exact Phrase.pieces_items h.last.shapes hread.last s.lastMark.offset

theorem source_document {s : Script} (h : s.IsScript) (hread : s.IsReadable) {kind : DocumentKind}
    (hopened : kind.startPercent = s.opened) (hclosed : kind.endPercent = s.closed) :
    (Node.ofDocument (s.document kind)).source = .ok (String.ofList (text (sign s.opened) ++
      text (Row.allLexemes s.rows) ++ text (Phrase.allLexemes s.keptLast) ++
        text (sign s.closed))) := by
  have hpieces : (Node.ofDocument (s.document kind)).pieces =
      .ok (percentSign s.opened :: (s.rows.flatMap Row.pieces ++
        s.keptLast.map (fun p => String.ofList p.chars) ++ [percentSign s.closed])) := by
    have hrows := Row.pieces_lines h.rows hread.rows s.rowsMark.offset
    have hlast := pieces_last h hread
    rw [Node.ofDocument, Document.map, document, Node.pieces, hrows, hlast, hopened, hclosed]
    rfl
  rw [Node.source, hpieces]
  simp only [bind, Except.bind, pure, Except.pure, String.join_cons, String.join_append,
    Row.join_pieces, Phrase.join_pieces, percentSign_eq, String.join_nil, String.append_empty,
    String.ofList_append, String.append_assoc]

end Script

end NcProgram
