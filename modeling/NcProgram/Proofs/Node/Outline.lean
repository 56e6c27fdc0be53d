import NcProgram.Proofs.DigitRun
import NcProgram.Proofs.Node.Preorder
import NcProgram.Proofs.RoundTrip

namespace NcProgram

open Lexeme

/-- The fault of writing a number, by whether it is too long. -/
def longFault? (isTooLong : Bool) : Option Fault :=
  if isTooLong then some .numberTooLong else none

theorem longFault?_or (a b : Bool) : (longFault? a).or (longFault? b) = longFault? (a || b) := by
  cases a <;> rfl

theorem longFault?_eq_some_iff {isTooLong : Bool} {f : Fault} :
    longFault? isTooLong = some f ↔ isTooLong = true ∧ f = .numberTooLong := by
  cases isTooLong <;> simp [longFault?, eq_comm]

/-- The numerator is too long to be written, or the denominator where it is not one. -/
def isTooLongFraction (q : Rat) : Bool :=
  Text.isTooLongToWrite q.num.natAbs || (q.den ≠ 1 && Text.isTooLongToWrite q.den)

def Field.isTooLong (f : Field) : Bool :=
  match f.value with
  | .rational q => isTooLongFraction q
  | _ => false

def Item.isTooLong : Item → Bool
  | field f => f.isTooLong
  | _ => false

def Document.fields (d : Document Item) : List Field :=
  d.allLines.flatMap (·.fields)

theorem fault?_integerText (n : Int) :
    fault? (integerText n) = longFault? (Text.isTooLongToWrite n.natAbs) := by
  unfold integerText longFault?
  split <;> rfl

theorem fault?_rationalText (q : Rat) : fault? (rationalText q) = longFault? (isTooLongFraction q) := by
  have hden : ∀ num, integerText q.num = .ok num →
      fault? (if q.den = 1 then pure num else do
        let den ← integerText q.den
        pure (num ++ "/" ++ den)) = longFault? (q.den ≠ 1 && Text.isTooLongToWrite q.den) := by
    intro num _
    by_cases hone : q.den = 1
    · simp [hone, longFault?]
    · rw [if_neg hone, fault?_bind_of_ok fun _ => rfl, fault?_integerText, Int.natAbs_natCast]
      simp [hone]
  rw [rationalText, fault?_bind hden, fault?_integerText, longFault?_or, isTooLongFraction]

/-- Nothing keeps the item from an outline but a fraction that is too long. -/
def Item.IsOutlined (i : Item) : Prop :=
  fault? i.row = longFault? i.isTooLong

theorem Field.isOutlined_iff {f : Field} :
    (Item.field f).IsOutlined ↔ fault? f.value.text = longFault? f.isTooLong := by
  rw [Item.IsOutlined, Item.row, Field.row, fault?_bind_of_ok fun _ => rfl, Item.isTooLong]

theorem Trivia.isOutlined {t : Trivia} {s : Span} (h : t.span = .ok s) :
    (Item.trivia t).IsOutlined := by
  rw [Item.IsOutlined, Item.row, row, h]
  rfl

theorem Phrase.isOutlined_item {p : Phrase} (hshapes : p.HasShapes) (hread : p.IsReadable) (o : Nat) :
    (p.item o).IsOutlined := by
  cases p with
  | trivia kind chars => exact Trivia.isOutlined (Trivia.span_ofList kind chars o)
  | literal letters chars => exact Field.isOutlined_iff.mpr rfl
  | checksum digits =>
      have hshort := Text.isTooLongToWrite_decimalValue (isRun_of_checksum hshapes).2 hread.shortRuns
      rw [Item.IsOutlined, item, Item.row, Checksum.row, fault?_bind_of_ok fun _ => rfl,
        fault?_integerText, Int.natAbs_natCast, hshort]
      rfl
  | number letters numeral =>
      refine Field.isOutlined_iff.mpr ?_
      cases numeral with
      | whole negative digits =>
          cases negative with
          | true => exact fault?_rationalText _
          | false =>
              have hrun : HasShape .integer digits :=
                Numeral.hasShapes_whole_iff.mp fun l hl => hshapes l (List.mem_cons_of_mem _ hl)
              have hshort := Text.isTooLongToWrite_decimalValue hrun.2 hread.shortRuns
              rw [Numeral.value, Value.text, fault?_integerText, Int.natAbs_natCast, hshort]
              rfl
      | decimal negative digits afterPoint => exact fault?_rationalText _
      | fraction negative afterPoint => exact fault?_rationalText _

/-- Nothing keeps the line from an outline but a field that is too long. -/
structure Line.IsOutlined (l : Line Item) : Prop where
  items : ∀ i ∈ l.items, i.IsOutlined
  fields : l.items.any Item.isTooLong = l.fields.any Field.isTooLong

theorem Line.any_isTooLong_ofItems (items : List Item) (s : Span) :
    items.any Item.isTooLong = (ofItems items s).fields.any Field.isTooLong := by
  rw [ofItems, LineViews.ofItems, List.any_filterMap]
  congr
  funext i
  cases i <;> rfl

theorem Phrase.forall_mem_items {P : Item → Prop} {ps : List Phrase} (h : ∀ p ∈ ps, ∀ o, P (p.item o))
    (o : Nat) : ∀ i ∈ items o ps, P i := by
  induction ps generalizing o with
  | nil => exact nofun
  | cons p ps ih =>
      obtain ⟨hp, hps⟩ := List.forall_mem_cons.mp h
      exact List.forall_mem_cons.mpr ⟨hp o, ih hps (o + p.size)⟩

theorem Phrase.isOutlined_line {ps : List Phrase} (hshapes : ∀ p ∈ ps, p.HasShapes)
    (hread : ∀ p ∈ ps, p.IsReadable) (o : Nat) : (line o ps).IsOutlined :=
  ⟨forall_mem_items (fun p hp => isOutlined_item (hshapes p hp) (hread p hp)) o,
    Line.any_isTooLong_ofItems (items o ps) _⟩

namespace Outlined

def isTooLong : Outlined → Bool
  | item i => i.isTooLong
  | _ => false

/-- Nothing keeps the node from an outline but a fraction that is too long. -/
def IsOutlined (n : Outlined) : Prop :=
  fault? n.row = longFault? n.isTooLong

end Outlined

theorem findSome?_longFault? {α : Type} {g : α → Option Fault} {isTooLong : α → Bool} {xs : List α}
    (h : ∀ x ∈ xs, g x = longFault? (isTooLong x)) :
    xs.findSome? g = longFault? (xs.any isTooLong) := by
  induction xs with
  | nil => rfl
  | cons x xs ih =>
      obtain ⟨hx, hxs⟩ := List.forall_mem_cons.mp h
      rw [List.findSome?_cons, List.any_cons, hx, ih hxs]
      cases isTooLong x <;> rfl

theorem any_flatMap_of_mem {α β : Type} {f : α → List β} {p : β → Bool} {q : α → Bool} {xs : List α}
    (h : ∀ x ∈ xs, (f x).any p = q x) : (xs.flatMap f).any p = xs.any q := by
  induction xs with
  | nil => rfl
  | cons x xs ih =>
      obtain ⟨hx, hxs⟩ := List.forall_mem_cons.mp h
      rw [List.flatMap_cons, List.any_append, List.any_cons, hx, ih hxs]

theorem Parsed.fault?_outline {p : Parsed} (h : ∀ n ∈ p.nodes, n.2.IsOutlined) (indent : String) :
    fault? (p.toNode.outline indent) = longFault? (p.nodes.any fun n => n.2.isTooLong) := by
  rw [Node.outline, fault?_bind_of_ok fun _ => rfl, rows_eq, fault?_mapM]
  refine findSome?_longFault? fun n hn => ?_
  rw [Outlined.indentedRow, fault?_map]
  exact h n hn

namespace Line.IsOutlined

variable {l : Line Item}

theorem nodes (h : l.IsOutlined) (depth : Nat) : ∀ n ∈ l.nodes depth, n.2.IsOutlined :=
  forall_mem_nodes Outlined.IsOutlined rfl h.items depth

theorem any_isTooLong_nodes (h : l.IsOutlined) (depth : Nat) :
    ((l.nodes depth).any fun n => n.2.isTooLong) = l.fields.any Field.isTooLong := by
  rw [Line.nodes, List.any_cons, List.any_map, ← h.fields]
  rfl

end Line.IsOutlined

section

variable {d : Document Item}

theorem Document.isOutlined_nodes
    (hlines : ∀ p ∈ d.lines, p.1.IsOutlined ∧ (Item.trivia p.2).IsOutlined)
    (hlast : ∀ l ∈ d.lastLine, l.IsOutlined) : ∀ n ∈ d.nodes, n.2.IsOutlined :=
  forall_mem_nodes Outlined.IsOutlined rfl (fun p hp => ⟨(hlines p hp).1.nodes 1, (hlines p hp).2⟩)
    fun l hl => (hlast l hl).nodes 1

theorem Document.any_isTooLong_nodes
    (hlines : ∀ p ∈ d.lines, p.1.IsOutlined ∧ (Item.trivia p.2).IsOutlined)
    (hlast : ∀ l ∈ d.lastLine, l.IsOutlined) :
    (d.nodes.any fun n => n.2.isTooLong) = d.fields.any Field.isTooLong := by
  have hpair : ∀ p ∈ d.lines, ((p.1.nodes 1 ++ [(1, Outlined.item (.trivia p.2))]).any
      fun n => n.2.isTooLong) = p.1.fields.any Field.isTooLong := by
    intro p hp
    rw [List.any_append, (hlines p hp).1.any_isTooLong_nodes]
    exact Bool.or_false _
  have hline : ∀ l ∈ d.lastLine.toList,
      ((l.nodes 1).any fun n => n.2.isTooLong) = l.fields.any Field.isTooLong :=
    fun l hl => (hlast l (Option.mem_toList.mp hl)).any_isTooLong_nodes 1
  rw [nodes, List.any_cons, List.any_append, any_flatMap_of_mem hpair, any_flatMap_of_mem hline,
    fields, List.any_flatMap, allLines, List.any_append, List.any_map]
  exact Bool.false_or _

theorem Document.fault?_outline
    (hlines : ∀ p ∈ d.lines, p.1.IsOutlined ∧ (Item.trivia p.2).IsOutlined)
    (hlast : ∀ l ∈ d.lastLine, l.IsOutlined) (indent : String) :
    fault? ((Node.ofDocument d).outline indent) = longFault? (d.fields.any Field.isTooLong) := by
  rw [← any_isTooLong_nodes hlines hlast]
  exact (Parsed.document d).fault?_outline (isOutlined_nodes hlines hlast) indent

end

theorem Script.isOutlined_lines {s : Script} (h : s.IsScript) (hread : s.IsReadable)
    (kind : DocumentKind) :
    (∀ p ∈ (s.document kind).lines, p.1.IsOutlined ∧ (Item.trivia p.2).IsOutlined) ∧
      ∀ l ∈ (s.document kind).lastLine, l.IsOutlined := by
  have hsource : (String.ofList s.chars).toList = s.chars := String.toList_ofList
  constructor
  · intro p hp
    obtain ⟨row, hrow, before, -, -, rfl⟩ := exists_of_mem_lines hsource p hp
    exact ⟨Phrase.isOutlined_line (h.rows row hrow).line.shapes (hread.rows row hrow) _,
      Trivia.isOutlined (Trivia.span_ofList _ _ _)⟩
  · intro l hl
    obtain rfl := Line.eq_of_mem_unlessBlank hl
    exact Phrase.isOutlined_line h.last.shapes hread.last _

/-- A document that was read has no outline exactly when one of its fields is a fraction that is too
long. -/
theorem Script.fault?_outline {s : Script} (h : s.IsScript) (hread : s.IsReadable)
    (kind : DocumentKind) (indent : String) :
    fault? ((Node.ofDocument (s.document kind)).outline indent) =
      longFault? ((s.document kind).fields.any Field.isTooLong) :=
  have hlines := isOutlined_lines h hread kind
  Document.fault?_outline hlines.1 hlines.2 indent

end NcProgram
