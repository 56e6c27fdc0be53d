import NcProgram.Proofs.Node.Views

namespace NcProgram

def Span.shift (k : Nat) (s : Span) : Span :=
  ⟨s.start + k, s.stop + k, Nat.add_le_add_right s.start_le_stop k⟩

def Trivia.shift (k : Nat) (t : Trivia) : Trivia :=
  { t with position := t.position + k }

def Field.shift (k : Nat) (f : Field) : Field :=
  { f with span := f.span.shift k }

def Checksum.shift (k : Nat) (c : Checksum) : Checksum :=
  { c with span := c.span.shift k }

def Item.shift (k : Nat) : Item → Item
  | field f => field (f.shift k)
  | checksum c => checksum (c.shift k)
  | trivia t => trivia (t.shift k)

def LineViews.shift (k : Nat) (v : LineViews) : LineViews where
  fields := v.fields.map (Field.shift k)
  checksum := v.checksum.map (Checksum.shift k)
  comment := v.comment.map (Trivia.shift k)
  whitespace := v.whitespace.map (Trivia.shift k)
  inlineComments := v.inlineComments.map (Trivia.shift k)

/-- The line with every offset in it moved. -/
def Line.shift (k : Nat) (l : Line Item) : Line Item :=
  { l.toLineViews.shift k with items := l.items.map (Item.shift k), span := l.span.shift k }

namespace Item

theorem field?_shift (k : Nat) (i : Item) : (i.shift k).field? = i.field?.map (Field.shift k) := by
  cases i <;> rfl

theorem checksum?_shift (k : Nat) (i : Item) :
    (i.shift k).checksum? = i.checksum?.map (Checksum.shift k) := by
  cases i <;> rfl

theorem trivia?_shift (kind : TriviaKind) (k : Nat) (i : Item) :
    (i.shift k).trivia? kind = (i.trivia? kind).map (Trivia.shift k) := by
  cases i with
  | field f => rfl
  | checksum c => rfl
  | trivia t => by_cases h : t.kind = kind <;> simp [shift, trivia?, Trivia.shift, h]

theorem isSignificant_shift (k : Nat) (i : Item) : (i.shift k).isSignificant = i.isSignificant := by
  cases i <;> rfl

end Item

namespace LineViews

theorem filterMap_shift {α : Type} {f : Item → Option α} {g : Item → Item} {g' : α → α}
    (h : ∀ i, f (g i) = (f i).map g') (items : List Item) :
    (items.map g).filterMap f = (items.filterMap f).map g' := by
  rw [List.filterMap_map, List.map_filterMap]
  exact List.filterMap_congr fun i _ => h i

theorem findSome?_shift {α : Type} {f : Item → Option α} {g : Item → Item} {g' : α → α}
    (h : ∀ i, f (g i) = (f i).map g') (items : List Item) :
    (items.map g).findSome? f = (items.findSome? f).map g' := by
  induction items with
  | nil => rfl
  | cons i items ih =>
      rw [List.map_cons, List.findSome?_cons, List.findSome?_cons, h, ih]
      cases f i <;> rfl

theorem trailing_shift (k : Nat) (items : List Item) :
    trailing (items.map (Item.shift k)) = (trailing items).map (Item.shift k) := by
  have hsame : (fun i => !Item.isSignificant i) ∘ Item.shift k = fun i => !Item.isSignificant i := by
    funext i
    exact congrArg (!·) (i.isSignificant_shift k)
  rw [trailing, trailing, ← List.map_reverse, List.takeWhile_map, hsame, List.map_reverse]

theorem ofItems_shift (k : Nat) (items : List Item) :
    ofItems (items.map (Item.shift k)) = (ofItems items).shift k := by
  simp only [ofItems, shift, trailingWhitespace, trailingInlineComments, trailing_shift,
    filterMap_shift (Item.field?_shift k), findSome?_shift (Item.checksum?_shift k),
    findSome?_shift (Item.trivia?_shift _ k), filterMap_shift (Item.trivia?_shift _ k)]

end LineViews

theorem Line.ofItems_shift (k : Nat) (items : List Item) (s : Span) :
    Line.ofItems (items.map (Item.shift k)) (s.shift k) = (Line.ofItems items s).shift k := by
  simp only [Line.ofItems, Line.shift, LineViews.ofItems_shift]

namespace Phrase

theorem ofSize_shift (o k n : Nat) : Span.ofSize (o + k) n = (Span.ofSize o n).shift k := by
  simp only [Span.ofSize, Span.shift, Span.mk.injEq, true_and]
  omega

theorem item_shift (o k : Nat) (p : Phrase) : p.item (o + k) = (p.item o).shift k := by
  cases p with
  | trivia kind chars => simp [item, Item.shift, Trivia.shift]
  | number letters numeral => simp [item, Item.shift, Field.shift, ofSize_shift]
  | literal letters chars => simp [item, Item.shift, Field.shift, ofSize_shift]
  | checksum digits => simp [item, Item.shift, Checksum.shift, ofSize_shift]

theorem items_shift (o k : Nat) (ps : List Phrase) :
    items (o + k) ps = (items o ps).map (Item.shift k) := by
  induction ps generalizing o with
  | nil => rfl
  | cons p ps ih =>
      rw [items_cons, items_cons, List.map_cons, item_shift, Nat.add_right_comm, ih]

theorem line_add (o k : Nat) (ps : List Phrase) : line (o + k) ps = (line o ps).shift k := by
  rw [line, items_shift, ofSize_shift, Line.ofItems_shift, line]

theorem line_shift (k : Nat) (ps : List Phrase) : line k ps = (line 0 ps).shift k := by
  rw [← line_add, Nat.zero_add]

theorem isBlank_line {ps : List Phrase} (h : IsLine ps) (o o' : Nat) :
    (line o ps).isBlank = (line o' ps).isBlank :=
  Bool.eq_iff_iff.mpr ((isBlank_line_iff h o).trans (isBlank_line_iff h o').symm)

end Phrase

end NcProgram
