import NcProgram.Proofs.Lexeme.Place
import NcProgram.Proofs.Node.Views

namespace NcProgram

/-- The items that nothing trails a line in front of. -/
def Item.marks : List Part :=
  [.field, .checksum, .trivia .comment]

theorem Item.isSignificant_eq_false_iff {i : Item} :
    i.isSignificant = false ↔ i.part ∉ marks := by
  cases i with
  | field f => simp [isSignificant, part, marks]
  | checksum c => simp [isSignificant, part, marks]
  | trivia t => simp [isSignificant, part, marks]

/-- The tail is the longest end of the items that holds no field, checksum or comment. -/
structure IsTrail (items head tail : List Item) : Prop where
  append : items = head ++ tail
  plain : ∀ i ∈ tail, i.part ∉ Item.marks
  longest : ∀ head' tail', items = head' ++ tail' → (∀ i ∈ tail', i.part ∉ Item.marks) →
    tail'.length ≤ tail.length

namespace LineViews

theorem trailing_eq_rtakeWhile (items : List Item) :
    trailing items = items.rtakeWhile (!·.isSignificant) := rfl

theorem exists_isTrail (items : List Item) : ∃ head, IsTrail items head (trailing items) := by
  have hsuffix : trailing items <:+ items := List.rtakeWhile_suffix _ items
  obtain ⟨head, hhead⟩ := hsuffix
  refine ⟨head, hhead.symm, fun i hi => ?_, fun head' tail' hitems htail => ?_⟩
  · have hplain := List.mem_rtakeWhile_imp hi
    rw [Bool.not_eq_true'] at hplain
    exact Item.isSignificant_eq_false_iff.mp hplain
  · have hplain : ∀ i ∈ tail', (!i.isSignificant) = true := by
      intro i hi
      rw [Bool.not_eq_true', Item.isSignificant_eq_false_iff]
      exact htail i hi
    rw [trailing_eq_rtakeWhile, hitems, rtakeWhile_append_of_pos hplain, List.length_append]
    exact Nat.le_add_left _ _

theorem map_field?_eq_guard :
    (fun i : Item => i.field?.map .field) = Option.guard fun i => i.part = .field := by
  funext i
  cases i with
  | field f => rfl
  | checksum c => rfl
  | trivia t => rfl

theorem map_trivia?_eq_guard (kind : TriviaKind) :
    (fun i : Item => (i.trivia? kind).map .trivia) =
      Option.guard fun i => i.part = .trivia kind := by
  funext i
  cases i with
  | field f => rfl
  | checksum c => rfl
  | trivia t =>
      by_cases hkind : t.kind = kind
      · simp [Item.trivia?, Item.part, Option.guard, hkind]
      · simp [Item.trivia?, Item.part, Option.guard, hkind]

theorem map_fields_ofItems (items : List Item) :
    (ofItems items).fields.map .field = items.filter fun i => i.part = .field := by
  rw [ofItems, List.map_filterMap, map_field?_eq_guard, List.filterMap_eq_filter]

theorem map_whitespace_ofItems (items : List Item) : (ofItems items).whitespace.map .trivia =
    (trailing items).find? fun i => i.part = .trivia .whitespace := by
  have hguard := map_trivia?_eq_guard .whitespace
  rw [ofItems, trailingWhitespace, List.map_findSome?, ← List.findSome?_guard, ← hguard]
  rfl

theorem map_inlineComments_ofItems (items : List Item) :
    (ofItems items).inlineComments.map .trivia =
      (trailing items).filter fun i => i.part = .trivia .inlineComment := by
  rw [ofItems, trailingInlineComments, List.map_filterMap, map_trivia?_eq_guard,
    List.filterMap_eq_filter]

end LineViews

/-- What a line shows of its items. -/
structure Line.IsFaithful (items : List Item) (l : Line Item) : Prop where
  whole : l.items = items
  fields : l.fields.map .field = items.filter fun i => i.part = .field
  trail : ∃ head tail, IsTrail items head tail ∧
    l.whitespace.map .trivia = tail.find? (fun i => i.part = .trivia .whitespace) ∧
    l.inlineComments.map .trivia = tail.filter fun i => i.part = .trivia .inlineComment
  blank : l.isBlank = true ↔ ∀ i ∈ items, i.part = .trivia .whitespace
  kept : (∃ i ∈ items, i.part ≠ .trivia .whitespace) → l.unlessBlank = some l

/-- A line shows its items faithfully, in whatever order they come; line ends are no items of a
line. -/
theorem Line.ofItems_isFaithful {items : List Item} (h : ∀ i ∈ items, i.part ≠ .trivia .newline)
    (span : Span) : IsFaithful items (ofItems items span) := by
  obtain ⟨head, htrail⟩ := LineViews.exists_isTrail items
  have hblank : (ofItems items span).isBlank = true ↔
      ∀ i ∈ items, i.part = .trivia .whitespace := by
    refine LineViews.isBlank_ofItems_iff.trans ⟨fun hall i hi => ?_, fun hall i hi => ?_⟩
    · exact (hall i hi).resolve_right (h i hi)
    · exact .inl (hall i hi)
  refine ⟨rfl, LineViews.map_fields_ofItems items, ⟨head, _, htrail, ?_, ?_⟩, hblank, ?_⟩
  · exact LineViews.map_whitespace_ofItems items
  · exact LineViews.map_inlineComments_ofItems items
  · rintro ⟨i, hi, hpart⟩
    exact if_neg fun hall => hpart (hblank.mp hall i hi)

theorem Line.ofItems_isFaithful_behind_comment :
    let items : List Item := [.trivia ⟨.inlineComment, "(a)", 0⟩, .checksum ⟨3, .ofSize 3 2⟩,
      .trivia ⟨.comment, ";b", 5⟩, .trivia ⟨.whitespace, " ", 7⟩,
      .trivia ⟨.inlineComment, "(c)", 8⟩, .trivia ⟨.whitespace, "  ", 11⟩]
    (∀ i ∈ items, i.part ≠ .trivia .newline) ∧ IsFaithful items (ofItems items (.ofSize 0 13)) := by
  intro items
  have hitems : ∀ i ∈ items, i.part ≠ .trivia .newline := by decide
  exact ⟨hitems, ofItems_isFaithful hitems _⟩

end NcProgram
