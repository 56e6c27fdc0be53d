import NcProgram.Proofs.Phrase.Line

namespace NcProgram

/-- What an item counts as in the order of its line. -/
def Item.part : Item → Part
  | field _ => .field
  | checksum _ => .checksum
  | trivia t => .trivia t.kind

namespace LineViews

def parts (v : LineViews) : List Item :=
  v.fields.map .field ++ v.checksum.toList.map .checksum ++ v.comment.toList.map .trivia ++
    v.whitespace.toList.map .trivia ++ v.inlineComments.map .trivia

theorem mem_of_field? {i : Item} {f : Field} (h : i.field? = some f) : i = .field f := by
  cases i <;> simp_all [Item.field?]

theorem mem_of_checksum? {i : Item} {c : Checksum} (h : i.checksum? = some c) :
    i = .checksum c := by
  cases i <;> simp_all [Item.checksum?]

theorem mem_of_trivia? {kind : TriviaKind} {i : Item} {t : Trivia}
    (h : i.trivia? kind = some t) : i = .trivia t := by
  cases i <;> simp_all [Item.trivia?]

theorem mem_of_mem_trailing {items : List Item} {i : Item} (h : i ∈ trailing items) : i ∈ items := by
  rw [trailing, List.mem_reverse] at h
  exact List.mem_reverse.mp ((List.takeWhile_sublist _).mem h)

theorem mem_of_mem_parts {items : List Item} {i : Item} (h : i ∈ (ofItems items).parts) :
    i ∈ items := by
  simp only [parts, ofItems, List.mem_append, List.mem_map, List.mem_filterMap, Option.mem_toList,
    trailingWhitespace, trailingInlineComments] at h
  rcases h with (((⟨f, ⟨j, hj, hf⟩, rfl⟩ | ⟨c, hc, rfl⟩) | ⟨t, ht, rfl⟩) | ⟨t, ht, rfl⟩) |
    ⟨t, ⟨j, hj, ht⟩, rfl⟩
  · exact mem_of_field? hf ▸ hj
  · obtain ⟨j, hj, hc⟩ := List.exists_of_findSome?_eq_some hc
    exact mem_of_checksum? hc ▸ hj
  · obtain ⟨j, hj, ht⟩ := List.exists_of_findSome?_eq_some ht
    exact mem_of_trivia? ht ▸ hj
  · obtain ⟨j, hj, ht⟩ := List.exists_of_findSome?_eq_some ht
    exact mem_of_trivia? ht ▸ mem_of_mem_trailing hj
  · exact mem_of_trivia? ht ▸ mem_of_mem_trailing hj

theorem trailing_eq_self {items : List Item} (h : ∀ i ∈ items, i.isSignificant = false) :
    trailing items = items := by
  have hall : ∀ i ∈ items.reverse, (!i.isSignificant) = true := by simpa using h
  rw [trailing, List.takeWhile_eq_self_iff.mpr hall, List.reverse_reverse]

theorem isBlank_ofItems_iff {items : List Item} : (ofItems items).isBlank = true ↔
    ∀ i ∈ items, i.part = .trivia .whitespace ∨ i.part = .trivia .newline := by
  simp only [isBlank, ofItems, Bool.and_eq_true, List.isEmpty_iff, Option.isNone_iff_eq_none,
    List.filterMap_eq_nil_iff, List.findSome?_eq_none_iff, trailingInlineComments]
  constructor
  · rintro ⟨⟨⟨hfields, hchecksum⟩, hcomment⟩, hinline⟩
    have hplain : ∀ i ∈ items, i.isSignificant = false := by
      intro i hi
      cases i with
      | field f => simpa [Item.field?] using hfields _ hi
      | checksum c => simpa [Item.checksum?] using hchecksum _ hi
      | trivia t => simpa [Item.trivia?, Item.isSignificant] using hcomment _ hi
    rw [trailing_eq_self hplain] at hinline
    intro i hi
    have hi' := hplain i hi
    cases i with
    | field f => simp [Item.isSignificant] at hi'
    | checksum c => simp [Item.isSignificant] at hi'
    | trivia t =>
        have ht := hinline _ hi
        obtain ⟨kind, text, position⟩ := t
        cases kind <;> simp_all [Item.trivia?, Item.isSignificant, Item.part]
  · intro h
    have hnone : ∀ i ∈ items, i.field? = none ∧ i.checksum? = none ∧
        i.trivia? .comment = none ∧ i.trivia? .inlineComment = none := by
      intro i hi
      have hi := h i hi
      cases i with
      | field f => simp [Item.part] at hi
      | checksum c => simp [Item.part] at hi
      | trivia t => rcases hi with hi | hi <;> simp_all [Item.part, Item.field?, Item.checksum?,
          Item.trivia?]
    exact ⟨⟨⟨fun i hi => (hnone i hi).1, fun i hi => (hnone i hi).2.1⟩,
      fun i hi => (hnone i hi).2.2.1⟩, fun i hi => (hnone i (mem_of_mem_trailing hi)).2.2.2⟩

end LineViews

theorem Line.eq_of_mem_unlessBlank {ι : Type} {l m : Line ι} (h : m ∈ l.unlessBlank) : m = l := by
  unfold unlessBlank at h
  split at h
  · cases h
  · exact (Option.some.inj h).symm

namespace Phrase

open Lexeme

theorem part_item (o : Nat) (p : Phrase) : (p.item o).part = p.part := by
  cases p <;> rfl

theorem map_part_items (o : Nat) (ps : List Phrase) :
    (items o ps).map Item.part = ps.map part := by
  induction ps generalizing o with
  | nil => rfl
  | cons p ps ih => simp [part_item, ih]

theorem isBlank_line_iff {ps : List Phrase} (h : IsLine ps) (o : Nat) :
    (line o ps).isBlank = true ↔ ∀ p ∈ ps, p.part = .trivia .whitespace := by
  have hparts (P : Part → Prop) : (∀ i ∈ items o ps, P i.part) ↔ ∀ p ∈ ps, P p.part := by
    rw [← List.forall_mem_map (f := Item.part), map_part_items, List.forall_mem_map]
  have hblank : (line o ps).isBlank = true ↔
      ∀ p ∈ ps, p.part = .trivia .whitespace ∨ p.part = .trivia .newline :=
    LineViews.isBlank_ofItems_iff.trans
      (hparts fun a => a = .trivia .whitespace ∨ a = .trivia .newline)
  refine hblank.trans ⟨fun hall p hp => ?_, fun hall p hp => .inl (hall p hp)⟩
  exact (hall p hp).resolve_right (h.part_ne_newline hp)

theorem isSpace_of_mem {p : Phrase} (h : p.HasShapes) (hpart : p.part = .trivia .whitespace) :
    ∀ c ∈ p.chars, isSpace c = true := by
  cases p with
  | trivia kind chars =>
      cases hpart
      have hshape : IsRun isSpace chars := h ⟨.whitespace, chars⟩ (by simp [lexemes, TriviaKind.tokenKind])
      simpa [Phrase.chars, lexemes] using hshape.2
  | number letters numeral => cases hpart
  | literal letters chars => cases hpart
  | checksum digits => cases hpart

/-- A line shows nothing exactly when its text consists of spaces and tabs. -/
theorem isBlank_line_iff_isSpace {ps : List Phrase} (h : IsLine ps) (o : Nat) :
    (line o ps).isBlank = true ↔ (text (allLexemes ps)).all isSpace = true := by
  rw [isBlank_line_iff h, List.all_eq_true]
  constructor
  · intro hparts c hc
    obtain ⟨l, hl, hc⟩ := List.mem_flatMap.mp hc
    obtain ⟨p, hp, hl⟩ := List.mem_flatMap.mp hl
    exact isSpace_of_mem (h.shapes p hp) (hparts p hp) c (List.mem_flatMap.mpr ⟨l, hl, hc⟩)
  · intro hspace p hp
    obtain ⟨l, ls, hl, -, hblank⟩ := exists_lexemes_eq_cons p
    have hmem : l ∈ allLexemes ps := List.mem_flatMap.mpr ⟨p, hp, by simp [hl]⟩
    have hshape := h.isSequence.shapes l hmem
    obtain ⟨c, cs, hchars⟩ := List.exists_cons_of_ne_nil hshape.ne_nil
    have hclass := (class_of_head (hchars ▸ hshape)).2.1
    rw [hspace c (List.mem_flatMap.mpr ⟨l, hmem, by simp [hchars]⟩)] at hclass
    exact hblank.mp (of_decide_eq_true hclass.symm)

end Phrase

end NcProgram
