import NcProgram.Proofs.Grammar
import NcProgram.Proofs.Script.Source

namespace NcProgram

open Computability Lexeme

namespace Grammar

theorem mem_kstar_iff {α : Type} {f : α → List Char} {P : α → Prop} {L : Language Char}
    (h : ∀ {cs}, cs ∈ L ↔ ∃ a, P a ∧ f a = cs) {cs : List Char} :
    cs ∈ L∗ ↔ ∃ as : List α, (∀ a ∈ as, P a) ∧ as.flatMap f = cs := by
  rw [Language.mem_kstar]
  constructor
  · rintro ⟨words, rfl, hwords⟩
    obtain ⟨as, has, rfl⟩ := exists_map_eq fun w hw => h.mp (hwords w hw)
    exact ⟨as, has, (List.flatMap_def ..)⟩
  · rintro ⟨as, has, rfl⟩
    refine ⟨as.map f, List.flatMap_def .., ?_⟩
    intro w hw
    obtain ⟨a, ha, rfl⟩ := List.mem_map.mp hw
    exact h.mpr ⟨a, has a ha, rfl⟩

def IsSound (p : Phrase) : Prop :=
  p.HasShapes ∧ p.IsReadable

theorem mem_filler_iff {cs : List Char} :
    cs ∈ filler ↔ ∃ p : Phrase, (p.part.IsFiller ∧ IsSound p) ∧ p.chars = cs := by
  have hblank : cs ∈ words (.trivia .whitespace) ↔ _ := mem_words_iff
  have hinline : cs ∈ words (.trivia .inlineComment) ↔ _ := mem_words_iff
  constructor
  · rintro (hcs | hcs)
    · obtain ⟨p, ⟨hpart, hsound⟩, rfl⟩ := hblank.mp hcs
      exact ⟨p, ⟨.inl hpart, hsound⟩, rfl⟩
    · obtain ⟨p, ⟨hpart, hsound⟩, rfl⟩ := hinline.mp hcs
      exact ⟨p, ⟨.inr hpart, hsound⟩, rfl⟩
  · rintro ⟨p, ⟨hpart | hpart, hsound⟩, rfl⟩
    · exact .inl (hblank.mpr ⟨p, ⟨hpart, hsound⟩, rfl⟩)
    · exact .inr (hinline.mpr ⟨p, ⟨hpart, hsound⟩, rfl⟩)

theorem mem_front_iff {cs : List Char} : cs ∈ filler + field ↔
    ∃ p : Phrase, ((p.part = .field ∨ p.part.IsFiller) ∧ IsSound p) ∧ p.chars = cs := by
  rw [Language.mem_add, mem_filler_iff, mem_field_iff]
  constructor
  · rintro (⟨p, ⟨hpart, hsound⟩, hp⟩ | ⟨p, ⟨hpart, hsound⟩, hp⟩)
    · exact ⟨p, ⟨.inr hpart, hsound⟩, hp⟩
    · exact ⟨p, ⟨.inl hpart, hsound⟩, hp⟩
  · rintro ⟨p, ⟨hpart | hpart, hsound⟩, hp⟩
    · exact .inr ⟨p, ⟨hpart, hsound⟩, hp⟩
    · exact .inl ⟨p, ⟨hpart, hsound⟩, hp⟩

theorem mem_optional_comment_iff {cs : List Char} : cs ∈ optional comment ↔
    ∃ ps : List Phrase, (ps.map Phrase.part = [] ∨ ps.map Phrase.part = [.trivia .comment]) ∧
      (∀ p ∈ ps, IsSound p) ∧ ps.flatMap Phrase.chars = cs := by
  have hcomment : cs ∈ words (.trivia .comment) ↔ _ := mem_words_iff
  rw [mem_optional_iff]
  constructor
  · rintro (rfl | hcs)
    · exact ⟨[], .inl rfl, by simp, rfl⟩
    · obtain ⟨p, ⟨hpart, hsound⟩, rfl⟩ := hcomment.mp hcs
      exact ⟨[p], .inr (by simp [hpart]), List.forall_mem_singleton.mpr hsound, by simp⟩
  · rintro ⟨ps, hnil | hone, hsound, rfl⟩
    · rw [List.map_eq_nil_iff.mp hnil]
      exact .inl rfl
    · obtain ⟨p, rfl, hpart⟩ := List.map_eq_singleton_iff.mp hone
      refine .inr (hcomment.mpr ⟨p, ⟨hpart, hsound p (by simp)⟩, by simp⟩)

theorem mem_back_iff {cs : List Char} : cs ∈ optional (checksum * filler∗) ↔
    ∃ ps : List Phrase, (ps.map Phrase.part = [] ∨ ∃ behind, ps.map Phrase.part =
      .checksum :: behind ∧ ∀ a ∈ behind, a.IsFiller) ∧
      (∀ p ∈ ps, IsSound p) ∧ ps.flatMap Phrase.chars = cs := by
  rw [mem_optional_iff]
  constructor
  · rintro (rfl | hcs)
    · exact ⟨[], .inl rfl, by simp, rfl⟩
    · obtain ⟨_, hsum, _, hbehind, rfl⟩ := Language.mem_mul.mp hcs
      obtain ⟨p, ⟨hpart, hsound⟩, rfl⟩ := mem_checksum_iff.mp hsum
      obtain ⟨ps, hps, rfl⟩ := (mem_kstar_iff mem_filler_iff).mp hbehind
      refine ⟨p :: ps, .inr ⟨ps.map Phrase.part, by simp [hpart], ?_⟩, ?_, by simp⟩
      · simpa using fun q hq => (hps q hq).1
      · exact List.forall_mem_cons.mpr ⟨hsound, fun q hq => (hps q hq).2⟩
  · rintro ⟨ps, hnil | ⟨behind, heq, hbehind⟩, hsound, rfl⟩
    · rw [List.map_eq_nil_iff.mp hnil]
      exact .inl rfl
    · obtain ⟨p, ps, rfl, hpart, rfl⟩ := List.map_eq_cons_iff.mp heq
      obtain ⟨hp, hps⟩ := List.forall_mem_cons.mp hsound
      rw [List.flatMap_cons]
      refine .inr (Language.append_mem_mul (mem_checksum_iff.mpr ⟨p, ⟨hpart, hp⟩, rfl⟩) ?_)
      refine (mem_kstar_iff mem_filler_iff).mpr ⟨ps, fun q hq => ⟨?_, hps q hq⟩, rfl⟩
      exact hbehind _ (List.mem_map_of_mem hq)

theorem mem_line_iff {cs : List Char} : cs ∈ line ↔
    ∃ ps : List Phrase, Part.AreArranged (ps.map Phrase.part) ∧ (∀ p ∈ ps, IsSound p) ∧
      ps.flatMap Phrase.chars = cs := by
  constructor
  · intro hcs
    obtain ⟨_, hinit, _, hcs₃, rfl⟩ := Language.mem_mul.mp hcs
    obtain ⟨_, hcs₁, _, hcs₂, rfl⟩ := Language.mem_mul.mp hinit
    obtain ⟨front, hfront, rfl⟩ := (mem_kstar_iff mem_front_iff).mp hcs₁
    obtain ⟨back, hback, hbackSound, rfl⟩ := mem_back_iff.mp hcs₂
    obtain ⟨last, hlast, hlastSound, rfl⟩ := mem_optional_comment_iff.mp hcs₃
    refine ⟨front ++ back ++ last, ?_, ?_, by simp⟩
    · refine ⟨front.map Phrase.part, _, _, by rw [List.map_append, List.map_append], ?_, hback, hlast⟩
      simpa using fun p hp => (hfront p hp).1
    · simp only [List.forall_mem_append]
      exact ⟨⟨fun p hp => (hfront p hp).2, hbackSound⟩, hlastSound⟩
  · rintro ⟨ps, ⟨front, back, last, heq, hfront, hback, hlast⟩, hsound, rfl⟩
    obtain ⟨init, ps₃, rfl, hinit, rfl⟩ := List.map_eq_append_iff.mp heq
    obtain ⟨ps₁, ps₂, rfl, rfl, rfl⟩ := List.map_eq_append_iff.mp hinit
    simp only [List.forall_mem_append] at hsound
    obtain ⟨⟨hsound₁, hsound₂⟩, hsound₃⟩ := hsound
    rw [List.flatMap_append, List.flatMap_append]
    refine Language.append_mem_mul (Language.append_mem_mul ?_ ?_) ?_
    · refine (mem_kstar_iff mem_front_iff).mpr ⟨ps₁, fun p hp => ⟨?_, hsound₁ p hp⟩, rfl⟩
      exact hfront _ (List.mem_map_of_mem hp)
    · exact mem_back_iff.mpr ⟨ps₂, hback, hsound₂, rfl⟩
    · exact mem_optional_comment_iff.mpr ⟨ps₃, hlast, hsound₃, rfl⟩

/-- A phrase in front of others; two blanks become one. -/
def merge : Phrase → List Phrase → List Phrase
  | .trivia .whitespace cs, .trivia .whitespace ds :: ps => .trivia .whitespace (cs ++ ds) :: ps
  | p, ps => p :: ps

theorem merge_cases (p : Phrase) (ps : List Phrase) :
    (∃ cs ds qs, p = .trivia .whitespace cs ∧ ps = .trivia .whitespace ds :: qs ∧
      merge p ps = .trivia .whitespace (cs ++ ds) :: qs) ∨
    merge p ps = p :: ps ∧ ∀ a ∈ (ps.map Phrase.part).head?, Part.NotBlanks p.part a := by
  unfold merge
  split
  next cs ds qs => exact .inl ⟨cs, ds, qs, rfl, rfl, rfl⟩
  next hne =>
    refine .inr ⟨rfl, ?_⟩
    rintro a ha ⟨hp, rfl⟩
    cases ps with
    | nil => simp at ha
    | cons q qs =>
        have hq : q.part = .trivia .whitespace := by simpa using ha
        cases p with
        | trivia kind cs =>
            cases hp
            cases q with
            | trivia kind ds =>
                cases hq
                exact hne cs ds qs rfl rfl
            | number ls n => cases hq
            | literal ls chars => cases hq
            | checksum ds => cases hq
        | number ls n => cases hp
        | literal ls chars => cases hp
        | checksum ds => cases hp

theorem chars_blank (cs : List Char) : (Phrase.trivia .whitespace cs).chars = cs := by
  simp [Phrase.chars, Phrase.lexemes]

theorem isSound_blank_iff {cs : List Char} :
    IsSound (.trivia .whitespace cs) ↔ IsRun isSpace cs := by
  constructor
  · rintro ⟨hshapes, -⟩
    exact hshapes ⟨.whitespace, cs⟩ (by simp [Phrase.lexemes, TriviaKind.tokenKind])
  · intro hrun
    refine ⟨?_, trivial, trivial⟩
    intro l hl
    obtain rfl := List.mem_singleton.mp hl
    exact hrun

/-- Phrases with no two blanks side by side that have the text of given ones. -/
structure IsMerged (ps qs : List Phrase) : Prop where
  sound : ∀ q ∈ qs, IsSound q
  chars : qs.flatMap Phrase.chars = ps.flatMap Phrase.chars
  apart : (qs.map Phrase.part).IsChain Part.NotBlanks
  behind : Part.AreBehind (ps.map Phrase.part) → Part.AreBehind (qs.map Phrase.part)
  arranged : Part.AreArranged (ps.map Phrase.part) → Part.AreArranged (qs.map Phrase.part)
  nil : ps = [] → qs = []

theorem IsMerged.merge {p : Phrase} (hp : IsSound p) {ps qs : List Phrase} (h : IsMerged ps qs) :
    IsMerged (p :: ps) (merge p qs) := by
  obtain ⟨hsound, hchars, hapart, hbehind, harranged, hnil⟩ := h
  obtain ⟨cs, ds, rest, rfl, rfl, heq⟩ | ⟨heq, hhead⟩ := merge_cases p qs
  · obtain ⟨hds, hrest⟩ := List.forall_mem_cons.mp hsound
    obtain ⟨hcsne, hcs⟩ := isSound_blank_iff.mp hp
    obtain ⟨-, hds⟩ := isSound_blank_iff.mp hds
    have hrun : IsRun isSpace (cs ++ ds) :=
      ⟨by simp [hcsne], List.forall_mem_append.mpr ⟨hcs, hds⟩⟩
    rw [heq]
    refine ⟨List.forall_mem_cons.mpr ⟨isSound_blank_iff.mpr hrun, hrest⟩, ?_, hapart, ?_, ?_, ?_⟩
    · simp only [List.flatMap_cons, chars_blank] at hchars ⊢
      rw [← hchars, List.append_assoc]
    · intro h
      rcases Part.areBehind_cons_iff.mp h with ⟨-, h⟩ | ⟨hcomment, -⟩
      · exact hbehind h
      · cases hcomment
    · intro h
      rcases Part.areArranged_cons_iff.mp h with ⟨-, h⟩ | ⟨hchecksum, -⟩ | ⟨hcomment, -⟩
      · exact harranged h
      · cases hchecksum
      · cases hcomment
    · intro h
      cases h
  · rw [heq]
    refine ⟨List.forall_mem_cons.mpr ⟨hp, hsound⟩, ?_, List.isChain_cons.mpr ⟨hhead, hapart⟩, ?_,
      ?_, ?_⟩
    · rw [List.flatMap_cons, List.flatMap_cons, hchars]
    · intro h
      refine Part.areBehind_cons_iff.mpr ((Part.areBehind_cons_iff.mp h).imp ?_ ?_)
      · exact fun h => ⟨h.1, hbehind h.2⟩
      · exact fun h => ⟨h.1, by rw [hnil (List.map_eq_nil_iff.mp h.2), List.map_nil]⟩
    · intro h
      refine Part.areArranged_cons_iff.mpr ((Part.areArranged_cons_iff.mp h).imp ?_ (Or.imp ?_ ?_))
      · exact fun h => ⟨h.1, harranged h.2⟩
      · exact fun h => ⟨h.1, hbehind h.2⟩
      · exact fun h => ⟨h.1, by rw [hnil (List.map_eq_nil_iff.mp h.2), List.map_nil]⟩
    · intro h
      cases h

theorem exists_isMerged {ps : List Phrase} (h : ∀ p ∈ ps, IsSound p) : ∃ qs, IsMerged ps qs := by
  induction ps with
  | nil => exact ⟨[], by simp, rfl, by simp, id, id, id⟩
  | cons p ps ih =>
      obtain ⟨hp, hps⟩ := List.forall_mem_cons.mp h
      obtain ⟨qs, hqs⟩ := ih hps
      exact ⟨merge p qs, hqs.merge hp⟩

/-- The words of the grammar for lines are the texts of phrases that can be read as a line. -/
theorem mem_line_iff_exists_isLine {cs : List Char} : cs ∈ line ↔ ∃ ps : List Phrase,
    Phrase.IsLine ps ∧ (∀ p ∈ ps, p.IsReadable) ∧ cs = text (Phrase.allLexemes ps) := by
  rw [mem_line_iff]
  constructor
  · rintro ⟨ps, harranged, hsound, rfl⟩
    obtain ⟨qs, hqs⟩ := exists_isMerged hsound
    refine ⟨qs, ?_, fun q hq => (hqs.sound q hq).2, ?_⟩
    · exact Phrase.isLine_iff.mpr ⟨fun q hq => (hqs.sound q hq).1, hqs.arranged harranged, hqs.apart⟩
    · rw [Phrase.text_allLexemes, hqs.chars]
  · rintro ⟨ps, hline, hread, rfl⟩
    obtain ⟨hshapes, harranged, -⟩ := Phrase.isLine_iff.mp hline
    exact ⟨ps, harranged, fun p hp => ⟨hshapes p hp, hread p hp⟩, (Phrase.text_allLexemes ps).symm⟩

end Grammar

end NcProgram
