import NcProgram.Proofs.Phrase.Line

namespace NcProgram

namespace Part

def IsFiller (p : Part) : Prop :=
  p = .trivia .whitespace ∨ p = .trivia .inlineComment

/-- The parts of a line behind its checksum. -/
def AreBehind (ps : List Part) : Prop :=
  ∃ middle last, ps = middle ++ last ∧ (∀ p ∈ middle, p.IsFiller) ∧
    (last = [] ∨ last = [.trivia .comment])

/-- The parts of a line in order. -/
def AreArranged (ps : List Part) : Prop :=
  ∃ front back last, ps = front ++ back ++ last ∧ (∀ p ∈ front, p = .field ∨ p.IsFiller) ∧
    (back = [] ∨ ∃ behind, back = .checksum :: behind ∧ ∀ p ∈ behind, p.IsFiller) ∧
    (last = [] ∨ last = [.trivia .comment])

/-- The two parts are not both blanks. -/
def NotBlanks (p q : Part) : Prop :=
  ¬ (p = .trivia .whitespace ∧ q = .trivia .whitespace)

theorem areBehind_nil : AreBehind [] :=
  ⟨[], [], rfl, by simp, .inl rfl⟩

theorem areBehind_cons_iff {p : Part} {ps : List Part} : AreBehind (p :: ps) ↔
    p.IsFiller ∧ AreBehind ps ∨ p = .trivia .comment ∧ ps = [] := by
  constructor
  · rintro ⟨middle, last, heq, hmiddle, hlast⟩
    cases middle with
    | nil =>
        rcases hlast with rfl | rfl
        · cases heq
        · cases heq
          exact .inr ⟨rfl, rfl⟩
    | cons q middle =>
        cases heq
        obtain ⟨hq, hmiddle⟩ := List.forall_mem_cons.mp hmiddle
        exact .inl ⟨hq, middle, last, rfl, hmiddle, hlast⟩
  · rintro (⟨hp, middle, last, rfl, hmiddle, hlast⟩ | ⟨rfl, rfl⟩)
    · exact ⟨p :: middle, last, rfl, List.forall_mem_cons.mpr ⟨hp, hmiddle⟩, hlast⟩
    · exact ⟨[], [.trivia .comment], rfl, by simp, .inr rfl⟩

theorem areArranged_nil : AreArranged [] :=
  ⟨[], [], [], rfl, by simp, .inl rfl, .inl rfl⟩

theorem areArranged_cons_iff {p : Part} {ps : List Part} : AreArranged (p :: ps) ↔
    (p = .field ∨ p.IsFiller) ∧ AreArranged ps ∨ p = .checksum ∧ AreBehind ps ∨
      p = .trivia .comment ∧ ps = [] := by
  constructor
  · rintro ⟨front, back, last, heq, hfront, hback, hlast⟩
    cases front with
    | nil =>
        rcases hback with rfl | ⟨behind, rfl, hbehind⟩
        · rcases hlast with rfl | rfl
          · cases heq
          · cases heq
            exact .inr (.inr ⟨rfl, rfl⟩)
        · cases heq
          exact .inr (.inl ⟨rfl, behind, last, rfl, hbehind, hlast⟩)
    | cons q front =>
        cases heq
        obtain ⟨hq, hfront⟩ := List.forall_mem_cons.mp hfront
        exact .inl ⟨hq, front, back, last, rfl, hfront, hback, hlast⟩
  · rintro (⟨hp, front, back, last, rfl, hfront, hback, hlast⟩ |
      ⟨rfl, behind, last, rfl, hbehind, hlast⟩ | ⟨rfl, rfl⟩)
    · exact ⟨p :: front, back, last, rfl, List.forall_mem_cons.mpr ⟨hp, hfront⟩, hback, hlast⟩
    · exact ⟨[], .checksum :: behind, last, rfl, by simp, .inr ⟨behind, rfl, hbehind⟩, hlast⟩
    · exact ⟨[], [], [.trivia .comment], rfl, by simp, .inl rfl, .inr rfl⟩

/-- The parts may follow in this order and side by side. -/
def MayFollow (s : Parse.Seen) (ps : List Part) : Prop :=
  s.Ordered ps ∧ ps.IsChain Apart

theorem mayFollow_cons_iff {s s' : Parse.Seen} {p : Part} (hallows : s.Allows p)
    (hafter : s.after p = s') (hp : p ≠ .trivia .comment) {ps : List Part} :
    MayFollow s (p :: ps) ↔ (∀ q ∈ ps.head?, NotBlanks p q) ∧ MayFollow s' ps := by
  subst hafter
  simp only [MayFollow, Parse.Seen.Ordered, List.isChain_cons, Apart, NotBlanks]
  constructor
  · rintro ⟨⟨-, hordered⟩, hhead, hchain⟩
    exact ⟨fun q hq => (hhead q hq).2, hordered, hchain⟩
  · rintro ⟨hhead, hordered, hchain⟩
    exact ⟨⟨hallows, hordered⟩, fun q hq => ⟨hp, hhead q hq⟩, hchain⟩

theorem mayFollow_comment_cons_iff {s : Parse.Seen} {ps : List Part} :
    MayFollow s (.trivia .comment :: ps) ↔ ps = [] := by
  cases ps with
  | nil => simp [MayFollow, Parse.Seen.Ordered, Parse.Seen.Allows]
  | cons p ps => simp [MayFollow, List.isChain_cons_cons, Apart]

theorem IsFiller.ne_comment {p : Part} (h : p.IsFiller) : p ≠ .trivia .comment := by
  rcases h with rfl | rfl <;> decide

theorem IsFiller.mayFollow_cons_iff {p : Part} (h : p.IsFiller) {s : Parse.Seen} {ps : List Part} :
    MayFollow s (p :: ps) ↔ (∀ q ∈ ps.head?, NotBlanks p q) ∧ MayFollow s ps := by
  refine Part.mayFollow_cons_iff ?_ ?_ h.ne_comment
  · rcases h with rfl | rfl <;> exact TriviaKind.noConfusion
  · rcases h with rfl | rfl <;> rfl

theorem mayFollow_behind_iff {ps : List Part} :
    MayFollow ⟨true, false⟩ ps ↔ AreBehind ps ∧ ps.IsChain NotBlanks := by
  induction ps with
  | nil => simp [MayFollow, Parse.Seen.Ordered, areBehind_nil]
  | cons p ps ih =>
      rw [areBehind_cons_iff, List.isChain_cons]
      by_cases hfiller : p.IsFiller
      · rw [hfiller.mayFollow_cons_iff, ih]
        have hne := hfiller.ne_comment
        tauto
      · by_cases hcomment : p = .trivia .comment
        · subst hcomment
          rw [mayFollow_comment_cons_iff]
          constructor
          · rintro rfl
            simp
          · rintro ⟨hbehind | hbehind, -⟩
            · exact absurd hbehind.1 hfiller
            · exact hbehind.2
        · simp only [hfiller, hcomment, false_and, or_false, iff_false]
          rintro ⟨⟨hallows, -⟩, -⟩
          rcases p with kind | _ | _
          · cases kind <;> simp_all [IsFiller, Parse.Seen.Allows]
          · exact absurd hallows.1 (by decide)
          · exact absurd hallows.1 (by decide)

/-- Parts are in order and may stand side by side exactly when they are arranged as a line and no two
blanks follow each other. -/
theorem mayFollow_none_iff {ps : List Part} :
    MayFollow .none ps ↔ AreArranged ps ∧ ps.IsChain NotBlanks := by
  induction ps with
  | nil => simp [MayFollow, Parse.Seen.Ordered, areArranged_nil]
  | cons p ps ih =>
      rw [areArranged_cons_iff, List.isChain_cons]
      by_cases hfiller : p.IsFiller
      · rw [hfiller.mayFollow_cons_iff, ih]
        have hne := hfiller.ne_comment
        have hchecksum : p ≠ .checksum := by rcases hfiller with rfl | rfl <;> decide
        tauto
      · cases p with
        | field =>
            have hstep : MayFollow .none (.field :: ps) ↔
                (∀ q ∈ ps.head?, NotBlanks .field q) ∧ MayFollow .none ps :=
              mayFollow_cons_iff (by decide) rfl (by decide)
            rw [hstep, ih]
            simp [NotBlanks]
        | checksum =>
            have hstep : MayFollow .none (.checksum :: ps) ↔
                (∀ q ∈ ps.head?, NotBlanks .checksum q) ∧ MayFollow ⟨true, false⟩ ps :=
              mayFollow_cons_iff (by decide) rfl (by decide)
            rw [hstep, mayFollow_behind_iff]
            simp [NotBlanks, hfiller]
        | trivia kind =>
            simp only [hfiller, reduceCtorEq, false_or, false_and]
            cases kind with
            | newline => simp [MayFollow, Parse.Seen.Ordered, Parse.Seen.Allows]
            | comment =>
                rw [mayFollow_comment_cons_iff]
                constructor
                · rintro rfl
                  simp
                · exact fun h => h.1.2
            | whitespace | inlineComment => exact absurd (by simp [IsFiller]) hfiller

end Part

theorem Phrase.isLine_iff {ps : List Phrase} : IsLine ps ↔ (∀ p ∈ ps, p.HasShapes) ∧
    Part.AreArranged (ps.map part) ∧ (ps.map part).IsChain Part.NotBlanks := by
  rw [← Part.mayFollow_none_iff]
  constructor
  · rintro ⟨hshapes, hordered, hapart⟩
    exact ⟨hshapes, hordered, hapart⟩
  · rintro ⟨hshapes, hordered, hapart⟩
    exact ⟨hshapes, hordered, hapart⟩

end NcProgram
