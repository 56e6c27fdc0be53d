import NcProgram.Proofs.Tree.Passing
import NcProgram.Tree.Grammar

namespace NcProgram

/-- The numbers of the grammar. -/
inductive NumberParts.IsNumber : NumberParts → Prop where
  | whole {minus : Option Token} {digits : Token} :
      (∀ t ∈ minus, t.kind = .minus) → digits.kind = .integer →
      IsNumber ⟨minus, some digits, none, none⟩
  | decimal {minus : Option Token} {digits dot : Token} {fraction : Option Token} :
      (∀ t ∈ minus, t.kind = .minus) → digits.kind = .integer → dot.kind = .dot →
      (∀ t ∈ fraction, t.kind = .integer) → IsNumber ⟨minus, some digits, some dot, fraction⟩
  | fraction {minus : Option Token} {dot digits : Token} :
      (∀ t ∈ minus, t.kind = .minus) → dot.kind = .dot → digits.kind = .integer →
      IsNumber ⟨minus, none, some dot, some digits⟩

/-- A token of the class after the number would be read as a part of it. -/
def NumberParts.Continues (p : NumberParts) (k : TokenKind) : Prop :=
  match p.dot, p.fraction with
  | none, _ => k = .dot
  | some _, none => k = .integer
  | some _, some _ => False

namespace FieldContent

inductive IsContent : FieldContent → Prop where
  | number {p : NumberParts} : p.IsNumber → IsContent (.number p)
  | literal {t : Token} : t.kind = .string → IsContent (.literal t)

def Continues : FieldContent → TokenKind → Prop
  | .number p, k => p.Continues k
  | .literal _, _ => False

end FieldContent

structure FieldTree.IsField (t : FieldTree) : Prop where
  letters : t.letters.kind = .letters
  content : t.content.IsContent
  eq_ofParts : t = .ofParts t.letters t.content

structure ChecksumTree.IsChecksum (t : ChecksumTree) : Prop where
  star : t.star.kind = .star
  digits : t.digits.kind = .integer
  extent : t.extent = ⟨t.star.start, t.digits.stop⟩

namespace Parse

open Reader

theorem field_eq_ok {r r' : Reader} {t : FieldTree} (h : field r = .ok t r') :
    t.IsField ∧ ¬ t.content.Continues r'.current.kind ∧ Passes r t.leaves r' := by
  rw [field, bind_eq_ok_iff] at h
  obtain ⟨letters, r₁, h₁, h⟩ := h
  obtain ⟨hletters, p₁⟩ := (expect_eq_ok_iff (by decide)).mp h₁
  rw [bind_eq_ok_iff] at h
  obtain ⟨literal, r₂, h₂, h⟩ := h
  obtain ⟨hliteral, p₂, -⟩ := (take?_eq_ok_iff (by decide)).mp h₂
  have hpasses {content : FieldContent} {r' : Reader} (hcontent : Passes r₁ content.leaves r') :
      Passes r (FieldTree.ofParts letters content).leaves r' :=
    passes_append_iff.mpr ⟨r₁, p₁, hcontent⟩
  cases literal with
  | some literal =>
      obtain ⟨rfl, rfl⟩ := pure_eq_ok_iff.mp h
      exact ⟨⟨hletters, .literal (hliteral literal rfl), rfl⟩, not_false, hpasses p₂⟩
  | none =>
      obtain rfl := passes_nil_iff.mp p₂
      rw [bind_eq_ok_iff] at h
      obtain ⟨minus, r₃, h₃, h⟩ := h
      obtain ⟨hminus, p₃, -⟩ := (take?_eq_ok_iff (by decide)).mp h₃
      rw [bind_eq_ok_iff] at h
      obtain ⟨integer, r₄, h₄, h⟩ := h
      obtain ⟨hinteger, p₄, -⟩ := (take?_eq_ok_iff (by decide)).mp h₄
      cases integer with
      | some integer =>
          rw [bind_eq_ok_iff] at h
          obtain ⟨dot, r₅, h₅, h⟩ := h
          obtain ⟨hdot, p₅, hend₅⟩ := (take?_eq_ok_iff (by decide)).mp h₅
          cases dot with
          | some dot =>
              rw [bind_eq_ok_iff] at h
              obtain ⟨fraction, r₆, h₆, h⟩ := h
              obtain ⟨hfraction, p₆, hend₆⟩ := (take?_eq_ok_iff (by decide)).mp h₆
              obtain ⟨rfl, rfl⟩ := pure_eq_ok_iff.mp h
              refine ⟨⟨hletters, .number (.decimal hminus (hinteger _ rfl) (hdot _ rfl) hfraction),
                rfl⟩, ?_, hpasses ?_⟩
              · cases fraction with
                | none => exact hend₆ rfl
                | some _ => exact not_false
              · simp only [FieldContent.leaves, NumberParts.leaves, passes_append_iff]
                exact ⟨_, ⟨_, ⟨_, p₃, p₄⟩, p₅⟩, p₆⟩
          | none =>
              obtain ⟨rfl, rfl⟩ := pure_eq_ok_iff.mp h
              refine ⟨⟨hletters, .number (.whole hminus (hinteger _ rfl)), rfl⟩, hend₅ rfl,
                hpasses ?_⟩
              simp only [FieldContent.leaves, NumberParts.leaves, passes_append_iff]
              exact ⟨_, ⟨_, ⟨_, p₃, p₄⟩, p₅⟩, .nil _⟩
      | none =>
          rw [bind_eq_ok_iff] at h
          obtain ⟨dot, r₅, h₅, h⟩ := h
          obtain ⟨hdot, p₅, -⟩ := (take?_eq_ok_iff (by decide)).mp h₅
          cases dot with
          | some dot =>
              rw [bind_eq_ok_iff] at h
              obtain ⟨fraction, r₆, h₆, h⟩ := h
              obtain ⟨hfraction, p₆⟩ := (expectOr_eq_ok_iff (by decide)).mp h₆
              obtain ⟨rfl, rfl⟩ := pure_eq_ok_iff.mp h
              refine ⟨⟨hletters, .number (.fraction hminus (hdot _ rfl) hfraction), rfl⟩, not_false,
                hpasses ?_⟩
              simp only [FieldContent.leaves, NumberParts.leaves, passes_append_iff]
              exact ⟨_, ⟨_, ⟨_, p₃, p₄⟩, p₅⟩, p₆⟩
          | none => cases minus <;> cases h

theorem take?_eq_ok_none {kind : TokenKind} (hkind : kind ≠ .eof) {r : Reader}
    (h : r.current.kind ≠ kind) : take? kind r = .ok none r :=
  (take?_eq_ok_iff hkind).mpr ⟨by simp, .nil r, fun _ => h⟩

theorem take?_eq_ok_some {kind : TokenKind} (hkind : kind ≠ .eof) {r r' : Reader} {t : Token}
    (ht : t.kind = kind) (h : Passes r [t] r') : take? kind r = .ok (some t) r' :=
  (take?_eq_ok_iff hkind).mpr ⟨by simpa using ht, h, by simp⟩

theorem take?_eq_ok_of_next {kind : TokenKind} (hkind : kind ≠ .eof) {r r' : Reader}
    {found : Option Token} (hfound : ∀ t ∈ found, t.kind = kind) (h : Passes r found.toList r')
    {t : Token} {ts : List Token} {r'' : Reader} (hnext : Passes r' (t :: ts) r'')
    (ht : t.kind ≠ kind) : take? kind r = .ok found r' :=
  (take?_eq_ok_iff hkind).mpr ⟨hfound, h, fun _ => by simpa [hnext.current_eq] using ht⟩

theorem kind_current_of_isNumber {p : NumberParts} (hp : p.IsNumber) {r r' : Reader}
    (h : Passes r p.leaves r') : r.current.kind ≠ .string := by
  rw [h.current_eq]
  cases hp with
  | @whole minus _ hminus hdigits | @decimal minus _ _ _ hminus hdigits _ _ =>
      cases minus with
      | none => simp [NumberParts.leaves, hdigits]
      | some t => simp [NumberParts.leaves, hminus t rfl]
  | @fraction minus _ _ hminus hdot _ =>
      cases minus with
      | none => simp [NumberParts.leaves, hdot]
      | some t => simp [NumberParts.leaves, hminus t rfl]

theorem field_of_isField {t : FieldTree} (ht : t.IsField) {r r' : Reader}
    (hend : ¬ t.content.Continues r'.current.kind) (h : Passes r t.leaves r') :
    field r = .ok t r' := by
  obtain ⟨letters, content, extent⟩ := t
  obtain ⟨hletters, hcontent, heq⟩ := ht
  obtain rfl : extent = (FieldTree.ofParts letters content).extent := congrArg FieldTree.extent heq
  obtain ⟨r₁, p₁, p⟩ := passes_append_iff.mp (show Passes r ([letters] ++ content.leaves) r' from h)
  rw [field, bind_eq_ok_iff]
  refine ⟨letters, r₁, (expect_eq_ok_iff (by decide)).mpr ⟨hletters, p₁⟩, ?_⟩
  rw [bind_eq_ok_iff]
  cases hcontent with
  | literal hliteral =>
      exact ⟨_, r', take?_eq_ok_some (by decide) hliteral p, rfl⟩
  | number hnumber =>
      refine ⟨none, r₁, take?_eq_ok_none (by decide) (kind_current_of_isNumber hnumber p), ?_⟩
      dsimp only
      cases hnumber with
      | whole hminus hdigits =>
          simp only [FieldContent.leaves, NumberParts.leaves, Option.toList_some, Option.toList_none,
            List.append_nil, passes_append_iff] at p
          obtain ⟨r₃, p₃, p₄⟩ := p
          rw [bind_eq_ok_iff]
          refine ⟨_, r₃, take?_eq_ok_of_next (by decide) hminus p₃ p₄ (by simp [hdigits]), ?_⟩
          rw [bind_eq_ok_iff]
          refine ⟨_, r', take?_eq_ok_some (by decide) hdigits p₄, ?_⟩
          dsimp only
          rw [bind_eq_ok_iff]
          exact ⟨_, r', take?_eq_ok_none (by decide) hend, rfl⟩
      | decimal hminus hdigits hdot hfraction =>
          simp only [FieldContent.leaves, NumberParts.leaves, Option.toList_some,
            passes_append_iff] at p
          obtain ⟨r₅, ⟨r₄, ⟨r₃, p₃, p₄⟩, p₅⟩, p₆⟩ := p
          rw [bind_eq_ok_iff]
          refine ⟨_, r₃, take?_eq_ok_of_next (by decide) hminus p₃ p₄ (by simp [hdigits]), ?_⟩
          rw [bind_eq_ok_iff]
          refine ⟨_, r₄, take?_eq_ok_some (by decide) hdigits p₄, ?_⟩
          dsimp only
          rw [bind_eq_ok_iff]
          refine ⟨_, r₅, take?_eq_ok_some (by decide) hdot p₅, ?_⟩
          dsimp only
          rw [bind_eq_ok_iff]
          refine ⟨_, r', (take?_eq_ok_iff (by decide)).mpr ⟨hfraction, p₆, ?_⟩, rfl⟩
          rintro rfl
          exact hend
      | fraction hminus hdot hfraction =>
          simp only [FieldContent.leaves, NumberParts.leaves, Option.toList_some, Option.toList_none,
            List.append_nil, passes_append_iff] at p
          obtain ⟨r₄, ⟨r₃, p₃, p₄⟩, p₅⟩ := p
          rw [bind_eq_ok_iff]
          refine ⟨_, r₃, take?_eq_ok_of_next (by decide) hminus p₃ p₄ (by simp [hdot]), ?_⟩
          rw [bind_eq_ok_iff]
          refine ⟨none, r₃, take?_eq_ok_none (by decide) (by simp [p₄.current_eq, hdot]), ?_⟩
          dsimp only
          rw [bind_eq_ok_iff]
          refine ⟨_, r₄, take?_eq_ok_some (by decide) hdot p₄, ?_⟩
          dsimp only
          rw [bind_eq_ok_iff]
          exact ⟨_, r', (expectOr_eq_ok_iff (by decide)).mpr ⟨hfraction, p₅⟩, rfl⟩

theorem field_eq_ok_iff {t : FieldTree} {r r' : Reader} :
    field r = .ok t r' ↔
      t.IsField ∧ ¬ t.content.Continues r'.current.kind ∧ Passes r t.leaves r' := by
  constructor
  · exact field_eq_ok
  · rintro ⟨ht, hend, h⟩
    exact field_of_isField ht hend h

theorem checksum_eq_ok_iff {t : ChecksumTree} {r r' : Reader} :
    checksum r = .ok t r' ↔ t.IsChecksum ∧ Passes r t.leaves r' := by
  obtain ⟨star, digits, extent⟩ := t
  simp only [checksum, bind_eq_ok_iff, expect_eq_ok_iff (show TokenKind.star ≠ .eof by decide),
    expectOr_eq_ok_iff (show TokenKind.integer ≠ .eof by decide), pure_eq_ok_iff]
  constructor
  · rintro ⟨a, r₁, ⟨ha, p₁⟩, b, r₂, ⟨hb, p₂⟩, heq, rfl⟩
    cases heq
    exact ⟨⟨ha, hb, rfl⟩, passes_append_iff.mpr ⟨r₁, p₁, p₂⟩⟩
  · rintro ⟨⟨hstar, hdigits, hextent⟩, h⟩
    dsimp only at hextent
    subst hextent
    obtain ⟨r₁, p₁, p₂⟩ := passes_append_iff.mp (show Passes r ([star] ++ [digits]) r' from h)
    exact ⟨star, r₁, ⟨hstar, p₁⟩, digits, r', ⟨hdigits, p₂⟩, rfl, rfl⟩

end Parse

end NcProgram
