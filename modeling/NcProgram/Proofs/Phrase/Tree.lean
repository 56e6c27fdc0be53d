import NcProgram.Proofs.Phrase

namespace NcProgram

open Lexeme

namespace Numeral

def signToken (m : Mark) (negative : Bool) : Option Token :=
  if negative then some (minusSign.token m) else none

def placesToken (m : Mark) (digits : List Char) : Option Token :=
  if digits = [] then none else some ((run digits).token m)

def parts (m : Mark) : Numeral → NumberParts
  | whole negative digits =>
    let m₁ := m.afterAll (sign negative)
    ⟨signToken m negative, some ((run digits).token m₁), none, none⟩
  | decimal negative digits afterPoint =>
    let m₁ := m.afterAll (sign negative)
    let m₂ := m₁.after (run digits)
    ⟨signToken m negative, some ((run digits).token m₁), some (point.token m₂),
      placesToken (m₂.after point) afterPoint⟩
  | fraction negative afterPoint =>
    let m₁ := m.afterAll (sign negative)
    ⟨signToken m negative, none, some (point.token m₁),
      some ((run afterPoint).token (m₁.after point))⟩

theorem toList_signToken (m : Mark) (negative : Bool) :
    (signToken m negative).toList = placed m (sign negative) := by
  cases negative <;> rfl

theorem toList_placesToken (m : Mark) (digits : List Char) :
    (placesToken m digits).toList = placed m (places digits) := by
  unfold placesToken places
  split <;> rfl

theorem leaves_parts (m : Mark) (n : Numeral) : (n.parts m).leaves = placed m n.lexemes := by
  cases n with
  | whole negative digits =>
      simp [parts, NumberParts.leaves, lexemes, toList_signToken]
  | decimal negative digits afterPoint =>
      simp [parts, NumberParts.leaves, lexemes, toList_signToken, toList_placesToken]
  | fraction negative afterPoint =>
      simp [parts, NumberParts.leaves, lexemes, toList_signToken]

theorem kind_of_mem_signToken {m : Mark} {negative : Bool} :
    ∀ t ∈ signToken m negative, t.kind = .minus := by
  cases negative <;> simp [signToken, token, minusSign, Token.ofText]

theorem kind_of_mem_placesToken {m : Mark} {digits : List Char} :
    ∀ t ∈ placesToken m digits, t.kind = .integer := by
  unfold placesToken
  split <;> simp [token, run, Token.ofText]

theorem isNumber_parts (m : Mark) (n : Numeral) : (n.parts m).IsNumber := by
  cases n with
  | whole negative digits => exact .whole kind_of_mem_signToken rfl
  | decimal negative digits afterPoint =>
      exact .decimal kind_of_mem_signToken rfl rfl kind_of_mem_placesToken
  | fraction negative afterPoint => exact .fraction kind_of_mem_signToken rfl rfl

theorem exists_sign {m : Mark} {minus : Option Token} (hminus : ∀ t ∈ minus, t.kind = .minus)
    {ls : List Lexeme} (hls : ∀ l ∈ ls, HasShape l.kind l.chars)
    (h : placed m ls = minus.toList) :
    ∃ negative, ls = sign negative ∧ minus = signToken m negative := by
  cases minus with
  | none =>
      cases ls with
      | nil => exact ⟨false, rfl, rfl⟩
      | cons l ls => simp at h
  | some t =>
      obtain ⟨l, rfl, rfl⟩ : ∃ l, ls = [l] ∧ l.token m = t := by
        rcases ls with _ | ⟨l, _ | ⟨k, ls⟩⟩ <;> simp_all
      have hkind : l.kind = .minus := hminus _ rfl
      have hshape := hls l (by simp)
      obtain ⟨kind, chars⟩ := l
      cases hkind
      obtain rfl : chars = ['-'] := hshape
      exact ⟨true, rfl, rfl⟩

theorem exists_lexeme {m : Mark} {t : Token} {kind : TokenKind} (hkind : t.kind = kind)
    {ls : List Lexeme} (hls : ∀ l ∈ ls, HasShape l.kind l.chars) (h : placed m ls = [t]) :
    ∃ chars, ls = [⟨kind, chars⟩] ∧ HasShape kind chars ∧ t = token m ⟨kind, chars⟩ := by
  obtain ⟨l, rfl, rfl⟩ : ∃ l, ls = [l] ∧ l.token m = t := by
    rcases ls with _ | ⟨l, _ | ⟨k, ls⟩⟩ <;> simp_all
  subst hkind
  exact ⟨l.chars, rfl, hls l (by simp), rfl⟩

theorem exists_places {m : Mark} {fraction : Option Token}
    (hfraction : ∀ t ∈ fraction, t.kind = .integer) {ls : List Lexeme}
    (hls : ∀ l ∈ ls, HasShape l.kind l.chars) (h : placed m ls = fraction.toList) :
    ∃ digits, ls = places digits ∧ fraction = placesToken m digits := by
  cases fraction with
  | none =>
      cases ls with
      | nil => exact ⟨[], rfl, rfl⟩
      | cons l ls => simp at h
  | some t =>
      obtain ⟨digits, rfl, hshape, rfl⟩ := exists_lexeme (hfraction t rfl) hls h
      exact ⟨digits, by simp [places, run, hshape.ne_nil],
        by simp [placesToken, run, hshape.ne_nil]⟩

theorem exists_numeral {m : Mark} {p : NumberParts} (hp : p.IsNumber) {ls : List Lexeme}
    (hls : ∀ l ∈ ls, HasShape l.kind l.chars) (h : placed m ls = p.leaves) :
    ∃ n : Numeral, n.lexemes = ls ∧ n.parts m = p := by
  cases hp with
  | whole hminus hdigits =>
      simp only [NumberParts.leaves, Option.toList_some, Option.toList_none, List.append_nil] at h
      obtain ⟨ls₁, ls₂, rfl, h₁, h₂⟩ := exists_of_placed_eq_append h
      obtain ⟨hls₁, hls₂⟩ := List.forall_mem_append.mp hls
      obtain ⟨negative, rfl, rfl⟩ := exists_sign hminus hls₁ h₁
      obtain ⟨digits, rfl, -, rfl⟩ := exists_lexeme hdigits hls₂ h₂
      exact ⟨whole negative digits, rfl, rfl⟩
  | decimal hminus hdigits hdot hfraction =>
      simp only [NumberParts.leaves, Option.toList_some, List.append_assoc] at h
      obtain ⟨ls₁, ls', rfl, h₁, h⟩ := exists_of_placed_eq_append h
      obtain ⟨ls₂, ls', rfl, h₂, h⟩ := exists_of_placed_eq_append h
      obtain ⟨ls₃, ls₄, rfl, h₃, h₄⟩ := exists_of_placed_eq_append h
      simp only [List.forall_mem_append] at hls
      obtain ⟨hls₁, hls₂, hls₃, hls₄⟩ := hls
      obtain ⟨negative, rfl, rfl⟩ := exists_sign hminus hls₁ h₁
      obtain ⟨digits, rfl, -, rfl⟩ := exists_lexeme hdigits hls₂ h₂
      obtain ⟨chars, rfl, hchars, rfl⟩ := exists_lexeme hdot hls₃ h₃
      obtain ⟨afterPoint, rfl, rfl⟩ := exists_places hfraction hls₄ h₄
      obtain rfl : chars = ['.'] := hchars
      exact ⟨decimal negative digits afterPoint, rfl, rfl⟩
  | fraction hminus hdot hfraction =>
      simp only [NumberParts.leaves, Option.toList_some, Option.toList_none, List.append_nil,
        List.append_assoc] at h
      obtain ⟨ls₁, ls', rfl, h₁, h⟩ := exists_of_placed_eq_append h
      obtain ⟨ls₂, ls₃, rfl, h₂, h₃⟩ := exists_of_placed_eq_append h
      simp only [List.forall_mem_append] at hls
      obtain ⟨hls₁, hls₂, hls₃⟩ := hls
      obtain ⟨negative, rfl, rfl⟩ := exists_sign hminus hls₁ h₁
      obtain ⟨chars, rfl, hchars, rfl⟩ := exists_lexeme hdot hls₂ h₂
      obtain ⟨afterPoint, rfl, -, rfl⟩ := exists_lexeme hfraction hls₃ h₃
      obtain rfl : chars = ['.'] := hchars
      exact ⟨fraction negative afterPoint, rfl, rfl⟩

end Numeral

namespace Phrase

def tree (m : Mark) : Phrase → ItemTree
  | trivia kind chars => .trivia kind (token m ⟨kind.tokenKind, chars⟩)
  | number letters numeral =>
    .field (.ofParts (token m ⟨.letters, letters⟩)
      (.number (numeral.parts (m.after ⟨.letters, letters⟩))))
  | literal letters chars =>
    .field (.ofParts (token m ⟨.letters, letters⟩)
      (.literal (token (m.after ⟨.letters, letters⟩) ⟨.string, chars⟩)))
  | checksum digits =>
    let digits := (Numeral.run digits).token (m.after star)
    .checksum ⟨star.token m, digits, ⟨(star.token m).start, digits.stop⟩⟩

/-- The trees of phrases that follow one another from a place on. -/
def trees : Mark → List Phrase → List ItemTree
  | _, [] => []
  | m, p :: ps => p.tree m :: trees (m.afterAll p.lexemes) ps

theorem leaves_tree (m : Mark) (p : Phrase) : (p.tree m).leaves = placed m p.lexemes := by
  cases p with
  | trivia kind chars => rfl
  | number letters numeral =>
      simp [tree, lexemes, ItemTree.leaves, FieldTree.leaves, FieldTree.ofParts,
        FieldContent.leaves, Numeral.leaves_parts]
  | literal letters chars => rfl
  | checksum digits => rfl

theorem part_tree (m : Mark) (p : Phrase) : (p.tree m).part = p.part := by
  cases p <;> rfl

theorem isItem_tree (m : Mark) (p : Phrase) : (p.tree m).IsItem := by
  cases p with
  | trivia kind chars => exact .trivia rfl
  | number letters numeral => exact .field ⟨rfl, .number (numeral.isNumber_parts _), rfl⟩
  | literal letters chars => exact .field ⟨rfl, .literal rfl, rfl⟩
  | checksum digits => exact .checksum ⟨rfl, rfl, rfl⟩

theorem exists_phrase {m : Mark} {t : ItemTree} (ht : t.IsItem) {ls : List Lexeme}
    (hls : ∀ l ∈ ls, HasShape l.kind l.chars) (h : placed m ls = t.leaves) :
    ∃ p : Phrase, p.lexemes = ls ∧ p.tree m = t := by
  cases ht with
  | @trivia kind u hkind =>
      obtain ⟨chars, rfl, -, rfl⟩ := Numeral.exists_lexeme hkind hls h
      exact ⟨trivia kind chars, rfl, rfl⟩
  | @field u hu =>
      obtain ⟨letters, content, extent⟩ := u
      obtain ⟨hletters, hcontent, heq⟩ := hu
      rw [heq] at h ⊢
      obtain ⟨ls₁, ls₂, rfl, h₁, h₂⟩ :=
        exists_of_placed_eq_append (show placed m ls = [letters] ++ content.leaves from h)
      obtain ⟨hls₁, hls₂⟩ := List.forall_mem_append.mp hls
      obtain ⟨chars, rfl, -, rfl⟩ := Numeral.exists_lexeme hletters hls₁ h₁
      cases hcontent with
      | number hnumber =>
          obtain ⟨n, rfl, rfl⟩ := Numeral.exists_numeral hnumber hls₂ h₂
          exact ⟨number chars n, rfl, rfl⟩
      | literal hliteral =>
          obtain ⟨text, rfl, -, rfl⟩ := Numeral.exists_lexeme hliteral hls₂ h₂
          exact ⟨literal chars text, rfl, rfl⟩
  | @checksum u hu =>
      obtain ⟨starToken, digits, extent⟩ := u
      obtain ⟨hstar, hdigits, hextent⟩ := hu
      dsimp only at hextent
      subst hextent
      obtain ⟨ls₁, ls₂, rfl, h₁, h₂⟩ :=
        exists_of_placed_eq_append (show placed m ls = [starToken] ++ [digits] from h)
      obtain ⟨hls₁, hls₂⟩ := List.forall_mem_append.mp hls
      obtain ⟨chars, rfl, hchars, rfl⟩ := Numeral.exists_lexeme hstar hls₁ h₁
      obtain ⟨text, rfl, -, rfl⟩ := Numeral.exists_lexeme hdigits hls₂ h₂
      obtain rfl : chars = ['*'] := hchars
      exact ⟨checksum text, rfl, rfl⟩

theorem leaves_trees (m : Mark) (ps : List Phrase) :
    (trees m ps).flatMap ItemTree.leaves = placed m (allLexemes ps) := by
  induction ps generalizing m with
  | nil => rfl
  | cons p ps ih => simp [trees, leaves_tree, ih]

theorem map_part_trees (m : Mark) (ps : List Phrase) :
    (trees m ps).map ItemTree.part = ps.map part := by
  induction ps generalizing m with
  | nil => rfl
  | cons p ps ih => simp [trees, part_tree, ih]

theorem isItem_of_mem_trees {m : Mark} {ps : List Phrase} {t : ItemTree} (ht : t ∈ trees m ps) :
    t.IsItem := by
  induction ps generalizing m with
  | nil => simp [trees] at ht
  | cons p ps ih =>
      rcases List.mem_cons.mp ht with rfl | ht
      · exact isItem_tree m p
      · exact ih ht

theorem exists_phrases {m : Mark} {ts : List ItemTree} (hts : ∀ t ∈ ts, t.IsItem)
    {ls : List Lexeme} (hls : ∀ l ∈ ls, HasShape l.kind l.chars)
    (h : placed m ls = ts.flatMap ItemTree.leaves) :
    ∃ ps, allLexemes ps = ls ∧ trees m ps = ts := by
  induction ts generalizing m ls with
  | nil =>
      cases ls with
      | nil => exact ⟨[], rfl, rfl⟩
      | cons l ls => simp at h
  | cons t ts ih =>
      rw [List.flatMap_cons] at h
      obtain ⟨ls₁, ls₂, rfl, h₁, h₂⟩ := exists_of_placed_eq_append h
      obtain ⟨hls₁, hls₂⟩ := List.forall_mem_append.mp hls
      obtain ⟨p, rfl, rfl⟩ := exists_phrase (hts t (by simp)) hls₁ h₁
      obtain ⟨ps, rfl, rfl⟩ := ih (fun u hu => hts u (by simp [hu])) hls₂ h₂
      exact ⟨p :: ps, rfl, rfl⟩

end Phrase

end NcProgram
