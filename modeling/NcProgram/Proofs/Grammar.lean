import NcProgram.Proofs.Phrase.Order
import Mathlib.Computability.Language

namespace NcProgram

open Computability Lexeme

namespace Grammar

def optional (L : Language Char) : Language Char :=
  1 + L

def symbol (c : Char) : Language Char :=
  {[c]}

def blank : Language Char :=
  {cs | cs ≠ [] ∧ ∀ c ∈ cs, c = ' ' ∨ c = '\t'}

def inlineComment : Language Char :=
  {cs | ∃ inner, cs = '(' :: (inner ++ [')']) ∧ ∀ c ∈ inner, c ≠ ')' ∧ c ≠ '\r' ∧ c ≠ '\n'}

def comment : Language Char :=
  {cs | ∃ inner, cs = ';' :: inner ∧ ∀ c ∈ inner, c ≠ '\r' ∧ c ≠ '\n'}

def quoted : Language Char :=
  {cs | ∃ inner, cs = '"' :: (inner ++ ['"']) ∧ ∀ c ∈ inner, c ≠ '"' ∧ c ≠ '\r' ∧ c ≠ '\n'}

/-- Digits that are few enough to be read as a number. -/
def digits : Language Char :=
  {cs | cs ≠ [] ∧ (∀ c ∈ cs, c.isDigit = true) ∧ cs.length ≤ 4300}

def letters : Language Char :=
  {cs | cs ≠ [] ∧ ∀ c ∈ cs, c.isAlpha = true}

def number : Language Char :=
  digits + symbol '-' * digits +
    optional (symbol '-') * (digits * (symbol '.' * optional digits)) +
    optional (symbol '-') * (symbol '.' * digits)

def field : Language Char :=
  letters * (number + quoted)

def checksum : Language Char :=
  {cs | ∃ ds ∈ digits, cs = '*' :: ds ∧ Text.decimalValue ds ≤ 255}

def filler : Language Char :=
  blank + inlineComment

def line : Language Char :=
  (filler + field)∗ * optional (checksum * filler∗) * optional comment

def newline : Language Char :=
  {['\r', '\n'], ['\n'], ['\r']}

def snippet : Language Char :=
  (line * newline)∗ * line

def file : Language Char :=
  optional (symbol '%') * (line * newline)∗ * line * optional (symbol '%')

theorem mem_optional_iff {L : Language Char} {cs : List Char} :
    cs ∈ optional L ↔ cs = [] ∨ cs ∈ L := by
  rw [optional, Language.mem_add, Language.mem_one]

theorem mem_symbol_iff {c : Char} {cs : List Char} : cs ∈ symbol c ↔ cs = [c] := Iff.rfl

theorem isLineBreak_eq_false_iff {c : Char} : isLineBreak c = false ↔ c ≠ '\r' ∧ c ≠ '\n' := by
  rw [← Bool.not_eq_true, isLineBreak_eq_true_iff, not_or, and_comm]

theorem mem_blank_iff {cs : List Char} : cs ∈ blank ↔ HasShape .whitespace cs := by
  simp only [HasShape, IsRun, isSpace_eq_true_iff]
  rfl

theorem mem_inlineComment_iff {cs : List Char} : cs ∈ inlineComment ↔ HasShape .inlineComment cs := by
  simp only [HasShape, IsDelimited, isLineBreak_eq_false_iff]
  rfl

theorem mem_comment_iff {cs : List Char} : cs ∈ comment ↔ HasShape .comment cs := by
  simp only [HasShape, isLineBreak_eq_false_iff]
  rfl

theorem mem_quoted_iff {cs : List Char} : cs ∈ quoted ↔ HasShape .string cs := by
  simp only [HasShape, IsDelimited, isLineBreak_eq_false_iff]
  rfl

theorem mem_digits_iff {cs : List Char} :
    cs ∈ digits ↔ HasShape .integer cs ∧ cs.length ≤ Text.maxDigits :=
  and_assoc.symm

theorem mem_letters_iff {cs : List Char} : cs ∈ letters ↔ HasShape .letters cs := Iff.rfl

theorem mem_newline_iff {cs : List Char} : cs ∈ newline ↔ HasShape .newline cs := by
  simp only [HasShape, terminators, List.mem_cons, List.not_mem_nil, or_false]
  rfl

theorem mem_sign_iff {cs : List Char} :
    cs ∈ optional (symbol '-') ↔ ∃ negative, cs = text (Numeral.sign negative) := by
  rw [mem_optional_iff, mem_symbol_iff]
  constructor
  · rintro (rfl | rfl)
    · exact ⟨false, rfl⟩
    · exact ⟨true, rfl⟩
  · rintro ⟨_ | _, rfl⟩
    · exact .inl rfl
    · exact .inr rfl

theorem mem_places_iff {cs : List Char} : cs ∈ optional digits ↔
    (cs ≠ [] → HasShape .integer cs) ∧ cs.length ≤ Text.maxDigits := by
  rw [mem_optional_iff, mem_digits_iff]
  by_cases hnil : cs = []
  · simp [hnil]
  · simp [hnil]

theorem mem_number_iff {cs : List Char} :
    cs ∈ number ↔ ∃ n : Numeral, n.HasShapes ∧ n.HasShortRuns ∧ text n.lexemes = cs := by
  constructor
  · rintro (((hcs | hcs) | hcs) | hcs)
    · obtain ⟨hrun, hlength⟩ := mem_digits_iff.mp hcs
      exact ⟨.whole false cs, Numeral.hasShapes_whole_iff.mpr hrun, hlength, Numeral.text_whole _ _⟩
    · obtain ⟨_, rfl, ds, hds, rfl⟩ := Language.mem_mul.mp hcs
      obtain ⟨hrun, hlength⟩ := mem_digits_iff.mp hds
      exact ⟨.whole true ds, Numeral.hasShapes_whole_iff.mpr hrun, hlength, Numeral.text_whole _ _⟩
    · obtain ⟨_, hsign, _, hrest, rfl⟩ := Language.mem_mul.mp hcs
      obtain ⟨ds, hds, _, htail, rfl⟩ := Language.mem_mul.mp hrest
      obtain ⟨_, rfl, es, hes, rfl⟩ := Language.mem_mul.mp htail
      obtain ⟨negative, rfl⟩ := mem_sign_iff.mp hsign
      obtain ⟨hrun, hlength⟩ := mem_digits_iff.mp hds
      obtain ⟨hplaces, hlength'⟩ := mem_places_iff.mp hes
      exact ⟨.decimal negative ds es, Numeral.hasShapes_decimal_iff.mpr ⟨hrun, hplaces⟩,
        ⟨hlength, hlength'⟩, Numeral.text_decimal _ _ _⟩
    · obtain ⟨_, hsign, _, hrest, rfl⟩ := Language.mem_mul.mp hcs
      obtain ⟨_, rfl, es, hes, rfl⟩ := Language.mem_mul.mp hrest
      obtain ⟨negative, rfl⟩ := mem_sign_iff.mp hsign
      obtain ⟨hrun, hlength⟩ := mem_digits_iff.mp hes
      exact ⟨.fraction negative es, Numeral.hasShapes_fraction_iff.mpr hrun, hlength,
        Numeral.text_fraction _ _⟩
  · rintro ⟨n, hshapes, hruns, rfl⟩
    cases n with
    | whole negative ds =>
        have hds : ds ∈ digits :=
          mem_digits_iff.mpr ⟨Numeral.hasShapes_whole_iff.mp hshapes, hruns⟩
        rw [Numeral.text_whole]
        cases negative with
        | false => exact .inl (.inl (.inl hds))
        | true => exact .inl (.inl (.inr (Language.append_mem_mul rfl hds)))
    | decimal negative ds es =>
        obtain ⟨hrun, hplaces⟩ := Numeral.hasShapes_decimal_iff.mp hshapes
        have hds : ds ∈ digits := mem_digits_iff.mpr ⟨hrun, hruns.1⟩
        have hes : es ∈ optional digits := mem_places_iff.mpr ⟨hplaces, hruns.2⟩
        rw [Numeral.text_decimal]
        exact .inl (.inr (Language.append_mem_mul (mem_sign_iff.mpr ⟨negative, rfl⟩)
          (Language.append_mem_mul hds (Language.append_mem_mul rfl hes))))
    | fraction negative es =>
        have hes : es ∈ digits :=
          mem_digits_iff.mpr ⟨Numeral.hasShapes_fraction_iff.mp hshapes, hruns⟩
        rw [Numeral.text_fraction]
        exact .inr (Language.append_mem_mul (mem_sign_iff.mpr ⟨negative, rfl⟩)
          (Language.append_mem_mul rfl hes))

/-- The words of the parts of a line. -/
def words : Part → Language Char
  | .trivia .whitespace => blank
  | .trivia .inlineComment => inlineComment
  | .trivia .comment => comment
  | .trivia .newline => newline
  | .field => field
  | .checksum => checksum

theorem mem_field_iff {cs : List Char} : cs ∈ field ↔
    ∃ p : Phrase, (p.part = .field ∧ p.HasShapes ∧ p.IsReadable) ∧ p.chars = cs := by
  constructor
  · intro hcs
    obtain ⟨ls, hls, rest, hrest, rfl⟩ := Language.mem_mul.mp hcs
    have hletters : HasShape .letters ls := mem_letters_iff.mp hls
    rcases hrest with hrest | hrest
    · obtain ⟨n, hshapes, hruns, rfl⟩ := mem_number_iff.mp hrest
      exact ⟨.number ls n, ⟨rfl, List.forall_mem_cons.mpr ⟨hletters, hshapes⟩, hruns, trivial⟩, rfl⟩
    · have hstring : HasShape .string rest := mem_quoted_iff.mp hrest
      refine ⟨.literal ls rest, ⟨rfl, ?_, trivial, trivial⟩, ?_⟩
      · simpa [Phrase.HasShapes, Phrase.lexemes] using ⟨hletters, hstring⟩
      · simp [Phrase.chars, Phrase.lexemes]
  · rintro ⟨p, ⟨hpart, hshapes, hread⟩, rfl⟩
    cases p with
    | number ls n =>
        obtain ⟨hletters, hnumeral⟩ := List.forall_mem_cons.mp hshapes
        exact Language.append_mem_mul hletters
          (.inl (mem_number_iff.mpr ⟨n, hnumeral, hread.shortRuns, rfl⟩))
    | literal ls chars =>
        obtain ⟨hletters, hstring⟩ := List.forall_mem_cons.mp hshapes
        have hchars : chars ∈ quoted := mem_quoted_iff.mpr (hstring ⟨.string, chars⟩ (by simp))
        have htext : (Phrase.literal ls chars).chars = ls ++ chars := by
          simp [Phrase.chars, Phrase.lexemes]
        rw [htext]
        exact Language.append_mem_mul hletters (.inr hchars)
    | trivia kind chars => cases hpart
    | checksum ds => cases hpart

theorem mem_checksum_iff {cs : List Char} : cs ∈ checksum ↔
    ∃ p : Phrase, (p.part = .checksum ∧ p.HasShapes ∧ p.IsReadable) ∧ p.chars = cs := by
  constructor
  · rintro ⟨ds, hds, rfl, hvalue⟩
    obtain ⟨hrun, hlength⟩ := mem_digits_iff.mp hds
    refine ⟨.checksum ds, ⟨rfl, ?_, hlength, hvalue⟩, ?_⟩
    · simpa [Phrase.HasShapes, Phrase.lexemes, Phrase.star, Numeral.run] using ⟨rfl, hrun⟩
    · simp [Phrase.chars, Phrase.lexemes, Phrase.star, Numeral.run]
  · rintro ⟨p, ⟨hpart, hshapes, hread⟩, rfl⟩
    cases p with
    | checksum ds =>
        refine ⟨ds, mem_digits_iff.mpr ⟨?_, hread.shortRuns⟩, ?_, hread.fitsByte⟩
        · exact hshapes (Numeral.run ds) (by simp [Phrase.lexemes])
        · simp [Phrase.chars, Phrase.lexemes, Phrase.star, Numeral.run]
    | number ls n => cases hpart
    | literal ls chars => cases hpart
    | trivia kind chars => cases hpart

theorem mem_trivia_iff {kind : TriviaKind} {cs : List Char} : HasShape kind.tokenKind cs ↔
    ∃ p : Phrase, (p.part = .trivia kind ∧ p.HasShapes ∧ p.IsReadable) ∧ p.chars = cs := by
  constructor
  · intro hshape
    refine ⟨.trivia kind cs, ⟨rfl, ?_, trivial, trivial⟩, ?_⟩
    · simpa [Phrase.HasShapes, Phrase.lexemes] using hshape
    · simp [Phrase.chars, Phrase.lexemes]
  · rintro ⟨p, ⟨hpart, hshapes, -⟩, rfl⟩
    cases p with
    | trivia kind' chars =>
        cases hpart
        have hshape := hshapes ⟨kind.tokenKind, chars⟩ (by simp [Phrase.lexemes])
        simpa [Phrase.chars, Phrase.lexemes] using hshape
    | number ls n => cases hpart
    | literal ls chars => cases hpart
    | checksum ds => cases hpart

/-- The words of a part are the texts of the phrases that count as it and have a meaning. -/
theorem mem_words_iff {a : Part} {cs : List Char} : cs ∈ words a ↔
    ∃ p : Phrase, (p.part = a ∧ p.HasShapes ∧ p.IsReadable) ∧ p.chars = cs := by
  cases a with
  | field => exact mem_field_iff
  | checksum => exact mem_checksum_iff
  | trivia kind =>
      refine Iff.trans ?_ mem_trivia_iff
      cases kind with
      | whitespace => exact mem_blank_iff
      | newline => exact mem_newline_iff
      | comment => exact mem_comment_iff
      | inlineComment => exact mem_inlineComment_iff

end Grammar

end NcProgram
