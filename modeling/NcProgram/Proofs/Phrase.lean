import NcProgram.Proofs.Lexeme.Sequence
import NcProgram.Proofs.Tree.Line
import NcProgram.Proofs.Text.Decimal

/-!
Phrases: the parts of a line as text alone, before they have a place. A phrase knows the lexemes it
is written with and the item that it means at an offset.
-/

namespace NcProgram

/-- A number as it is written. Digits after a point may be missing when there are some before it. -/
inductive Numeral where
  | whole (negative : Bool) (digits : List Char)
  | decimal (negative : Bool) (digits places : List Char)
  | fraction (negative : Bool) (places : List Char)
  deriving DecidableEq

namespace Numeral

def minusSign : Lexeme :=
  ⟨.minus, ['-']⟩

def point : Lexeme :=
  ⟨.dot, ['.']⟩

def run (digits : List Char) : Lexeme :=
  ⟨.integer, digits⟩

def sign (negative : Bool) : List Lexeme :=
  if negative then [minusSign] else []

def places (digits : List Char) : List Lexeme :=
  if digits = [] then [] else [run digits]

def lexemes : Numeral → List Lexeme
  | whole negative digits => sign negative ++ [run digits]
  | decimal negative digits afterPoint => sign negative ++ run digits :: point :: places afterPoint
  | fraction negative afterPoint => sign negative ++ [point, run afterPoint]

/-- The texts that a number is kept with. -/
def raw : Numeral → List String
  | whole negative digits => (if negative then ["-"] else []) ++ [String.ofList digits]
  | decimal negative digits afterPoint =>
    (if negative then ["-"] else []) ++ [String.ofList digits, ".", String.ofList afterPoint]
  | fraction negative afterPoint =>
    (if negative then ["-"] else []) ++ [".", String.ofList afterPoint]

/-- The number written by digits before and after a point. -/
def exact (negative : Bool) (digits afterPoint : List Char) : Rat :=
  let size := mkRat (Text.decimalValue (digits ++ afterPoint)) (10 ^ afterPoint.length)
  if negative then -size else size

/-- What a number means. Digits alone are an integer. -/
def value : Numeral → Value
  | whole false digits => .integer (Text.decimalValue digits)
  | whole true digits => .rational (exact true digits [])
  | decimal negative digits afterPoint => .rational (exact negative digits afterPoint)
  | fraction negative afterPoint => .rational (exact negative [] afterPoint)

theorem value_ne_string (n : Numeral) (s : String) : n.value ≠ .string s := by
  cases n with
  | whole negative digits => cases negative <;> exact Value.noConfusion
  | decimal negative digits afterPoint => exact Value.noConfusion
  | fraction negative afterPoint => exact Value.noConfusion

/-- No run of digits is too long to be read. -/
def HasShortRuns : Numeral → Prop
  | whole _ digits => digits.length ≤ Text.maxDigits
  | decimal _ digits afterPoint =>
    digits.length ≤ Text.maxDigits ∧ afterPoint.length ≤ Text.maxDigits
  | fraction _ afterPoint => afterPoint.length ≤ Text.maxDigits

instance (n : Numeral) : Decidable n.HasShortRuns :=
  match n with
  | whole _ digits | fraction _ digits => inferInstanceAs (Decidable (digits.length ≤ _))
  | decimal _ _ _ => inferInstanceAs (Decidable (_ ∧ _))

/-- Every lexeme of the number is one of its class. -/
def HasShapes (n : Numeral) : Prop :=
  ∀ l ∈ n.lexemes, Lexeme.HasShape l.kind l.chars

theorem hasShapes_whole_iff {negative : Bool} {digits : List Char} :
    (whole negative digits).HasShapes ↔ Lexeme.HasShape .integer digits := by
  cases negative <;> simp [HasShapes, lexemes, sign, minusSign, run, Lexeme.HasShape]

theorem hasShapes_decimal_iff {negative : Bool} {digits afterPoint : List Char} :
    (decimal negative digits afterPoint).HasShapes ↔ Lexeme.HasShape .integer digits ∧
      (afterPoint ≠ [] → Lexeme.HasShape .integer afterPoint) := by
  by_cases hnil : afterPoint = [] <;> cases negative <;>
    simp [HasShapes, lexemes, sign, minusSign, run, point, places, Lexeme.HasShape, hnil]

theorem hasShapes_fraction_iff {negative : Bool} {afterPoint : List Char} :
    (fraction negative afterPoint).HasShapes ↔ Lexeme.HasShape .integer afterPoint := by
  cases negative <;> simp [HasShapes, lexemes, sign, minusSign, run, point, Lexeme.HasShape]

theorem kind_of_mem_lexemes {n : Numeral} {l : Lexeme} (hl : l ∈ n.lexemes) :
    l.kind = .minus ∨ l.kind = .integer ∨ l.kind = .dot := by
  rcases n with ⟨_ | _, digits⟩ | ⟨_ | _, digits, afterPoint⟩ | ⟨_ | _, afterPoint⟩
  all_goals
    simp only [lexemes, sign, minusSign, run, point, places] at hl
    grind

theorem text_places (afterPoint : List Char) : Lexeme.text (places afterPoint) = afterPoint := by
  unfold places
  split
  next hnil => simp [hnil]
  next => simp [run]

theorem text_whole (negative : Bool) (digits : List Char) :
    Lexeme.text (whole negative digits).lexemes = Lexeme.text (sign negative) ++ digits := by
  simp [lexemes, run]

theorem text_decimal (negative : Bool) (digits afterPoint : List Char) :
    Lexeme.text (decimal negative digits afterPoint).lexemes =
      Lexeme.text (sign negative) ++ (digits ++ (['.'] ++ afterPoint)) := by
  simp [lexemes, run, point, text_places]

theorem text_fraction (negative : Bool) (afterPoint : List Char) :
    Lexeme.text (fraction negative afterPoint).lexemes =
      Lexeme.text (sign negative) ++ (['.'] ++ afterPoint) := by
  simp [lexemes, run, point]

end Numeral

/-- A part of a line as text alone. -/
inductive Phrase where
  | trivia (kind : TriviaKind) (chars : List Char)
  | number (letters : List Char) (numeral : Numeral)
  | literal (letters chars : List Char)
  | checksum (digits : List Char)
  deriving DecidableEq

namespace Phrase

def star : Lexeme :=
  ⟨.star, ['*']⟩

def lexemes : Phrase → List Lexeme
  | trivia kind chars => [⟨kind.tokenKind, chars⟩]
  | number letters numeral => ⟨.letters, letters⟩ :: numeral.lexemes
  | literal letters chars => [⟨.letters, letters⟩, ⟨.string, chars⟩]
  | checksum digits => [star, Numeral.run digits]

def chars (p : Phrase) : List Char :=
  Lexeme.text p.lexemes

def size (p : Phrase) : Nat :=
  Text.utf8Length p.chars

/-- What a phrase counts as in the order of its line. -/
def part : Phrase → Part
  | trivia kind _ => .trivia kind
  | number _ _ => .field
  | literal _ _ => .field
  | checksum _ => .checksum

/-- The item that a phrase means at an offset. -/
def item (o : Nat) (p : Phrase) : Item :=
  match p with
  | trivia kind chars => .trivia ⟨kind, String.ofList chars, o⟩
  | number letters numeral =>
    .field ⟨String.ofList letters, numeral.value, numeral.raw, .ofSize o p.size⟩
  | literal letters chars =>
    .field ⟨String.ofList letters, .string (unquoted (String.ofList chars)), [String.ofList chars],
      .ofSize o p.size⟩
  | checksum digits => .checksum ⟨Text.decimalValue digits, .ofSize o p.size⟩

def HasShapes (p : Phrase) : Prop :=
  ∀ l ∈ p.lexemes, Lexeme.HasShape l.kind l.chars

/-- No run of digits is too long to be read. -/
def HasShortRuns : Phrase → Prop
  | number _ numeral => numeral.HasShortRuns
  | checksum digits => digits.length ≤ Text.maxDigits
  | _ => True

def FitsByte : Phrase → Prop
  | checksum digits => Text.decimalValue digits ≤ maxChecksum
  | _ => True

/-- The phrase has a meaning. -/
structure IsReadable (p : Phrase) : Prop where
  shortRuns : p.HasShortRuns
  fitsByte : p.FitsByte

instance (p : Phrase) : Decidable p.HasShapes :=
  inferInstanceAs (Decidable (∀ l ∈ p.lexemes, Lexeme.HasShape l.kind l.chars))

instance (p : Phrase) : Decidable p.HasShortRuns :=
  match p with
  | number _ numeral => inferInstanceAs (Decidable numeral.HasShortRuns)
  | checksum digits => inferInstanceAs (Decidable (digits.length ≤ _))
  | trivia _ _ | literal _ _ => inferInstanceAs (Decidable True)

instance (p : Phrase) : Decidable p.FitsByte :=
  match p with
  | checksum digits => inferInstanceAs (Decidable (Text.decimalValue digits ≤ _))
  | trivia _ _ | number _ _ | literal _ _ => inferInstanceAs (Decidable True)

instance (p : Phrase) : Decidable p.IsReadable :=
  decidable_of_iff (p.HasShortRuns ∧ p.FitsByte) ⟨fun h => ⟨h.1, h.2⟩, fun h => ⟨h.1, h.2⟩⟩

def allLexemes (ps : List Phrase) : List Lexeme :=
  ps.flatMap lexemes

theorem text_allLexemes (ps : List Phrase) : Lexeme.text (allLexemes ps) = ps.flatMap chars :=
  List.flatMap_assoc ..

/-- The items that phrases mean from an offset on. -/
def items : Nat → List Phrase → List Item
  | _, [] => []
  | o, p :: ps => p.item o :: items (o + p.size) ps

@[simp] theorem allLexemes_nil : allLexemes [] = [] := rfl

@[simp] theorem allLexemes_cons (p : Phrase) (ps : List Phrase) :
    allLexemes (p :: ps) = p.lexemes ++ allLexemes ps := rfl

@[simp] theorem allLexemes_append (ps qs : List Phrase) :
    allLexemes (ps ++ qs) = allLexemes ps ++ allLexemes qs := by
  simp [allLexemes]

@[simp] theorem items_nil (o : Nat) : items o [] = [] := rfl

@[simp] theorem items_cons (o : Nat) (p : Phrase) (ps : List Phrase) :
    items o (p :: ps) = p.item o :: items (o + p.size) ps := rfl

end Phrase

end NcProgram
