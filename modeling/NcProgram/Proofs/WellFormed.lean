import NcProgram.Proofs.Grammar
import NcProgram.Proofs.RoundTrip
import Mathlib.Data.Rat.Lemmas
import Mathlib.Algebra.Field.Basic
import Mathlib.Algebra.Field.Rat

namespace NcProgram

open Computability Lexeme

/-- A number with a minus sign in front of it, or without one. -/
def signed (negative : Bool) (q : ℚ) : ℚ :=
  if negative then -q else q

def minusText (negative : Bool) : List String :=
  if negative then ["-"] else []

/-- The texts that a field's value is kept with, and the value that they mean. -/
inductive IsReading : List String → Value → Prop where
  | integer {ds : String} : ds.toList ∈ Grammar.digits →
      IsReading [ds] (.integer (Text.decimalValue ds.toList))
  | negative {ds : String} : ds.toList ∈ Grammar.digits →
      IsReading ["-", ds] (.rational (-(Text.decimalValue ds.toList : ℚ)))
  | decimal (minus : Bool) {ds es : String} : ds.toList ∈ Grammar.digits →
      es.toList ∈ Grammar.optional Grammar.digits →
      IsReading (minusText minus ++ [ds, ".", es]) (.rational (signed minus
        (Text.decimalValue ds.toList + Text.decimalValue es.toList / 10 ^ es.length)))
  | fraction (minus : Bool) {es : String} : es.toList ∈ Grammar.digits →
      IsReading (minusText minus ++ [".", es]) (.rational (signed minus
        (Text.decimalValue es.toList / 10 ^ es.length)))
  | string {inner : String} : ('"' :: (inner.toList ++ ['"'])) ∈ Grammar.quoted →
      IsReading ["\"" ++ inner ++ "\""] (.string inner)

/-- A field's value is what its texts mean. -/
structure Field.IsSpelled (f : Field) : Prop where
  letters : f.letters.toList ∈ Grammar.letters
  reading : IsReading f.raw f.value

/-- A checksum fits in a byte, and its span has room for the star and its digits. -/
structure Checksum.IsWellFormed (c : Checksum) : Prop where
  value : 0 ≤ c.value ∧ c.value ≤ 255
  width : ∃ w, c.span.size = w + 1 ∧ (toString c.value).length ≤ w ∧ w ≤ 4300

/-- An item means what it says. Of spans, only that of a checksum counts: it tells the zeros. -/
def Item.IsSpelled : Item → Prop
  | field f => f.IsSpelled
  | checksum c => c.IsWellFormed
  | trivia t => t.text.toList ∈ Grammar.words (.trivia t.kind)

/-- An item means what it says, and the span of a field is as long as its text. -/
structure Item.IsWellFormed (i : Item) : Prop where
  spelled : i.IsSpelled
  width : ∀ f, i = .field f → f.span.size = Text.utf8Length f.text.toList

/-- The items lie side by side between the two offsets. -/
def Item.AreBetween : Nat → List Item → Nat → Prop
  | o, [], e => e = o
  | o, i :: is, e => ∃ s, i.span = .ok s ∧ s.start = o ∧ AreBetween s.stop is e

/-- The items of a line are in order and lie side by side from an offset on, and they are in view. -/
structure Line.IsLaidOut (o : Nat) (l : Line Item) : Prop where
  arranged : Part.AreArranged (l.items.map Item.part)
  apart : (l.items.map Item.part).IsChain Part.NotBlanks
  between : Item.AreBetween o l.items l.span.stop
  start : l.span.start = o
  views : l.toLineViews = LineViews.ofItems l.items

/-- Lines as reading makes them, at an offset. -/
structure Line.IsWellFormed (o : Nat) (l : Line Item) : Prop extends l.IsLaidOut o where
  items : ∀ i ∈ l.items, i.IsWellFormed

/-- Lines and line ends lie side by side between the two offsets. -/
def Line.AreBetween : Nat → List (Line Item × Trivia) → Nat → Prop
  | o, [], e => e = o
  | o, (l, t) :: rest, e => l.IsWellFormed o ∧ t.kind = .newline ∧
      t.text.toList ∈ Grammar.newline ∧ t.position = l.span.stop ∧
      AreBetween (l.span.stop + Text.utf8Length t.text.toList) rest e

/-- A return does not stand before an empty line with a line feed. -/
def Line.DoNotMeet (p q : Line Item × Trivia) : Prop :=
  ¬ (p.2.text = "\r" ∧ q.1.items = [] ∧ q.2.text = "\n")

/-- Snippets as reading makes them, without a last line that shows nothing. -/
structure Document.IsWellFormed (d : Document Item) : Prop where
  kind : d.kind = .snippet
  lines : ∃ e, Line.AreBetween 0 d.lines e ∧ match d.lastLine with
    | none => d.span.stop = e
    | some l => l.IsWellFormed e ∧ l.isBlank = false ∧ d.span.stop = l.span.stop
  apart : d.lines.IsChain Line.DoNotMeet
  start : d.span.start = 0

theorem Grammar.toList_ofList_mem {A : Language Char} {cs : List Char} (h : cs ∈ A) :
    (String.ofList cs).toList ∈ A := by
  rwa [String.toList_ofList]

namespace Numeral

open Grammar

theorem exact_eq_signed (negative : Bool) (ds es : List Char) : exact negative ds es =
    signed negative (Text.decimalValue ds + Text.decimalValue es / 10 ^ es.length) := by
  have hsize : mkRat (Text.decimalValue (ds ++ es)) (10 ^ es.length) =
      (Text.decimalValue ds + Text.decimalValue es / 10 ^ es.length : ℚ) := by
    have hpow : (10 : ℚ) ^ es.length ≠ 0 := pow_ne_zero _ (by decide)
    rw [Rat.mkRat_eq_div, Text.decimalValue_append]
    push_cast
    rw [add_div, mul_div_cancel_right₀ _ hpow]
  rw [exact, hsize]
  rfl

theorem isReading (n : Numeral) (hshapes : n.HasShapes) (hruns : n.HasShortRuns) :
    IsReading n.raw n.value := by
  cases n with
  | whole negative ds =>
      have hds := toList_ofList_mem (mem_digits_iff.mpr ⟨hasShapes_whole_iff.mp hshapes, hruns⟩)
      cases negative with
      | false => simpa [raw, value] using IsReading.integer hds
      | true => simpa [raw, value, exact_eq_signed, signed] using IsReading.negative hds
  | decimal negative ds es =>
      obtain ⟨hrun, hplaces⟩ := hasShapes_decimal_iff.mp hshapes
      have hds := toList_ofList_mem (mem_digits_iff.mpr ⟨hrun, hruns.1⟩)
      have hes := toList_ofList_mem (mem_places_iff.mpr ⟨hplaces, hruns.2⟩)
      simpa [raw, value, exact_eq_signed, minusText] using
        IsReading.decimal negative hds hes
  | fraction negative es =>
      have hes := toList_ofList_mem (mem_digits_iff.mpr ⟨hasShapes_fraction_iff.mp hshapes, hruns⟩)
      simpa [raw, value, exact_eq_signed, minusText] using
        IsReading.fraction negative hes

end Numeral

theorem ofList_quoted (inner : String) :
    String.ofList ('"' :: (inner.toList ++ ['"'])) = "\"" ++ inner ++ "\"" := by
  apply String.toList_inj.mp
  simp

theorem unquoted_quoted (inner : String) :
    unquoted (String.ofList ('"' :: (inner.toList ++ ['"']))) = inner := by
  apply String.toList_inj.mp
  simp [unquoted]

/-- The texts of a field and what they mean are those of a phrase. -/
theorem isReading_iff {raw : List String} {v : Value} : IsReading raw v ↔
    (∃ n : Numeral, n.HasShapes ∧ n.HasShortRuns ∧ raw = n.raw ∧ v = n.value) ∨
      ∃ chars, HasShape .string chars ∧ raw = [String.ofList chars] ∧
        v = .string (unquoted (String.ofList chars)) := by
  constructor
  · intro h
    cases h with
    | @integer ds hds =>
        obtain ⟨hrun, hlength⟩ := Grammar.mem_digits_iff.mp hds
        refine .inl ⟨.whole false ds.toList, Numeral.hasShapes_whole_iff.mpr hrun, hlength, ?_, rfl⟩
        simp [Numeral.raw]
    | @negative ds hds =>
        obtain ⟨hrun, hlength⟩ := Grammar.mem_digits_iff.mp hds
        refine .inl ⟨.whole true ds.toList, Numeral.hasShapes_whole_iff.mpr hrun, hlength, ?_, ?_⟩
        · simp [Numeral.raw]
        · simp [Numeral.value, Numeral.exact_eq_signed, signed]
    | @decimal minus ds es hds hes =>
        obtain ⟨hrun, hlength⟩ := Grammar.mem_digits_iff.mp hds
        obtain ⟨hplaces, hlength'⟩ := Grammar.mem_places_iff.mp hes
        refine .inl ⟨.decimal minus ds.toList es.toList,
          Numeral.hasShapes_decimal_iff.mpr ⟨hrun, hplaces⟩, ⟨hlength, hlength'⟩, ?_, ?_⟩
        · simp [Numeral.raw, minusText]
        · simp [Numeral.value, Numeral.exact_eq_signed, String.length_toList]
    | @fraction minus es hes =>
        obtain ⟨hrun, hlength⟩ := Grammar.mem_digits_iff.mp hes
        refine .inl ⟨.fraction minus es.toList, Numeral.hasShapes_fraction_iff.mpr hrun, hlength,
          ?_, ?_⟩
        · simp [Numeral.raw, minusText]
        · simp [Numeral.value, Numeral.exact_eq_signed, String.length_toList]
    | @string inner hinner =>
        refine .inr ⟨_, Grammar.mem_quoted_iff.mp hinner, ?_, ?_⟩
        · rw [ofList_quoted]
        · rw [unquoted_quoted]
  · rintro (⟨n, hshapes, hruns, rfl, rfl⟩ | ⟨chars, hshape, rfl, rfl⟩)
    · exact n.isReading hshapes hruns
    · obtain ⟨inner, rfl, -⟩ := id hshape
      have hquoted : ('"' :: ((String.ofList inner).toList ++ ['"'])) ∈ Grammar.quoted := by
        rw [String.toList_ofList]
        exact Grammar.mem_quoted_iff.mpr hshape
      have hreading := IsReading.string hquoted
      rw [← ofList_quoted] at hreading
      rw [← String.toList_ofList (l := inner), unquoted_quoted]
      exact hreading

theorem Span.eq_ofSize {s : Span} {n : Nat} (h : s.size = n) : s = .ofSize s.start n := by
  obtain ⟨start, stop, hle⟩ := s
  simp only [size] at h
  simp only [ofSize, Span.mk.injEq, true_and]
  omega

theorem Phrase.utf8Length_text {p : Phrase} (hshapes : p.HasShapes) (hread : p.IsReadable) {o : Nat}
    {f : Field} (hitem : p.item o = .field f) : Text.utf8Length f.text.toList = p.size := by
  have hsource := source_item hshapes hread o
  rw [hitem, Item.source, Except.ok.injEq] at hsource
  rw [hsource, String.toList_ofList, size]

theorem Field.exists_phrase {f : Field} (h : f.IsSpelled) : ∃ p : Phrase, p.HasShapes ∧
    p.IsReadable ∧ ∀ o, p.item o = .field { f with span := .ofSize o p.size } := by
  obtain ⟨letters, value, raw, span⟩ := f
  obtain ⟨hletters, hreading⟩ := h
  obtain ⟨n, hshapes, hruns, rfl, rfl⟩ | ⟨chars, hshape, rfl, rfl⟩ := isReading_iff.mp hreading
  · refine ⟨.number letters.toList n, List.forall_mem_cons.mpr ⟨hletters, hshapes⟩,
      ⟨hruns, trivial⟩, ?_⟩
    simp [Phrase.item]
  · refine ⟨.literal letters.toList chars, List.forall_mem_cons.mpr ⟨hletters,
      List.forall_mem_singleton.mpr hshape⟩, ⟨trivial, trivial⟩, ?_⟩
    simp [Phrase.item]

theorem toList_zeroFilled_isRun {w n : Nat} (hw : (Nat.toDigits 10 n).length ≤ w) :
    IsRun Char.isDigit (zeroFilled w n).toList ∧ (zeroFilled w n).toList.length = w ∧
      Text.decimalValue (zeroFilled w n).toList = n := by
  have hlength : (zeroFilled w n).toList.length = w := by
    rw [toList_zeroFilled, List.length_append, List.length_replicate]
    omega
  have hpos : 0 < (Nat.toDigits 10 n).length := Nat.length_toDigits_pos
  refine ⟨⟨?_, ?_⟩, hlength, ?_⟩
  · apply List.ne_nil_of_length_pos
    omega
  · intro c hc
    rw [toList_zeroFilled] at hc
    exact Text.isDigit_of_mem_zeroFilled hc
  · rw [toList_zeroFilled, Text.decimalValue_replicate_zero, Text.decimalValue_toDigits]

theorem length_toString (n : Nat) : (toString (n : Int)).length = (Nat.toDigits 10 n).length := by
  rw [show toString (n : Int) = Nat.repr n from rfl, Nat.repr, String.length_ofList]

theorem Checksum.exists_phrase {c : Checksum} (h : c.IsWellFormed) : ∃ p : Phrase,
    p.HasShapes ∧ p.IsReadable ∧ p.size = c.span.size ∧
      ∀ o, p.item o = .checksum { c with span := .ofSize o p.size } := by
  obtain ⟨value, span⟩ := c
  obtain ⟨⟨hpos, hsmall⟩, w, hsize, hwidth, hshort⟩ := h
  obtain ⟨n, rfl⟩ := Int.eq_ofNat_of_zero_le hpos
  have hbyte : n ≤ maxChecksum := Int.ofNat_le.mp hsmall
  have hlong : (Nat.toDigits 10 n).length ≤ w := (length_toString n).symm.trans_le hwidth
  obtain ⟨hrun, hlength, hvalue⟩ := toList_zeroFilled_isRun hlong
  generalize (zeroFilled w n).toList = ds at hrun hlength hvalue
  subst hlength hvalue
  have hshapes : (Phrase.checksum ds).HasShapes :=
    List.forall_mem_cons.mpr ⟨rfl, List.forall_mem_singleton.mpr hrun⟩
  refine ⟨.checksum ds, hshapes, ⟨hshort, hbyte⟩, ?_, ?_⟩
  · rw [Phrase.size_checksum hshapes, hsize]
  · intro o
    rfl

namespace Phrase

theorem isSpelled_item {p : Phrase} (hshapes : p.HasShapes) (hread : p.IsReadable) (o : Nat) :
    (p.item o).IsSpelled := by
  cases p with
  | trivia kind chars =>
      refine Grammar.mem_words_iff.mpr ⟨trivia kind chars, ⟨rfl, hshapes, hread⟩, ?_⟩
      simp [Phrase.chars, lexemes]
  | number letters n =>
      obtain ⟨hletters, hnumeral⟩ := List.forall_mem_cons.mp hshapes
      exact ⟨Grammar.toList_ofList_mem hletters, n.isReading hnumeral hread.shortRuns⟩
  | literal letters chars =>
      obtain ⟨hletters, hliteral⟩ := List.forall_mem_cons.mp hshapes
      have hstring : HasShape .string chars := hliteral ⟨.string, chars⟩ (by simp)
      exact ⟨Grammar.toList_ofList_mem hletters,
        isReading_iff.mpr (.inr ⟨chars, hstring, rfl, rfl⟩)⟩
  | checksum ds =>
      obtain ⟨hne, hdigits⟩ := isRun_of_checksum hshapes
      have hvalue : Text.decimalValue ds ≤ 255 := hread.fitsByte
      refine ⟨⟨Int.natCast_nonneg _, Int.ofNat_le.mpr hvalue⟩, ds.length, ?_, ?_, hread.shortRuns⟩
      · rw [← size_checksum hshapes]
        exact Nat.add_sub_cancel_left ..
      · rw [length_toString]
        exact Text.length_toDigits_le hne hdigits

theorem isWellFormed_item {p : Phrase} (hshapes : p.HasShapes) (hread : p.IsReadable) (o : Nat) :
    (p.item o).IsWellFormed := by
  refine ⟨isSpelled_item hshapes hread o, fun f hf => ?_⟩
  have hspan : f.span = .ofSize o p.size := Except.ok.inj (hf ▸ span_item o p)
  rw [utf8Length_text hshapes hread hf, hspan]
  exact Nat.add_sub_cancel_left ..

end Phrase

theorem Item.exists_phrase {i : Item} (h : i.IsWellFormed) {s : Span} (hs : i.span = .ok s) :
    ∃ p : Phrase, p.HasShapes ∧ p.IsReadable ∧ i = p.item s.start := by
  cases i with
  | field f =>
      cases hs
      obtain ⟨p, hshapes, hread, hitem⟩ := Field.exists_phrase h.spelled
      have htext : Text.utf8Length f.text.toList = p.size :=
        Phrase.utf8Length_text (f := { f with span := .ofSize 0 p.size }) hshapes hread (hitem 0)
      refine ⟨p, hshapes, hread, ?_⟩
      rw [hitem, ← Span.eq_ofSize ((h.width f rfl).trans htext)]
  | checksum c =>
      cases hs
      obtain ⟨p, hshapes, hread, hsize, hitem⟩ := Checksum.exists_phrase h.spelled
      refine ⟨p, hshapes, hread, ?_⟩
      rw [hitem, ← Span.eq_ofSize hsize.symm]
  | trivia t =>
      obtain ⟨p, ⟨hpart, hshapes, hread⟩, hchars⟩ := Grammar.mem_words_iff.mp h.spelled
      have hposition : t.position = s.start := Extent.start_of_span hs
      obtain ⟨kind, text, position⟩ := t
      refine ⟨p, hshapes, hread, ?_⟩
      cases p with
      | trivia kind' chars =>
          cases hpart
          have htext : chars = text.toList := by simpa [Phrase.chars, Phrase.lexemes] using hchars
          subst htext hposition
          simp [Phrase.item]
      | number letters n => cases hpart
      | literal letters chars => cases hpart
      | checksum ds => cases hpart

/-- Items lie side by side and are well-formed exactly when they are what phrases mean there. -/
theorem Item.areBetween_iff {items : List Item} {o e : Nat} :
    ((∀ i ∈ items, i.IsWellFormed) ∧ Item.AreBetween o items e) ↔
      ∃ ps : List Phrase, (∀ p ∈ ps, p.HasShapes) ∧ (∀ p ∈ ps, p.IsReadable) ∧
        items = Phrase.items o ps ∧ e = o + Phrase.textSize ps := by
  constructor
  · rintro ⟨hitems, hbetween⟩
    induction items generalizing o with
    | nil =>
        obtain rfl : e = o := hbetween
        exact ⟨[], by simp, by simp, rfl, rfl⟩
    | cons i items ih =>
        obtain ⟨hi, hitems⟩ := List.forall_mem_cons.mp hitems
        obtain ⟨s, hs, rfl, hbetween⟩ := hbetween
        obtain ⟨ps, hshapes, hread, rfl, rfl⟩ := ih hitems hbetween
        obtain ⟨p, hp, hpread, rfl⟩ := Item.exists_phrase hi hs
        have hstop : s.stop = s.start + p.size := by
          rw [Phrase.span_item] at hs
          exact congrArg Span.stop (Except.ok.inj hs).symm
        refine ⟨p :: ps, List.forall_mem_cons.mpr ⟨hp, hshapes⟩,
          List.forall_mem_cons.mpr ⟨hpread, hread⟩, ?_, ?_⟩
        · rw [Phrase.items_cons, hstop]
        · rw [Phrase.textSize_cons, hstop, Nat.add_assoc]
  · rintro ⟨ps, hshapes, hread, rfl, rfl⟩
    induction ps generalizing o with
    | nil => exact ⟨by simp, rfl⟩
    | cons p ps ih =>
        obtain ⟨hp, hshapes⟩ := List.forall_mem_cons.mp hshapes
        obtain ⟨hpread, hread⟩ := List.forall_mem_cons.mp hread
        obtain ⟨hitems, hbetween⟩ := ih (o := o + p.size) hshapes hread
        refine ⟨List.forall_mem_cons.mpr ⟨Phrase.isWellFormed_item hp hpread o, hitems⟩,
          _, Phrase.span_item o p, rfl, ?_⟩
        rw [Phrase.textSize_cons, ← Nat.add_assoc]
        exact hbetween

end NcProgram
