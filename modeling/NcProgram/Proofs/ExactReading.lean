import NcProgram.Proofs.Tokenizing
import NcProgram.Proofs.WellFormed

namespace NcProgram

open Lexeme

namespace NumberParts

/-- The digits in front of the point, if there are any. -/
def digits (p : NumberParts) : List Char :=
  p.integer.elim [] (·.text.toList)

/-- The digits behind the point, if there are any. -/
def places (p : NumberParts) : List Char :=
  p.fraction.elim [] (·.text.toList)

/-- A number of the grammar, written as such, with runs of digits that are not too long. -/
structure IsWritten (p : NumberParts) : Prop where
  isNumber : p.IsNumber
  shapes : ∀ t ∈ p.leaves, HasShape t.kind t.text.toList
  short : ∀ t ∈ p.leaves, t.kind = .integer → t.text.toList.length ≤ Text.maxDigits

/-- The texts that a number is kept with. A point without digits behind it has an empty text there. -/
def texts (p : NumberParts) : List String :=
  p.leaves.map Token.text ++ if p.dot ≠ none ∧ p.fraction = none then [""] else []

/-- What a number is read as. Digits alone are an integer; with a sign or a point the digits on both
sides of the point write the value times a power of ten. The texts of the parts are kept, and an
empty one behind a point without digits. -/
structure IsReadAs (p : NumberParts) (v : Value) (raw : List String) : Prop where
  integer_iff : (∃ n, v = .integer n) ↔ p.minus = none ∧ p.dot = none
  integer : ∀ n, v = .integer n → n = (Nat.ofDigitChars 10 p.digits 0 : ℕ)
  rational : p.minus ≠ none ∨ p.dot ≠ none → ∃ q : ℚ, v = .rational q ∧
    q.num.natAbs.Coprime q.den ∧
    q * 10 ^ p.places.length =
      signed p.minus.isSome (Nat.ofDigitChars 10 (p.digits ++ p.places) 0 : ℕ)
  raw_eq : raw = p.texts
  join_raw : String.join raw = Token.join p.leaves
  mem_raw_iff : "" ∈ raw ↔ p.integer ≠ none ∧ p.dot ≠ none ∧ p.fraction = none

end NumberParts

theorem signed_mul (negative : Bool) (q r : ℚ) : signed negative q * r = signed negative (q * r) := by
  cases negative
  · rfl
  · exact neg_mul q r

/-- The digits on both sides of the point write the value times a power of ten. -/
theorem Numeral.exact_mul_pow (negative : Bool) (ds es : List Char) :
    exact negative ds es * 10 ^ es.length =
      signed negative (Nat.ofDigitChars 10 (ds ++ es) 0 : ℕ) := by
  have hpow : (10 : ℚ) ^ es.length ≠ 0 := pow_ne_zero _ (by decide)
  rw [exact_eq_signed, signed_mul, add_mul, div_mul_cancel₀ _ hpow,
    ← Text.decimalValue_eq_ofDigitChars, Text.decimalValue_append]
  push_cast
  rfl

namespace NumberParts

variable {p : NumberParts}

theorem IsNumber.kinds (h : p.IsNumber) : (∀ t ∈ p.minus, t.kind = .minus) ∧
    (∀ t ∈ p.integer, t.kind = .integer) ∧ (∀ t ∈ p.dot, t.kind = .dot) ∧
    ∀ t ∈ p.fraction, t.kind = .integer := by
  cases h <;> simp_all

theorem IsNumber.integer_or_fraction (h : p.IsNumber) : p.integer ≠ none ∨ p.fraction ≠ none := by
  cases h <;> simp

theorem IsWritten.isRun (h : p.IsWritten) {t : Token} (ht : t ∈ p.leaves) (hkind : t.kind = .integer) :
    IsRun Char.isDigit t.text.toList := by
  have hshape := h.shapes t ht
  rwa [hkind] at hshape

theorem IsWritten.readDigits_eq (h : p.IsWritten) {t : Token} (ht : t ∈ p.leaves)
    (hkind : t.kind = .integer) (category : Category) (what : String) :
    readDigits category what t = .ok (Text.decimalValue t.text.toList) :=
  (readDigits_eq_ok_iff (h.isRun ht hkind)).mpr ⟨h.short t ht hkind, rfl⟩

theorem IsWritten.readRun_eq (h : p.IsWritten) {o : Option Token} (ho : ∀ t ∈ o, t ∈ p.leaves)
    (hkind : ∀ t ∈ o, t.kind = .integer) (category : Category) (what : String) :
    o.elim (pure 0) (readDigits category what) =
      .ok (Text.decimalValue (o.elim [] (·.text.toList))) := by
  cases o with
  | none => rfl
  | some t => exact h.readDigits_eq (ho t rfl) (hkind t rfl) category what

theorem IsWritten.read_of_point (h : p.IsWritten) (hdot : p.dot ≠ none) : p.read =
    .ok (.rational (Numeral.exact p.minus.isSome p.digits p.places), p.texts) := by
  obtain ⟨-, hinteger, -, hfraction⟩ := h.isNumber.kinds
  have hwhole := h.readRun_eq (o := p.integer) (fun t ht => by simp_all [leaves]) hinteger
    .rationalFormat "integer part"
  have hpart := h.readRun_eq (o := p.fraction) (fun t ht => by simp_all [leaves]) hfraction
    .rationalFormat "fractional part"
  have hsome := h.isNumber.integer_or_fraction
  obtain ⟨minus, integer, dot, fraction⟩ := p
  obtain ⟨dot, rfl⟩ := Option.ne_none_iff_exists'.mp hdot
  rw [Numeral.read_of_point hsome, hwhole, hpart, Numeral.exact_eq]
  cases integer <;> cases fraction <;> cases minus <;> rfl

theorem IsWritten.read_of_minus (h : p.IsWritten) (hminus : p.minus ≠ none) (hdot : p.dot = none) :
    p.read = .ok (.rational (Numeral.exact p.minus.isSome p.digits p.places), p.texts) := by
  cases h.isNumber with
  | @whole minus digits _ hdigits =>
      have hread := h.readDigits_eq (t := digits) (by simp [leaves]) hdigits .rationalFormat
        "integer part"
      obtain ⟨minus, rfl⟩ := Option.ne_none_iff_exists'.mp hminus
      rw [Numeral.exact_eq]
      simp only [read, Option.elim_some, hread]
      rfl
  | decimal => cases hdot
  | fraction => cases hdot

theorem IsWritten.read_of_digits (h : p.IsWritten) (hminus : p.minus = none) (hdot : p.dot = none) :
    p.read = .ok (.integer (Text.decimalValue p.digits), p.texts) := by
  cases h.isNumber with
  | @whole minus digits _ hdigits =>
      have hread := h.readDigits_eq (t := digits) (by simp [leaves]) hdigits .integerFormat "integer"
      cases hminus
      simp only [read, hread]
      rfl
  | decimal => cases hdot
  | fraction => cases hdot

theorem join_texts (p : NumberParts) : String.join p.texts = Token.join p.leaves := by
  unfold texts
  split <;> simp [String.join_append, String.join_cons, Token.join]

theorem IsWritten.mem_texts_iff (h : p.IsWritten) :
    "" ∈ p.texts ↔ p.integer ≠ none ∧ p.dot ≠ none ∧ p.fraction = none := by
  have hleaves : "" ∉ p.leaves.map Token.text := by
    intro hmem
    obtain ⟨t, ht, hempty⟩ := List.mem_map.mp hmem
    exact (h.shapes t ht).ne_nil (by rw [hempty]; rfl)
  have hinteger (hfraction : p.fraction = none) : p.integer ≠ none :=
    h.isNumber.integer_or_fraction.resolve_right (not_not.mpr hfraction)
  rw [texts, List.mem_append, or_iff_right hleaves]
  split
  next hpoint => simpa [hpoint] using hinteger hpoint.2
  next hpoint => simpa using fun _ => not_and.mp hpoint

theorem IsWritten.isReadAs (h : p.IsWritten) : ∃ v, p.read = .ok (v, p.texts) ∧
    p.IsReadAs v p.texts := by
  by_cases hform : p.minus = none ∧ p.dot = none
  · refine ⟨_, h.read_of_digits hform.1 hform.2, ?_, ?_, ?_, rfl, p.join_texts, h.mem_texts_iff⟩
    · exact iff_of_true ⟨_, rfl⟩ hform
    · rintro n ⟨⟩
      rw [Text.decimalValue_eq_ofDigitChars]
    · intro hor
      simp [hform] at hor
  · have hread : p.read =
        .ok (.rational (Numeral.exact p.minus.isSome p.digits p.places), p.texts) := by
      by_cases hdot : p.dot = none
      · exact h.read_of_minus (fun hminus => hform ⟨hminus, hdot⟩) hdot
      · exact h.read_of_point hdot
    refine ⟨_, hread, ?_, nofun, fun _ => ⟨_, rfl, Rat.reduced _, Numeral.exact_mul_pow ..⟩, rfl,
      p.join_texts, h.mem_texts_iff⟩
    exact iff_of_false nofun hform

end NumberParts

section

variable {negative pointed : Bool} {ds es : List Char}

/-- The text of a number with the digits on both sides of its point. -/
def numberText (negative pointed : Bool) (ds es : List Char) : List Char :=
  (if negative then ['-'] else []) ++ (ds ++ ((if pointed then ['.'] else []) ++ es))

def behindPoint (cs : List Char) : List Char :=
  (cs.dropWhile (· ≠ '.')).tail

theorem filter_numberText (hds : ∀ c ∈ ds, c.isDigit = true) (hes : ∀ c ∈ es, c.isDigit = true) :
    (numberText negative pointed ds es).filter Char.isDigit = ds ++ es := by
  have hsign : (if negative then ['-'] else []).filter Char.isDigit = [] := by
    cases negative <;> rfl
  have hpoint : (if pointed then ['.'] else []).filter Char.isDigit = [] := by
    cases pointed <;> rfl
  simp only [numberText, List.filter_append, hsign, hpoint, List.filter_eq_self.mpr hds,
    List.filter_eq_self.mpr hes, List.nil_append]

theorem not_mem_of_isDigit {c : Char} (hc : c.isDigit = false) (hds : ∀ c ∈ ds, c.isDigit = true) :
    c ∉ ds := fun hmem => by
  simpa [hc] using hds c hmem

theorem minus_mem_numberText_iff (hds : ∀ c ∈ ds, c.isDigit = true)
    (hes : ∀ c ∈ es, c.isDigit = true) :
    '-' ∈ numberText negative pointed ds es ↔ negative = true := by
  have hds := not_mem_of_isDigit (c := '-') rfl hds
  have hes := not_mem_of_isDigit (c := '-') rfl hes
  cases negative <;> cases pointed <;> simp [numberText, hds, hes]

theorem point_mem_numberText_iff (hds : ∀ c ∈ ds, c.isDigit = true)
    (hes : ∀ c ∈ es, c.isDigit = true) :
    '.' ∈ numberText negative pointed ds es ↔ pointed = true := by
  have hds := not_mem_of_isDigit (c := '.') rfl hds
  have hes := not_mem_of_isDigit (c := '.') rfl hes
  cases negative <;> cases pointed <;> simp [numberText, hds, hes]

theorem behindPoint_append {cs : List Char} (h : '.' ∉ cs) (ds : List Char) :
    behindPoint (cs ++ '.' :: ds) = ds := by
  have hcs : ∀ c ∈ cs, decide (c ≠ '.') = true := by
    rintro c hc
    exact decide_eq_true fun heq => h (by rwa [← heq])
  rw [behindPoint, List.dropWhile_append_of_pos hcs]
  simp

theorem behindPoint_numberText (hds : ∀ c ∈ ds, c.isDigit = true) :
    behindPoint (numberText negative true ds es) = es := by
  have hfront : '.' ∉ (if negative then ['-'] else []) ++ ds := by
    have hds := not_mem_of_isDigit (c := '.') rfl hds
    cases negative <;> simp [hds]
  have htext : numberText negative true ds es =
      ((if negative then ['-'] else []) ++ ds) ++ '.' :: es := by
    simp [numberText]
  rw [htext, behindPoint_append hfront]

end

namespace NumberParts

variable {p : NumberParts}

theorem toList_join_optional (o : Option Token) :
    (Token.join o.toList).toList = o.elim [] (·.text.toList) := by
  cases o with
  | none => rfl
  | some t => rw [Option.toList_some, Token.join_singleton, Option.elim_some]

theorem IsWritten.toList_join (h : p.IsWritten) : (Token.join p.leaves).toList =
    numberText p.minus.isSome p.dot.isSome p.digits p.places := by
  have hsign : p.minus.elim [] (·.text.toList) = if p.minus.isSome then ['-'] else [] := by
    cases hp : p.minus with
    | none => rfl
    | some t =>
        have hshape := h.shapes t (by simp [leaves, hp])
        rw [h.isNumber.kinds.1 t hp] at hshape
        exact hshape
  have hpoint : p.dot.elim [] (·.text.toList) = if p.dot.isSome then ['.'] else [] := by
    cases hp : p.dot with
    | none => rfl
    | some t =>
        have hshape := h.shapes t (by simp [leaves, hp])
        rw [h.isNumber.kinds.2.2.1 t hp] at hshape
        exact hshape
  rw [leaves, Token.join_append, Token.join_append, Token.join_append, String.toList_append,
    String.toList_append, String.toList_append, toList_join_optional, toList_join_optional,
    toList_join_optional, toList_join_optional, hsign, hpoint, List.append_assoc, List.append_assoc]
  rfl

theorem IsWritten.isDigit_digits (h : p.IsWritten) : ∀ c ∈ p.digits, c.isDigit = true := by
  unfold digits
  cases hp : p.integer with
  | none => nofun
  | some t => exact (h.isRun (by simp [leaves, hp]) (h.isNumber.kinds.2.1 t hp)).2

theorem IsWritten.isDigit_places (h : p.IsWritten) : ∀ c ∈ p.places, c.isDigit = true := by
  unfold places
  cases hp : p.fraction with
  | none => nofun
  | some t => exact (h.isRun (by simp [leaves, hp]) (h.isNumber.kinds.2.2.2 t hp)).2

theorem IsWritten.places_eq_nil (h : p.IsWritten) (hdot : p.dot = none) : p.places = [] := by
  cases h.isNumber with
  | whole => rfl
  | decimal => cases hdot
  | fraction => cases hdot

end NumberParts

/-- The second text is the first with zeros in front of its digits, and behind them if it has a
point. -/
def IsPadded (cs ds : List Char) : Prop :=
  ∃ sign body j k, (sign = [] ∨ sign = ['-']) ∧ ('.' ∈ body ∨ k = 0) ∧ cs = sign ++ body ∧
    ds = sign ++ (List.replicate j '0' ++ (body ++ List.replicate k '0'))

namespace IsPadded

variable {cs ds : List Char}

theorem mem_iff (h : IsPadded cs ds) {c : Char} (hc : c ≠ '0') : c ∈ ds ↔ c ∈ cs := by
  obtain ⟨sign, body, j, k, -, -, rfl, rfl⟩ := h
  simp [List.mem_replicate, hc]

theorem exists_zeros (h : IsPadded cs ds) : ∃ j k,
    ds.filter Char.isDigit =
      List.replicate j '0' ++ (cs.filter Char.isDigit ++ List.replicate k '0') ∧
    ('.' ∈ cs ∧ behindPoint ds = behindPoint cs ++ List.replicate k '0' ∨ '.' ∉ cs ∧ k = 0) := by
  obtain ⟨sign, body, j, k, hsign, hk, rfl, rfl⟩ := h
  have hdigits : sign.filter Char.isDigit = [] := by
    rcases hsign with rfl | rfl <;> rfl
  have hpoint : '.' ∉ sign := by
    rcases hsign with rfl | rfl <;> decide
  have hzeros (n : Nat) : (List.replicate n '0').filter Char.isDigit = List.replicate n '0' :=
    List.filter_replicate_of_pos rfl
  refine ⟨j, k, by simp only [List.filter_append, hdigits, hzeros, List.nil_append], ?_⟩
  by_cases hbody : '.' ∈ body
  · obtain ⟨front, back, rfl, hfront⟩ := List.eq_append_cons_of_mem hbody
    have hleft : '.' ∉ sign ++ front := by simp [hpoint, hfront]
    have hright : '.' ∉ sign ++ (List.replicate j '0' ++ front) := by
      simp [hpoint, hfront, List.mem_replicate]
    have hcs := behindPoint_append hleft back
    have hds := behindPoint_append hright (back ++ List.replicate k '0')
    simp only [List.append_assoc, List.cons_append] at hcs hds ⊢
    exact .inl ⟨by simp, by rw [hcs, hds]⟩
  · exact .inr ⟨by simp [hpoint, hbody], hk.resolve_left hbody⟩

end IsPadded

namespace NumberParts

theorem ofDigitChars_padded (j k : Nat) (cs : List Char) :
    Nat.ofDigitChars 10 (List.replicate j '0' ++ (cs ++ List.replicate k '0')) 0 =
      Nat.ofDigitChars 10 cs 0 * 10 ^ k := by
  simp only [← Text.decimalValue_eq_ofDigitChars]
  rw [Text.decimalValue_replicate_zero, Text.decimalValue_append, List.length_replicate]
  simpa using Text.decimalValue_replicate_zero k []

theorem IsWritten.exists_places {p p' : NumberParts} (h : p.IsWritten) (h' : p'.IsWritten)
    (hpadded : IsPadded (Token.join p.leaves).toList (Token.join p'.leaves).toList) :
    p'.minus.isSome = p.minus.isSome ∧ p'.dot.isSome = p.dot.isSome ∧
      ∃ k, (p.dot = none → k = 0) ∧ p'.places.length = p.places.length + k ∧
        Nat.ofDigitChars 10 (p'.digits ++ p'.places) 0 =
          Nat.ofDigitChars 10 (p.digits ++ p.places) 0 * 10 ^ k := by
  rw [h.toList_join, h'.toList_join] at hpadded
  have hminus := hpadded.mem_iff (c := '-') (by decide)
  have hpoint := hpadded.mem_iff (c := '.') (by decide)
  obtain ⟨j, k, hdigits, hplaces⟩ := hpadded.exists_zeros
  rw [minus_mem_numberText_iff h'.isDigit_digits h'.isDigit_places,
    minus_mem_numberText_iff h.isDigit_digits h.isDigit_places, ← Bool.eq_iff_iff] at hminus
  rw [point_mem_numberText_iff h'.isDigit_digits h'.isDigit_places,
    point_mem_numberText_iff h.isDigit_digits h.isDigit_places, ← Bool.eq_iff_iff] at hpoint
  rw [filter_numberText h'.isDigit_digits h'.isDigit_places,
    filter_numberText h.isDigit_digits h.isDigit_places] at hdigits
  rw [point_mem_numberText_iff h.isDigit_digits h.isDigit_places] at hplaces
  refine ⟨hminus, hpoint, k, ?_, ?_, by rw [hdigits, ofDigitChars_padded]⟩
  · intro hdot
    rcases hplaces with ⟨hsome, -⟩ | ⟨-, hk⟩
    · simp [hdot] at hsome
    · exact hk
  · rcases hplaces with ⟨hsome, hbehind⟩ | ⟨hnone, rfl⟩
    · rw [hpoint, hsome, behindPoint_numberText h'.isDigit_digits,
        behindPoint_numberText h.isDigit_digits] at hbehind
      rw [hbehind, List.length_append, List.length_replicate]
    · have hdot : p.dot = none := Option.not_isSome_iff_eq_none.mp hnone
      have hdot' : p'.dot = none := Option.not_isSome_iff_eq_none.mp (by rwa [hpoint])
      rw [h.places_eq_nil hdot, h'.places_eq_nil hdot']
      rfl

theorem IsReadAs.eq_integer {p : NumberParts} {v : Value} {raw : List String}
    (h : p.IsReadAs v raw) (hform : p.minus = none ∧ p.dot = none) :
    v = .integer (Nat.ofDigitChars 10 p.digits 0 : ℕ) := by
  obtain ⟨n, rfl⟩ := h.integer_iff.mpr hform
  rw [h.integer n rfl]

theorem IsReadAs.eq_of_isPadded {p p' : NumberParts} (hp : p.IsWritten) (hp' : p'.IsWritten)
    {v v' : Value} {raw raw' : List String} (h : p.IsReadAs v raw) (h' : p'.IsReadAs v' raw')
    (hpadded : IsPadded (String.join raw).toList (String.join raw').toList) : v' = v := by
  rw [h.join_raw, h'.join_raw] at hpadded
  obtain ⟨hminus, hdot, k, hk, hlength, hvalue⟩ := hp.exists_places hp' hpadded
  have hnone {o o' : Option Token} (ho : o'.isSome = o.isSome) : o' = none ↔ o = none := by
    rw [← Option.not_isSome_iff_eq_none, ← Option.not_isSome_iff_eq_none, ho]
  by_cases hform : p.minus = none ∧ p.dot = none
  · have hform' : p'.minus = none ∧ p'.dot = none := by
      rwa [hnone hminus, hnone hdot]
    rw [hp.places_eq_nil hform.2, hp'.places_eq_nil hform'.2, hk hform.2] at hvalue
    rw [h.eq_integer hform, h'.eq_integer hform']
    simpa using hvalue
  · have hor : p.minus ≠ none ∨ p.dot ≠ none := not_and_or.mp hform
    obtain ⟨q, rfl, -, hq⟩ := h.rational hor
    obtain ⟨q', rfl, -, hq'⟩ := h'.rational (by rwa [Ne, hnone hminus, Ne, hnone hdot])
    have hpow : (10 : ℚ) ^ (p.places.length + k) ≠ 0 := pow_ne_zero _ (by decide)
    have hscaled : q' * 10 ^ (p.places.length + k) = q * 10 ^ (p.places.length + k) := by
      rw [← hlength, hq', hlength, pow_add, ← mul_assoc, hq, signed_mul, hminus, hvalue]
      push_cast
      rfl
    rw [mul_right_cancel₀ hpow hscaled]

end NumberParts

def Value.IsNumeric : Value → Prop
  | .string _ => False
  | _ => True

/-- The text that the field covers is its letters and the parts of a number, and its value is what
these are read as. -/
def Field.IsReadExactly (source : String) (f : Field) : Prop :=
  ∃ p : NumberParts, p.IsWritten ∧ f.span.slice? source = some (f.letters ++ Token.join p.leaves) ∧
    p.IsReadAs f.value f.raw

namespace Numeral

theorem length_le_of_hasShortRuns {n : Numeral} (h : n.HasShortRuns) :
    ∀ l ∈ n.lexemes, l.kind = .integer → l.chars.length ≤ Text.maxDigits := by
  cases n with
  | whole negative ds =>
      cases negative <;> simpa [lexemes, sign, minusSign, run, HasShortRuns] using h
  | decimal negative ds es =>
      by_cases hnil : es = [] <;> cases negative <;>
        simp [lexemes, sign, minusSign, run, point, places, hnil, h.1, h.2]
  | fraction negative es =>
      cases negative <;> simpa [lexemes, sign, minusSign, run, point, HasShortRuns] using h

theorem isWritten_parts {n : Numeral} (hshapes : n.HasShapes) (hruns : n.HasShortRuns) (m : Mark) :
    (n.parts m).IsWritten := by
  have hlexeme {t : Token} (ht : t ∈ (n.parts m).leaves) : t.lexeme ∈ n.lexemes := by
    rw [← map_lexeme_placed m n.lexemes, ← leaves_parts]
    exact List.mem_map_of_mem ht
  exact ⟨isNumber_parts m n, fun t ht => hshapes _ (hlexeme ht),
    fun t ht => length_le_of_hasShortRuns hruns _ (hlexeme ht)⟩

end Numeral

theorem Phrase.isReadExactly_item {p : Phrase} (hshapes : p.HasShapes) (hread : p.IsReadable)
    {source : String} {front back : List Char} (h : source.toList = front ++ (p.chars ++ back))
    {f : Field} (hf : p.item (Text.utf8Length front) = .field f) (hnumeric : f.value.IsNumeric) :
    f.IsReadExactly source := by
  cases p with
  | trivia => cases hf
  | checksum => cases hf
  | literal =>
      cases hf
      exact hnumeric.elim
  | number letters n =>
      cases hf
      have hn : n.HasShapes := fun l hl => hshapes l (by simp [lexemes, hl])
      have hwritten := n.isWritten_parts hn hread.shortRuns Stream.origin
      obtain ⟨v, hv, hreads⟩ := hwritten.isReadAs
      obtain ⟨rfl, htexts⟩ := Prod.mk.inj ((Numeral.read_parts hn).mp hv).2
      refine ⟨_, hwritten, ?_, by rwa [htexts] at hreads⟩
      rw [Numeral.leaves_parts, join_placed, ← String.ofList_append]
      exact Span.slice?_ofSize h

theorem Field.isReadExactly_of_parseLine {source : String} {l : Line Item}
    (h : parseLine source = .ok l) {f : Field} (hf : .field f ∈ l.items)
    (hnumeric : f.value.IsNumeric) : f.IsReadExactly source := by
  obtain ⟨ps, hps, hread, hsource, rfl⟩ := parseLine_eq_ok_iff.mp h
  have hwhole : source.toList = [] ++ (Lexeme.text (Phrase.allLexemes ps) ++ []) := by
    simpa using hsource
  obtain ⟨p, hp, before, after, hplace, hitem⟩ := Phrase.exists_of_mem_items hwhole _ hf
  exact Phrase.isReadExactly_item (hps.shapes p hp) (hread p hp) hplace hitem.symm hnumeric

/-- Numbers are read exactly and by their form: whatever parts the grammar allows, and so in every
line, where the text of a number alone decides its value and zeros at the ends of its digits do not
change it. -/
theorem numbers_are_read_exactly :
    (∀ p : NumberParts, p.IsWritten → ∃ v raw, p.read = .ok (v, raw) ∧ p.IsReadAs v raw) ∧
      (∀ source l, parseLine source = .ok l → ∀ f, .field f ∈ l.items → f.value.IsNumeric →
        f.IsReadExactly source) ∧
      ∀ source source' l l', parseLine source = .ok l → parseLine source' = .ok l' →
        ∀ f f', .field f ∈ l.items → .field f' ∈ l'.items →
          f.value.IsNumeric → f'.value.IsNumeric →
          IsPadded (String.join f.raw).toList (String.join f'.raw).toList → f'.value = f.value := by
  refine ⟨fun p hp => ?_, fun source l hl f hf hnumeric =>
    Field.isReadExactly_of_parseLine hl hf hnumeric, ?_⟩
  · obtain ⟨v, hread, hreads⟩ := hp.isReadAs
    exact ⟨v, p.texts, hread, hreads⟩
  · intro source source' l l' hl hl' f f' hf hf' hnumeric hnumeric' hpadded
    obtain ⟨p, hp, -, hreads⟩ := Field.isReadExactly_of_parseLine hl hf hnumeric
    obtain ⟨p', hp', -, hreads'⟩ := Field.isReadExactly_of_parseLine hl' hf' hnumeric'
    exact hreads.eq_of_isPadded hp hp' hreads' hpadded

theorem numbers_are_read_exactly_padded :
    let p : NumberParts := ⟨some (.ofText .minus "-" 1 1 2), none, some (.ofText .dot "." 2 1 3),
      some (.ofText .integer "05" 3 1 4)⟩
    let f : Field := ⟨"X", .rational (-25 / 2), ["-", "12", ".", "5"], .ofSize 0 6⟩
    let f' : Field := ⟨"Y", .rational (-25 / 2), ["-", "0012", ".", "50"], .ofSize 0 9⟩
    p.IsWritten ∧ (∃ v raw, p.read = .ok (v, raw) ∧ p.IsReadAs v raw) ∧
      ∃ l l', parseLine "X-12.5" = .ok l ∧ .field f ∈ l.items ∧ f.IsReadExactly "X-12.5" ∧
        parseLine "Y-0012.50" = .ok l' ∧ .field f' ∈ l'.items ∧
        IsPadded (String.join f.raw).toList (String.join f'.raw).toList ∧ f'.value = f.value := by
  intro p f f'
  have hp : p.IsWritten :=
    ⟨.fraction (by decide) rfl rfl, by decide, by decide⟩
  obtain ⟨l, hl, hf⟩ : ∃ l, parseLine "X-12.5" = .ok l ∧ .field f ∈ l.items :=
    ⟨_, parseLine_eq_ok_iff.mpr ⟨[.number ['X'] (.decimal true ['1', '2'] ['5'])], by decide,
      by decide, by decide, rfl⟩, by decide +kernel⟩
  obtain ⟨l', hl', hf'⟩ : ∃ l, parseLine "Y-0012.50" = .ok l ∧ .field f' ∈ l.items :=
    ⟨_, parseLine_eq_ok_iff.mpr ⟨[.number ['Y'] (.decimal true ['0', '0', '1', '2'] ['5', '0'])],
      by decide, by decide, by decide, rfl⟩, by decide +kernel⟩
  have hpadded : IsPadded (String.join f.raw).toList (String.join f'.raw).toList :=
    ⟨['-'], ['1', '2', '.', '5'], 2, 1, .inr rfl, .inl (by decide), by decide, by decide⟩
  exact ⟨hp, numbers_are_read_exactly.1 p hp, l, l', hl, hf,
    numbers_are_read_exactly.2.1 _ l hl f hf trivial, hl', hf', hpadded,
    numbers_are_read_exactly.2.2 _ _ l l' hl hl' f f' hf hf' trivial trivial hpadded⟩

end NcProgram
