import NcProgram.Proofs.TokenGrammar.Mistake

namespace NcProgram

open Computability

def Span.extent (s : Span) : Extent :=
  ⟨s.start, s.stop⟩

theorem Span.ofExtent?_eq_some_iff {x : Extent} {s : Span} :
    ofExtent? x = some s ↔ s.extent = x := by
  constructor
  · intro h
    unfold ofExtent? at h
    split at h
    next horder =>
      cases h
      simp only [extent, Int.toNat_of_nonneg horder.1, Int.toNat_of_nonneg (horder.1.trans horder.2)]
    · cases h
  · rintro rfl
    have horder : (0 : Int) ≤ s.start ∧ (s.start : Int) ≤ s.stop := by
      have := s.start_le_stop
      omega
    rw [ofExtent?, extent, dif_pos horder]
    rfl

/-- The mistake is told at the token, from its start to its end. -/
structure ProgramError.IsAt (e : ProgramError) (t : Token) : Prop where
  token : e.token = some t
  extent : e.span.extent = t.extent

theorem Fault.atToken_eq_program_iff {category : Category} {c : Complaint} {t : Token}
    {e : ProgramError} : atToken category c t = .program e ↔
      e.category = category ∧ e.complaint = c ∧ e.place = none ∧ e.IsAt t := by
  obtain ⟨category', c', span, place, token⟩ := e
  unfold atToken
  cases h : Span.ofExtent? t.extent with
  | none =>
      simp only [reduceCtorEq, false_iff]
      rintro ⟨-, -, -, -, hspan⟩
      rw [Span.ofExtent?_eq_some_iff.mpr hspan] at h
      cases h
  | some s =>
      constructor
      · rintro ⟨⟩
        exact ⟨rfl, rfl, rfl, rfl, Span.ofExtent?_eq_some_iff.mp h⟩
      · rintro ⟨rfl, rfl, rfl, rfl, hspan⟩
        rw [Span.ofExtent?_eq_some_iff.mpr hspan] at h
        cases h
        rfl

namespace TokenGrammar

open Reader Parse

variable {k : Rule} {ts us : List Token} {r : Reader} {n : Nat} {f : Fault} {e : ProgramError}

theorem kindsBeforeEnd_eq_map (h : ∀ t ∈ ts, t.kind ≠ .eof) :
    kindsBeforeEnd ts = ts.map Token.kind := by
  rw [kindsBeforeEnd, List.takeWhile_eq_self_iff.mpr (by simpa using h)]

theorem exists_accepts_append {w : List TokenKind} (h : ts.map Token.kind ++ w ∈ rule comment∗ k) :
    ∃ us, k.Accepts (ts ++ us) := by
  have hkinds : (ts ++ w.map (Token.ofText · "" 0 1 1)).map Token.kind =
      ts.map Token.kind ++ w := by
    simp [Function.comp_def, Token.ofText]
  refine ⟨w.map (Token.ofText · "" 0 1 1), (accepts_iff k).mpr ?_⟩
  rw [kindsBeforeEnd_eq_map, hkinds]
  · exact h
  · intro t ht
    exact rule_le_words k h t.kind (hkinds ▸ List.mem_map_of_mem ht)

theorem exists_hasPassed_of_error (h : Parse.rule k (.ofTokens ts) = .error f r) :
    ∃ n, r.HasPassed ts n ∧ (∃ us, k.Accepts (ts.take n ++ us)) ∧
      Blames (ts.take n) r.current f := by
  obtain ⟨us, w, p, hw, hblames⟩ := rule_stuck rfl h
  obtain ⟨hpassed, hus⟩ := hasPassed_of_passes p
  rw [hus] at hw hblames
  exact ⟨us.length, hpassed, exists_accepts_append hw, hblames⟩

/-- What a rule does is decided by the tokens it passed and the one it stopped at. -/
theorem error_of_same_start (h : Parse.rule k (.ofTokens ts) = .error f r) (hr : r.HasPassed ts n)
    (htake : us.take n = ts.take n) (hcurrent : us.getD n (.endAt r.lastEnd) = r.current) :
    Tree.ofStream k (.ofTokens us) = .error f := by
  obtain ⟨vs, hdecided⟩ := looksAhead_rule k (.ofTokens ts) rfl
  have p : Passes (.ofTokens ts) vs r := by simpa [h] using hdecided.passes
  obtain rfl : vs = ts.take n := List.append_cancel_right
    (p.ahead_eq.symm.trans (hasPassed_iff.mp hr).2.ahead_eq)
  obtain ⟨s, hs, hlast⟩ := hr.congr htake
  obtain ⟨-, q⟩ := hasPassed_iff.mp hs
  rw [htake] at q
  have hagain := hdecided.again q (by rw [h, hs.current, hlast]; exact hcurrent)
  rw [h] at hagain
  exact run_ofTokens_eq_error_iff.mpr ⟨s, hagain⟩

/-- The rule fails with the mistake when it stands before the token of the given number. The tokens
before that one begin a list that the rule reads, and every list that goes on with it fails alike.
The mistake is told at that token, or at the letters before it if these have no value. -/
structure FailsAt (k : Rule) (ts : List Token) (e : ProgramError) (n : Nat) (r : Reader) :
    Prop where
  stops : Parse.rule k (.ofTokens ts) = .error (.program e) r
  place : r.HasPassed ts n
  viable : ∃ us, k.Accepts (ts.take n ++ us)
  rejected : ∀ us, us.take n = ts.take n → us.getD n (.endAt r.lastEnd) = r.current →
    ¬ k.Accepts us
  same : ∀ us, us.take n = ts.take n → us.getD n (.endAt r.lastEnd) = r.current →
    Tree.ofStream k (.ofTokens us) = .error (.program e)
  category : e.category = .grammar
  told : match e.complaint with
    | .fieldWithoutValue letters => ∃ t, (ts.take n).getLast? = some t ∧ t.kind = .letters ∧
        t.text = letters ∧ e.IsAt t
    | _ => e.IsAt r.current

theorem FailsAt.at_place (h : FailsAt k ts e n r) {n' : Nat} {r' : Reader}
    (hstops : Parse.rule k (.ofTokens ts) = .error (.program e) r') (hplace : r'.HasPassed ts n') :
    FailsAt k ts e n' r' := by
  obtain rfl : r = r' := (EStateM.Result.error.inj (h.stops.symm.trans hstops)).2
  obtain rfl : n = n' := h.place.unique hplace
  exact h

theorem mistake_is_earliest {k : Rule} {ts : List Token} {e : ProgramError}
    (h : Tree.ofStream k (.ofTokens ts) = .error (.program e)) : ∃ n r, FailsAt k ts e n r := by
  obtain ⟨r, hstops⟩ := run_ofTokens_eq_error_iff.mp h
  obtain ⟨n, hplace, hviable, hblames⟩ := exists_hasPassed_of_error hstops
  have hsame {us : List Token} (htake : us.take n = ts.take n)
      (hcurrent : us.getD n (.endAt r.lastEnd) = r.current) :
      Tree.ofStream k (.ofTokens us) = .error (.program e) :=
    error_of_same_start hstops hplace htake hcurrent
  refine ⟨n, r, hstops, hplace, hviable, ?_, fun us => hsame, ?_, ?_⟩
  · rintro us htake hcurrent ⟨tree, htree⟩
    rw [hsame htake hcurrent] at htree
    cases htree
  · generalize hf : Fault.program e = f at hblames
    cases hblames with
    | current hc => exact (Fault.atToken_eq_program_iff.mp hf.symm).1
    | letters heq hkind => exact (Fault.atToken_eq_program_iff.mp hf.symm).1
  · generalize hf : Fault.program e = f at hblames
    cases hblames with
    | @current c hc =>
        obtain ⟨-, rfl, -, hat⟩ := Fault.atToken_eq_program_iff.mp hf.symm
        split
        next letters hcomplaint => exact absurd hcomplaint (hc letters)
        · exact hat
    | @letters front t heq hkind =>
        obtain ⟨-, hcomplaint, -, hat⟩ := Fault.atToken_eq_program_iff.mp hf.symm
        rw [hcomplaint]
        exact ⟨t, by rw [heq, List.getLast?_concat], hkind, rfl, hat⟩

/-- `G1*X` and `G1X`: a checksum without digits is told at the token that it stops at, and a field
without a value at its letters, which it has passed. -/
theorem mistake_is_earliest_behind_field :
    let g : Token := ⟨.letters, "G", 0, 1, 1, 1⟩
    let one : Token := ⟨.integer, "1", 1, 2, 1, 2⟩
    let star : Token := ⟨.star, "*", 2, 3, 1, 3⟩
    let x : Token := ⟨.letters, "X", 3, 4, 1, 4⟩
    let digits : ProgramError := ⟨.grammar, .expectedChecksumDigits, .ofSize 3 1, none, some x⟩
    let value : ProgramError := ⟨.grammar, .fieldWithoutValue "X", .ofSize 3 1, none, some x⟩
    (∃ r, r.current = x ∧ FailsAt .line [g, one, star, x] digits 3 r) ∧
      ∃ r, r.current.kind = .eof ∧ FailsAt .line [g, one, x] value 3 r := by
  intro g one star x digits value
  constructor
  · have hchecksum : lineItem ⟨false, false⟩ ⟨[star, x], none, 2⟩ =
        .error (.program digits) ⟨[x], none, 3⟩ := rfl
    have hitems : lineItems Seen.none (.ofTokens [g, one, star, x]) =
        .error (.program digits) ⟨[x], none, 3⟩ :=
      lineItems_error_of_rest rfl rfl (lineItems_error_of_item rfl hchecksum)
    have hstops := rule_line_error hitems
    obtain ⟨n, r, hfails⟩ := mistake_is_earliest (run_ofTokens_eq_error_iff.mpr ⟨_, hstops⟩)
    exact ⟨_, rfl, hfails.at_place hstops ⟨by decide, rfl, rfl, rfl, rfl, by decide⟩⟩
  · have hfield : lineItem ⟨false, false⟩ ⟨[x], none, 2⟩ =
        .error (.program value) ⟨[], none, 4⟩ := rfl
    have hitems : lineItems Seen.none (.ofTokens [g, one, x]) =
        .error (.program value) ⟨[], none, 4⟩ :=
      lineItems_error_of_rest rfl rfl (lineItems_error_of_item rfl hfield)
    have hstops := rule_line_error hitems
    obtain ⟨n, r, hfails⟩ := mistake_is_earliest (run_ofTokens_eq_error_iff.mpr ⟨_, hstops⟩)
    exact ⟨_, rfl, hfails.at_place hstops ⟨by decide, rfl, rfl, rfl, rfl, by decide⟩⟩

end TokenGrammar

end NcProgram
