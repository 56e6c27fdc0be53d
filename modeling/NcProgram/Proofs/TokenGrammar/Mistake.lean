import NcProgram.Proofs.TokenGrammar.Acceptance

/-!
Where reading fails. A step fails only behind tokens that a word of its grammar begins with, so the
token it stops at is the first that does not fit. The mistake is told at that token; a field without
a value is told at its letters instead.
-/

namespace NcProgram

open Computability

namespace TokenGrammar

open Reader Parse

/-- Where a fault is told, by the tokens passed and the current one. -/
inductive Blames (passed : List Token) (current : Token) : Fault → Prop where
  | current {c : Complaint} : (∀ letters, c ≠ .fieldWithoutValue letters) →
      Blames passed current (.atToken .grammar c current)
  | letters {front : List Token} {t : Token} : passed = front ++ [t] → t.kind = .letters →
      Blames passed current (.atToken .grammar (.fieldWithoutValue t.text) t)

/-- Reading stopped with the fault behind tokens that a word of the language begins with. -/
def StuckIn (L : Language TokenKind) (r : Reader) (e : Fault) (r' : Reader) : Prop :=
  ∃ ts w, Passes r ts r' ∧ ts.map Token.kind ++ w ∈ L ∧ Blames ts r'.current e

section

variable {L M N : Language TokenKind} {r r₁ r' : Reader} {e : Fault} {ts : List Token}

theorem Blames.append {current : Token} (h : Blames ts current e) (us : List Token) :
    Blames (us ++ ts) current e := by
  cases h with
  | current hc => exact .current hc
  | letters heq hkind => exact .letters (by rw [heq, List.append_assoc]) hkind

theorem StuckIn.mono (h : StuckIn L r e r') (hle : L ≤ M) : StuckIn M r e r' := by
  obtain ⟨ts, w, p, hw, hblames⟩ := h
  exact ⟨ts, w, p, hle hw, hblames⟩

theorem StuckIn.after (h : StuckIn M r₁ e r') (p : Passes r ts r₁) (hts : ts.map Token.kind ∈ L)
    (hle : L * M ≤ N) : StuckIn N r e r' := by
  obtain ⟨us, w, q, hw, hblames⟩ := h
  refine ⟨ts ++ us, w, passes_append_iff.mpr ⟨r₁, p, q⟩, hle ?_, hblames.append ts⟩
  rw [List.map_append, List.append_assoc]
  exact Language.append_mem_mul hts hw

/-- Behind its tokens the word goes on, but not with the current token. -/
theorem stuckIn_behind {c : Complaint} {w : List TokenKind} (p : Passes r ts r')
    (hw : ts.map Token.kind ++ w ∈ L) (hc : ∀ letters, c ≠ .fieldWithoutValue letters) :
    StuckIn L r (.atToken .grammar c r'.current) r' :=
  ⟨ts, w, p, hw, .current hc⟩

theorem stuckIn_behind_all {c : Complaint} (p : Passes r ts r') (hts : ts.map Token.kind ∈ L)
    (hc : ∀ letters, c ≠ .fieldWithoutValue letters) :
    StuckIn L r (.atToken .grammar c r'.current) r' :=
  stuckIn_behind p (w := []) (by rwa [List.append_nil]) hc

theorem stuckIn_of_expectOr {complaint : Token → Complaint} {kind : TokenKind}
    (hr : r.failure = none) (h : expectOr complaint kind r = .error e r') {w : List TokenKind}
    (hw : w ∈ L) (hc : ∀ t letters, complaint t ≠ .fieldWithoutValue letters) : StuckIn L r e r' := by
  obtain ⟨rfl, rfl⟩ := expectOr_eq_error hr h
  exact stuckIn_behind (.nil _) hw (hc _)

section

variable {letters : Token} {minus : Option Token}

theorem letters_integer_mem_field : [.letters] ++ [.integer] ∈ field :=
  .inl (.inl (.inl (.inl (Language.append_mem_mul (mem_symbol .letters) (mem_symbol .integer)))))

theorem mem_field_of_integer (hletters : letters.kind = .letters)
    (hminus : ∀ t ∈ minus, t.kind = .minus) :
    (letters :: minus.toList).map Token.kind ++ [.integer] ∈ field := by
  cases minus with
  | none => simpa [hletters] using letters_integer_mem_field
  | some t =>
      have hword : [.letters] ++ ([.minus] ++ [.integer]) ∈ field := .inl (.inl (.inl (.inr
        (Language.append_mem_mul (mem_symbol .letters)
          (Language.append_mem_mul (mem_symbol .minus) (mem_symbol .integer))))))
      simpa [hletters, hminus t rfl] using hword

theorem mem_field_of_dot_integer (hletters : letters.kind = .letters)
    (hminus : ∀ t ∈ minus, t.kind = .minus) {dot : Token} (hdot : dot.kind = .dot) :
    (letters :: minus.toList ++ [dot]).map Token.kind ++ [.integer] ∈ field := by
  have hsign := map_kind_mem_optional_symbol_iff.mpr ⟨minus, rfl, hminus⟩
  have hword : [.letters] ++ (minus.toList.map Token.kind ++ ([.dot] ++ [.integer])) ∈ field :=
    .inl (.inr (Language.append_mem_mul (mem_symbol .letters) (Language.append_mem_mul hsign
      (Language.append_mem_mul (mem_symbol .dot) (mem_symbol .integer)))))
  simpa [hletters, hdot] using hword

end

theorem field_stuck (hr : r.failure = none) (h : Parse.field r = .error e r') :
    StuckIn field r e r' := by
  rw [Parse.field, bind_eq_error_iff] at h
  rcases h with h | ⟨letters, r₁, hfirst, h₁⟩
  · exact stuckIn_of_expectOr hr h letters_integer_mem_field (by simp)
  obtain ⟨hletters, p₁⟩ := (expect_eq_ok_iff (by decide)).mp hfirst
  obtain ⟨literal, r₂, -, p₂, hr₂, h₂⟩ :=
    take?_bind_eq_error (by decide) (p₁.failure_eq.trans hr) h₁
  cases literal with
  | some _ => cases h₂
  | none =>
      obtain rfl := passes_nil_iff.mp p₂
      obtain ⟨minus, r₃, hminus, p₃, hr₃, h₃⟩ := take?_bind_eq_error (by decide) hr₂ h₂
      have p : Passes r (letters :: minus.toList) r₃ := passes_append_iff.mpr ⟨r₂, p₁, p₃⟩
      obtain ⟨integer, r₄, -, p₄, hr₄, h₄⟩ := take?_bind_eq_error (by decide) hr₃ h₃
      cases integer with
      | some _ =>
          -- a number that has digits in front of its point is never at fault
          obtain ⟨dot, r₅, -, -, hr₅, h₅⟩ := take?_bind_eq_error (by decide) hr₄ h₄
          cases dot with
          | none => cases h₅
          | some _ =>
              obtain ⟨_, _, _, _, _, h₆⟩ := take?_bind_eq_error (by decide) hr₅ h₅
              cases h₆
      | none =>
          obtain rfl := passes_nil_iff.mp p₄
          obtain ⟨dot, r₅, hdot, p₅, hr₅, h₅⟩ := take?_bind_eq_error (by decide) hr₄ h₄
          cases dot with
          | some dot =>
              rcases bind_eq_error_iff.mp h₅ with hdigits | ⟨_, _, _, h₆⟩
              · obtain ⟨rfl, rfl⟩ := expectOr_eq_error hr₅ hdigits
                exact stuckIn_behind (passes_append_iff.mpr ⟨r₄, p, p₅⟩)
                  (mem_field_of_dot_integer hletters hminus (hdot dot rfl)) (by simp)
              · cases h₆
          | none =>
              obtain rfl := passes_nil_iff.mp p₅
              have hword := mem_field_of_integer hletters hminus
              cases minus with
              | some minus =>
                  cases h₅
                  exact stuckIn_behind p hword (by simp)
              | none =>
                  cases h₅
                  exact ⟨_, _, p, hword, .letters (List.nil_append _).symm hletters⟩

theorem checksum_stuck (hr : r.failure = none) (h : Parse.checksum r = .error e r') :
    StuckIn checksum r e r' := by
  rw [Parse.checksum, bind_eq_error_iff] at h
  rcases h with h | ⟨star, r₁, h₁, h⟩
  · exact stuckIn_of_expectOr hr h (w := [.star] ++ [.integer])
      (Language.append_mem_mul (mem_symbol .star) (mem_symbol .integer)) (by simp)
  obtain ⟨hkind, p₁⟩ := (expect_eq_ok_iff (by decide)).mp h₁
  rw [bind_eq_error_iff] at h
  rcases h with h | ⟨_, _, _, h⟩
  · obtain ⟨rfl, rfl⟩ := expectOr_eq_error (p₁.failure_eq.trans hr) h
    have hstar : [star].map Token.kind ∈ symbol .star :=
      map_kind_mem_symbol_iff.mpr ⟨star, rfl, hkind⟩
    exact stuckIn_behind p₁ (Language.append_mem_mul hstar (mem_symbol .integer)) (by simp)
  · cases h

theorem partWords_le_rest {s : Parse.Seen} {a : Part} (h : s.Allows a) : partWords a ≤ rest s :=
  (le_mul_of_one_le_right' (one_le_rest _)).trans (partWords_mul_rest_le h)

theorem lineItem_stuck {seen : Parse.Seen} (hr : r.failure = none)
    (h : lineItem seen r = .error e r') : StuckIn (rest seen) r e r' := by
  have hhere {c : Complaint} (hc : ∀ letters, c ≠ .fieldWithoutValue letters) :
      StuckIn (rest seen) r (.atToken .grammar c r.current) r :=
    stuckIn_behind_all (.nil r) (one_le_rest seen rfl) hc
  have hexpect {kind : TokenKind} (h : expect kind r = .error e r') : StuckIn (rest seen) r e r' :=
    stuckIn_of_expectOr hr h (one_le_rest seen rfl) (by simp)
  unfold lineItem at h
  split at h
  · exact hexpect (map_eq_error_iff.mp h)
  · exact hexpect (map_eq_error_iff.mp h)
  · split at h
    · cases h
      exact hhere (by simp)
    next hseen =>
      have hallows : seen.Allows .field := by simpa [Parse.Seen.Allows] using hseen
      exact (field_stuck hr (map_eq_error_iff.mp h)).mono (partWords_le_rest hallows)
  · split at h
    · cases h
      exact hhere (by simp)
    next hchecksum =>
      split at h
      · cases h
        exact hhere (by simp)
      next hcomment =>
        have hallows : seen.Allows .checksum := ⟨by simpa using hchecksum, by simpa using hcomment⟩
        exact (checksum_stuck hr (map_eq_error_iff.mp h)).mono (partWords_le_rest hallows)
  · exact hexpect (map_eq_error_iff.mp h)
  · cases h
    exact hhere (by simp)

theorem lineItems_stuck {seen : Parse.Seen} (hr : r.failure = none)
    (h : lineItems seen r = .error e r') : StuckIn (rest seen) r e r' := by
  fun_induction lineItems seen r generalizing r' with
  | case1 => cases h
  | case2 seen r hends e₁ r₁ h₁ =>
      cases h
      exact lineItem_stuck hr h₁
  | case3 seen r hends t r₁ h₁ e₂ r₂ h₂ ih =>
      cases h
      obtain ⟨ht, hallows, -, p⟩ := lineItem_eq_ok_iff.mp h₁
      refine (ih (p.failure_eq.trans hr) h₂).after p (mem_partWords_iff.mpr ⟨t, ht, rfl, rfl⟩) ?_
      rw [Parse.Seen.add_eq_after]
      exact partWords_mul_rest_le hallows
  | case4 => cases h

theorem line_stuck (hr : r.failure = none) (h : Parse.line r = .error e r') :
    StuckIn (line comment∗) r e r' := by
  rw [line_eq] at h
  split at h
  · cases h
  next hitems =>
    cases h
    exact lineItems_stuck hr hitems

theorem linesFrom_stuck (hr : r.failure = none) (h : linesFrom r = .error e r') :
    StuckIn (lines comment∗) r e r' := by
  fun_induction linesFrom r generalizing r' with
  | case1 r e₁ r₁ h₁ =>
      cases h
      exact (line_stuck hr h₁).mono (line_le_lines _)
  | case2 r first r₁ h₁ e₂ r₂ h₂ =>
      have p := (line_eq_ok_iff.mp h₁).2.1
      exact absurd h₂ (take?_ne_error (p.failure_eq.trans hr))
  | case3 => cases h
  | case4 r first r₁ h₁ terminator r₂ h₂ e₃ r₃ h₃ ih =>
      cases h
      obtain ⟨hline, p₁, -⟩ := line_eq_ok_iff.mp h₁
      obtain ⟨hkind, p₂, -⟩ := (take?_eq_ok_iff (by decide)).mp h₂
      have p := passes_append_iff.mpr ⟨r₁, p₁, p₂⟩
      refine (ih (p.failure_eq.trans hr) h₃).after p ?_ (terminated_mul_lines_le _)
      exact map_kind_mem_mul_iff.mpr ⟨_, _, rfl, (mem_line_iff r₁.current).mpr ⟨first, hline, rfl⟩,
        map_kind_mem_symbol_iff.mpr ⟨terminator, rfl, hkind terminator rfl⟩⟩
  | case5 => cases h

theorem onlyLine_stuck (hr : r.failure = none) (h : onlyLine r = .error e r') :
    StuckIn (line comment∗) r e r' := by
  rw [onlyLine, bind_eq_error_iff] at h
  rcases h with h | ⟨t, r₁, h₁, h⟩
  · exact line_stuck hr h
  obtain ⟨hline, p, -⟩ := line_eq_ok_iff.mp h₁
  rw [bind_eq_error_iff] at h
  rcases h with h | ⟨_, _, _, h⟩
  · obtain ⟨rfl, rfl⟩ := expectEnd_eq_error h
    exact stuckIn_behind_all p ((mem_line_iff r'.current).mpr ⟨t, hline, rfl⟩) (by simp)
  · cases h

theorem lines_stuck (hr : r.failure = none) (h : Parse.lines r = .error e r') :
    StuckIn (lines comment∗) r e r' := by
  rw [lines_eq] at h
  split at h
  · cases h
  next hlines =>
    cases h
    exact linesFrom_stuck hr hlines

theorem mem_lines_of_lines {t : LinesTree} {last : LineTree}
    (h : Parse.lines r = .ok (t, last) r') :
    ∃ ts, Passes r ts r' ∧ ts.map Token.kind ∈ lines comment∗ := by
  obtain ⟨hlines, -⟩ := lines_eq_ok_iff.mp h
  obtain ⟨hpairs, hlast, p, -⟩ := linesFrom_eq_ok_iff.mp hlines
  exact ⟨_, p, (mem_lines_iff r'.current).mpr ⟨_, _, hpairs, hlast, rfl⟩⟩

theorem snippet_stuck (hr : r.failure = none) (h : snippet r = .error e r') :
    StuckIn (lines comment∗) r e r' := by
  rw [snippet, bind_eq_error_iff] at h
  rcases h with h | ⟨_, _, hget, h⟩
  · cases h
  obtain ⟨rfl, rfl⟩ := get_eq_ok_iff.mp hget
  rw [bind_eq_error_iff] at h
  rcases h with h | ⟨⟨t, last⟩, r₁, h₁, h⟩
  · exact lines_stuck hr h
  obtain ⟨ts, p, hts⟩ := mem_lines_of_lines h₁
  rw [bind_eq_error_iff] at h
  rcases h with h | ⟨_, _, _, h⟩
  · obtain ⟨rfl, rfl⟩ := expectEnd_eq_error h
    exact stuckIn_behind_all p hts (by simp)
  · cases h

theorem file_stuck (hr : r.failure = none) (h : file r = .error e r') :
    StuckIn (rule comment∗ .file) r e r' := by
  have hclosed : optional (symbol .percent) * lines comment∗ ≤ rule comment∗ .file :=
    mul_le_mul_right (le_mul_of_one_le_right' (one_le_optional _)) _
  rw [file, bind_eq_error_iff] at h
  rcases h with h | ⟨_, _, hget, h⟩
  · cases h
  obtain ⟨rfl, rfl⟩ := get_eq_ok_iff.mp hget
  obtain ⟨opening, r₁, hopening, p₁, hr₁, h⟩ := take?_bind_eq_error (by decide) hr h
  have hfirst := map_kind_mem_optional_symbol_iff.mpr ⟨opening, rfl, hopening⟩
  rcases bind_eq_error_iff.mp h with h | ⟨⟨t, last⟩, r₂, h₂, h⟩
  · exact (lines_stuck hr₁ h).after p₁ hfirst hclosed
  obtain ⟨ts, p₂, hts⟩ := mem_lines_of_lines h₂
  obtain ⟨close, r₃, hclose, p₃, hr₃, h⟩ :=
    take?_bind_eq_error (by decide) (p₂.failure_eq.trans hr₁) h
  have hlast := map_kind_mem_optional_symbol_iff.mpr ⟨close, rfl, hclose⟩
  rcases bind_eq_error_iff.mp h with h | ⟨_, _, _, h⟩
  · obtain ⟨rfl, rfl⟩ := expectEnd_eq_error h
    refine stuckIn_behind_all (passes_append_iff.mpr ⟨r₁, p₁, passes_append_iff.mpr
      ⟨r₂, p₂, p₃⟩⟩) ?_ (by simp)
    exact map_kind_mem_mul_iff.mpr ⟨_, _, rfl, hfirst, map_kind_mem_mul_iff.mpr
      ⟨_, _, rfl, hts, hlast⟩⟩
  · cases h

theorem rule_stuck {k : Rule} (hr : r.failure = none) (h : Parse.rule k r = .error e r') :
    StuckIn (rule comment∗ k) r e r' := by
  cases k with
  | file => exact file_stuck hr (map_eq_error_iff.mp (map_eq_error_iff.mp h))
  | snippet => exact snippet_stuck hr (map_eq_error_iff.mp (map_eq_error_iff.mp h))
  | line => exact onlyLine_stuck hr (map_eq_error_iff.mp h)

end

end TokenGrammar

end NcProgram
