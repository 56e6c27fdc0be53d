import NcProgram.Proofs.Lexeme.Failure
import NcProgram.Proofs.Script.Source
import NcProgram.Proofs.Tokenizing
import NcProgram.Proofs.TokenGrammar.Earliest

namespace NcProgram

open Computability

/-- The node that a text is by the given rule. -/
def Parsed.ofSource : Rule → String → Except Fault Parsed
  | .file, source => .document <$> parseFile source
  | .snippet, source => .document <$> parseSnippet source
  | .line, source => .line <$> parseLine source

theorem Parsed.ofSource_eq_ofStream (k : Rule) (source : String) :
    ofSource k source = ofStream k (.ofSource source) := by
  have hdocument (isSnippet : Bool) : Parsed.document <$> parseDocument isSnippet source =
      (Tree.document <$> (Parse.document isSnippet).run (.ofSource source)) >>= Tree.build := by
    unfold parseDocument
    cases (Parse.document isSnippet).run (.ofSource source) <;> rfl
  cases k with
  | file =>
      rw [ofSource, ofStream, Tree.ofStream, Parse.rule, Parse.run_map]
      exact hdocument false
  | snippet =>
      rw [ofSource, ofStream, Tree.ofStream, Parse.rule, Parse.run_map]
      exact hdocument true
  | line =>
      rw [ofSource, ofStream, Tree.ofStream, Parse.rule, Parse.run_map, parseLine]
      cases Parse.onlyLine.run (.ofSource source) <;> rfl

theorem Parsed.ofStream_of_error {k : Rule} {s : Stream} {f : Fault}
    (h : Tree.ofStream k s = .error f) : ofStream k s = .error f := by
  rw [ofStream, h]
  rfl

theorem Fault.exists_atToken_eq_program {category : Category} {c : Complaint} {t : Token}
    (h : t.HasSpan) : ∃ e, atToken category c t = .program e := by
  unfold atToken
  cases hspan : Span.ofExtent? t.extent with
  | some s => exact ⟨_, rfl⟩
  | none =>
      obtain ⟨hstart, hstop⟩ := h
      rcases Span.ofExtent?_eq_none_iff.mp hspan with hbefore | hbefore
      · exact absurd hstart (Int.not_le.mpr hbefore)
      · exact absurd hstop (Int.not_le.mpr hbefore)

theorem TokenGrammar.Blames.exists_program {passed : List Token} {current : Token} {f : Fault}
    (h : Blames passed current f) (hpassed : ∀ t ∈ passed, t.HasSpan) (hcurrent : current.HasSpan) :
    ∃ e t, f = .program e ∧ e.category = .grammar ∧ e.IsAt t ∧ (t ∈ passed ∨ t = current) := by
  cases h with
  | current hc =>
      obtain ⟨e, he⟩ := Fault.exists_atToken_eq_program hcurrent
      obtain ⟨hcategory, -, -, hat⟩ := Fault.atToken_eq_program_iff.mp he
      exact ⟨e, current, he, hcategory, hat, .inr rfl⟩
  | @letters front t heq hkind =>
      have hmem : t ∈ passed := heq ▸ List.mem_concat_self
      obtain ⟨e, he⟩ := Fault.exists_atToken_eq_program (hpassed t hmem)
      obtain ⟨hcategory, -, -, hat⟩ := Fault.atToken_eq_program_iff.mp he
      exact ⟨e, t, he, hcategory, hat, .inl hmem⟩

namespace Reader

theorem HasPassed.hasSpan_current {ts : List Token} {n : Nat} {r : Reader} (h : r.HasPassed ts n)
    (hts : ∀ t ∈ ts, t.HasSpan) : r.current.HasSpan := by
  rw [h.current, List.getD_eq_getElem?_getD]
  cases hnext : ts[n]? with
  | some t => exact hts t (List.mem_of_getElem? hnext)
  | none =>
      refine Token.hasSpan_ofText _ _ ?_ _ _
      rw [h.lastEnd, List.getLastD_eq_getLast?]
      cases hlast : ((ts.take n).map Token.stop).getLast? with
      | none => exact Int.le_refl 0
      | some stop =>
          obtain ⟨t, ht, rfl⟩ := List.mem_map.mp (List.mem_of_getLast? hlast)
          obtain ⟨hstart, hstop⟩ := hts t (List.mem_of_mem_take ht)
          exact hstart.trans hstop

theorem current_mem_ahead {r : Reader} (h : r.ahead ≠ []) : r.current ∈ r.ahead := by
  obtain ⟨t, rest, hahead⟩ := List.exists_cons_of_ne_nil h
  simp [Reader.current, hahead]

end Reader

open Reader Parse TokenGrammar

variable {k : Rule} {ts : List Token} {e : ProgramError} {f : Fault}

theorem exists_program_of_error (hspans : ∀ t ∈ ts, t.HasSpan)
    (h : Tree.ofStream k (.ofTokens ts) = .error f) :
    ∃ e, f = .program e ∧ e.category = .grammar := by
  obtain ⟨r, hr⟩ := run_ofTokens_eq_error_iff.mp h
  obtain ⟨n, hplace, -, hblames⟩ := exists_hasPassed_of_error hr
  obtain ⟨e, -, he, hcategory, -⟩ := hblames.exists_program
    (fun t ht => hspans t (List.mem_of_mem_take ht)) (hplace.hasSpan_current hspans)
  exact ⟨e, he, hcategory⟩

theorem reachesEnd_map {α β : Type} {p : Parse α} (h : ReachesEnd p) (g : α → β) :
    ReachesEnd (g <$> p) := by
  intro r b r' hb
  obtain ⟨a, ha, -⟩ := map_eq_ok_iff.mp hb
  exact h r a r' ha

theorem reachesEnd_rule (k : Rule) : ReachesEnd (Parse.rule k) := by
  cases k with
  | file => exact reachesEnd_map (reachesEnd_map reachesEnd_file _) _
  | snippet => exact reachesEnd_map (reachesEnd_map reachesEnd_snippet _) _
  | line => exact reachesEnd_map reachesEnd_onlyLine _

theorem ofStream_eq_failing (hts : ts ≠ []) :
    Reader.ofStream ⟨ts, some e⟩ = .ok ((Reader.ofTokens ts).failing e) := by
  cases ts with
  | nil => exact absurd rfl hts
  | cons t ts => rfl

theorem ofStream_eq_error_of_failing (hts : ts ≠ []) {r : Reader}
    (h : Parse.rule k ((Reader.ofTokens ts).failing e) = .error f r) :
    Tree.ofStream k ⟨ts, some e⟩ = .error f := by
  simp [Tree.ofStream, run, ofStream_eq_failing hts, h, bind, Except.bind]

theorem exists_accepts_of_ahead_eq_nil
    (h : (Outcome.reader (Parse.rule k (.ofTokens ts))).ahead = []) :
    ∃ us, k.Accepts (ts ++ us) := by
  cases hrule : Parse.rule k (.ofTokens ts) with
  | ok tree r =>
      rw [← ts.append_nil] at hrule
      exact ⟨[], tree, run_ofTokens_eq_ok_iff.mpr ⟨r, hrule⟩⟩
  | error f r =>
      rw [hrule, Outcome.reader_error] at h
      obtain ⟨n, hplace, hviable, -⟩ := exists_hasPassed_of_error hrule
      rw [hplace.ahead, List.drop_eq_nil_iff] at h
      rwa [List.take_of_length_le h] at hviable

/-- The tokens in front of a lexical mistake decide which mistake is told: the lexical one if they
can be completed, else one of grammar at one of them. -/
theorem ofStream_failing (hkinds : ∀ t ∈ ts, t.kind ≠ .eof) (hspans : ∀ t ∈ ts, t.HasSpan) :
    (Tree.ofStream k ⟨ts, some e⟩ = .error (.program e) ∧ ∃ us, k.Accepts (ts ++ us)) ∨
      ∃ e', Tree.ofStream k ⟨ts, some e⟩ = .error (.program e') ∧ e'.category = .grammar ∧
        (∃ t ∈ ts, e'.IsAt t) ∧ ¬ ∃ us, k.Accepts (ts ++ us) := by
  obtain ⟨us, hdecided⟩ := looksAhead_rule k (.ofTokens ts) rfl
  have hahead : ts = us ++ _ := hdecided.passes.ahead_eq
  by_cases hleft : (Outcome.reader (Parse.rule k (.ofTokens ts))).ahead = []
  · refine .inl ⟨?_, exists_accepts_of_ahead_eq_nil hleft⟩
    by_cases hts : ts = []
    · rw [hts]
      rfl
    · rw [hleft, List.append_nil] at hahead
      obtain ⟨r, hr⟩ := hdecided.lexical (hahead ▸ hts) hleft e
      exact ofStream_eq_error_of_failing hts hr
  · have hts : ts ≠ [] := fun hnil => hleft (List.append_eq_nil_iff.mp (hahead.symm.trans hnil)).2
    have hagain := hdecided.again (hdecided.passes.failing hleft e) (current_failing _ e)
    have hcurrent : (Outcome.reader (Parse.rule k (.ofTokens ts))).current ∈ ts := by
      have hmem := List.mem_append_right us (current_mem_ahead hleft)
      rwa [← hahead] at hmem
    cases hrule : Parse.rule k (.ofTokens ts) with
    | ok tree r =>
        rw [hrule] at hcurrent
        exact absurd (reachesEnd_rule k _ _ _ hrule).2 (hkinds _ hcurrent)
    | error f r =>
        rw [hrule] at hagain hcurrent hleft
        obtain ⟨n, hplace, -, hblames⟩ := exists_hasPassed_of_error hrule
        obtain ⟨e', t, rfl, hcategory, hat, ht⟩ := hblames.exists_program
          (fun t ht => hspans t (List.mem_of_mem_take ht)) (hspans _ hcurrent)
        refine .inr ⟨e', ofStream_eq_error_of_failing hts hagain, hcategory, ⟨t, ?_, hat⟩, ?_⟩
        · rcases ht with ht | rfl
          · exact List.mem_of_mem_take ht
          · exact hcurrent
        · rintro ⟨vs, tree, htree⟩
          have herror : Tree.ofStream k (.ofTokens (ts ++ vs)) = .error (.program e') := by
            have hn : n < ts.length := by
              rwa [Outcome.reader_error, hplace.ahead, List.drop_eq_nil_iff, not_le] at hleft
            refine error_of_same_start hrule hplace (List.take_append_of_le_length hn.le) ?_
            rw [hplace.current, List.getD_eq_getElem?_getD, List.getD_eq_getElem?_getD,
              List.getElem?_append_left hn]
          rw [herror] at htree
          cases htree

/-- The faults of values: digits that are none, checksums out of range, and runs of too many
digits. -/
def Fault.IsOfValue : Fault → Prop
  | .program e => e.category = .integerFormat ∨ e.category = .checksumRange ∨
      e.category = .rationalFormat
  | .digitRunTooLong _ => True
  | _ => False

/-- Reading a text by a rule, against reading all its tokens first. -/
structure ReadsLazily (k : Rule) (source : String) : Prop where
  /-- A text without lexical mistakes is read as its tokens are. -/
  eager : ∀ ts, tokenize source = .ok ts →
    Parsed.ofSource k source = Parsed.ofStream k (.ofTokens ts)
  /-- A lexical mistake is told exactly when the tokens in front of it can be completed; else the
  mistake is one of grammar, in front of it. -/
  precedence : ∀ e, tokenize source = .error e →
    ∃ e', Parsed.ofSource k source = .error (.program e') ∧
      (e' = e ↔ ∃ us, k.Accepts ((Stream.ofSource source).tokens ++ us)) ∧
      (e' = e ∨ e'.category = .grammar ∧ e'.span.stop ≤ e.span.start)
  /-- A value is at fault only in a text that has a tree. -/
  values : ∀ f, Parsed.ofSource k source = .error f → f.IsOfValue →
    (∃ ts, tokenize source = .ok ts) ∧ ∃ tree, Tree.ofSource k source = .ok tree

theorem precedence_of_lexical {source : String} (h : tokenize source = .error e) :
    ∃ e', Parsed.ofSource k source = .error (.program e') ∧
      (e' = e ↔ ∃ us, k.Accepts ((Stream.ofSource source).tokens ++ us)) ∧
      (e' = e ∨ e'.category = .grammar ∧ e'.span.stop ≤ e.span.start) := by
  have hfailure := tokenize_eq_error_iff.mp h
  obtain ⟨-, -, hlexical, -⟩ := Stream.exists_placed_of_failure hfailure
  have hsome : (Stream.ofSource source).failure ≠ none := hfailure ▸ Option.some_ne_none e
  have hkinds : ∀ t ∈ (Stream.ofSource source).tokens, t.kind ≠ .eof :=
    fun t => Stream.kind_ne_eof hsome
  have hspans : ∀ t ∈ (Stream.ofSource source).tokens, t.HasSpan :=
    fun t => Stream.hasSpan_of_mem_tokens
  have hstream : Stream.ofSource source = ⟨(Stream.ofSource source).tokens, some e⟩ := by
    rw [← hfailure]
  rw [Parsed.ofSource_eq_ofStream]
  rcases ofStream_failing (k := k) (e := e) hkinds hspans with
    ⟨herror, hviable⟩ | ⟨e', herror, hcategory, ⟨t, ht, hat⟩, hdead⟩
  · rw [← hstream] at herror
    exact ⟨e, Parsed.ofStream_of_error herror, ⟨fun _ => hviable, fun _ => rfl⟩, .inl rfl⟩
  · rw [← hstream] at herror
    refine ⟨e', Parsed.ofStream_of_error herror, ⟨?_, fun hviable => absurd hviable hdead⟩, ?_⟩
    · rintro rfl
      rw [hlexical] at hcategory
      cases hcategory
    · have hstop : (e'.span.stop : Int) = t.stop := congrArg Extent.stop hat.extent
      have hle := Stream.stop_le_of_failure hfailure ht
      exact .inr ⟨hcategory, by omega⟩

theorem reads_lazily (k : Rule) (source : String) : ReadsLazily k source := by
  have heager : ∀ ts, tokenize source = .ok ts →
      Parsed.ofSource k source = Parsed.ofStream k (.ofTokens ts) := by
    intro ts hts
    rw [Parsed.ofSource_eq_ofStream, tokenize_eq_ok_iff_ofSource.mp hts]
  refine ⟨heager, fun e => precedence_of_lexical, fun f hf hvalue => ?_⟩
  cases htokenize : tokenize source with
  | error e =>
      obtain ⟨e', he', -, hcases⟩ := precedence_of_lexical (k := k) htokenize
      obtain ⟨-, -, hlexical, -⟩ :=
        Stream.exists_placed_of_failure (tokenize_eq_error_iff.mp htokenize)
      rw [hf] at he'
      cases he'
      rcases hcases with rfl | ⟨hgrammar, -⟩
      · simp [Fault.IsOfValue, hlexical] at hvalue
      · simp [Fault.IsOfValue, hgrammar] at hvalue
  | ok ts =>
      refine ⟨⟨ts, rfl⟩, ?_⟩
      have hstream := tokenize_eq_ok_iff_ofSource.mp htokenize
      cases htree : Tree.ofSource k source with
      | ok tree => exact ⟨tree, rfl⟩
      | error g =>
          rw [Tree.ofSource, hstream] at htree
          rw [heager ts htokenize, Parsed.ofStream_of_error htree] at hf
          cases hf
          have hspans : ∀ t ∈ ts, t.HasSpan := by
            intro t ht
            have hmem : t ∈ (Stream.ofSource source).tokens := by rwa [hstream]
            exact Stream.hasSpan_of_mem_tokens hmem
          obtain ⟨e, rfl, hgrammar⟩ := exists_program_of_error hspans htree
          simp [Fault.IsOfValue, hgrammar] at hvalue

end NcProgram
