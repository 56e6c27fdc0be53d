import NcProgram.Proofs.DigitRun.Building
import NcProgram.Proofs.Lexeme.Piece

namespace NcProgram

open Lexeme Reader Parse TokenGrammar

namespace ProgramError

/-- The place that the lexer gave to a mistake: a lexical one knows it, any other was found at a
token. -/
def foundAt? (e : ProgramError) : Option Place :=
  if e.category = .lexical then e.place else e.token.map fun t => ⟨t.line, t.column⟩

theorem IsAt.span_eq {e : ProgramError} {t : Token} {behind : List Char} (h : e.IsAt t)
    (ht : t.IsBehind (String.ofList behind)) :
    e.span = .ofSize (Text.utf8Length behind) (Text.utf8Length t.text.toList) := by
  have hstart : (e.span.start : Int) = t.start := congrArg Extent.start h.extent
  have hstop : (e.span.stop : Int) = t.stop := congrArg Extent.stop h.extent
  rw [ht.start, String.toList_ofList] at hstart
  rw [ht.stop, String.toList_append, String.toList_ofList, Text.utf8Length_append] at hstop
  obtain ⟨category, complaint, ⟨start, stop, hle⟩, place, token⟩ := e
  simp only [Int.natCast_inj] at hstart hstop
  subst hstart hstop
  rfl

theorem IsAt.foundAt?_eq {e : ProgramError} {t : Token} {behind : List Char} (h : e.IsAt t)
    (hcategory : e.category ≠ .lexical) (ht : t.IsBehind (String.ofList behind)) :
    e.foundAt? = some ⟨(1 + Text.lineEnds behind : Nat), (1 + (Text.lastRow behind).length : Nat)⟩ := by
  have hline := ht.line
  have hcolumn := ht.column
  rw [String.toList_ofList] at hline hcolumn
  rw [foundAt?, if_neg hcategory, h.token, Option.map_some, hline, hcolumn]

end ProgramError

theorem Reader.HasPassed.current_mem {r : Reader} {ts : List Token} {n : Nat} (h : r.HasPassed ts n)
    (hend : ∃ t ∈ ts, t.kind = .eof) : r.current ∈ ts := by
  by_cases hahead : r.ahead = []
  · obtain ⟨t, ht, hkind⟩ := hend
    rw [h.ahead, List.drop_eq_nil_iff] at hahead
    exact absurd hkind (h.kinds t (by rwa [List.take_of_length_le hahead]))
  · have hmem := current_mem_ahead hahead
    rw [h.ahead] at hmem
    exact List.mem_of_mem_drop hmem

theorem Stream.exists_end {source : String} (h : (ofSource source).failure = none) :
    ∃ t ∈ (ofSource source).tokens, t.kind = .eof := by
  obtain ⟨ls, hls, htext⟩ := exists_sequence h
  rw [ofSource_eq hls htext]
  exact ⟨_, List.mem_concat_self, rfl⟩

theorem Tree.exists_isAt_of_ofSource {k : Rule} {source : String} {f : Fault}
    (hfailure : (Stream.ofSource source).failure = none) (h : ofSource k source = .error f) :
    ∃ e, f = .program e ∧ e.category = .grammar ∧
      ∃ t ∈ (Stream.ofSource source).tokens, e.IsAt t := by
  have hspans : ∀ t ∈ (Stream.ofSource source).tokens, t.HasSpan :=
    fun t => Stream.hasSpan_of_mem_tokens
  rw [ofSource, Stream.ofSource_eq_ofTokens hfailure] at h
  obtain ⟨r, hr⟩ := run_ofTokens_eq_error_iff.mp h
  obtain ⟨n, hplace, -, hblames⟩ := exists_hasPassed_of_error hr
  have hcurrent := hplace.current_mem (Stream.exists_end hfailure)
  obtain ⟨e, t, he, hcategory, hat, ht⟩ := hblames.exists_program
    (fun t ht => hspans t (List.mem_of_mem_take ht)) (hspans _ hcurrent)
  refine ⟨e, he, hcategory, t, ?_, hat⟩
  rcases ht with ht | rfl
  · exact List.mem_of_mem_take ht
  · exact hcurrent

theorem Tree.exists_program_of_ofSource {k : Rule} {source : String} {f : Fault}
    (h : ofSource k source = .error f) : ∃ e, f = .program e := by
  cases hfailure : (Stream.ofSource source).failure with
  | none =>
      obtain ⟨e, he, -⟩ := exists_isAt_of_ofSource hfailure h
      exact ⟨e, he⟩
  | some e' =>
      obtain ⟨e, herror, -⟩ := ofSource_of_failure k hfailure
      exact ⟨e, Except.error.inj (h.symm.trans herror)⟩

namespace Parsed

theorem fault?_ofSource_of_error {k : Rule} {source : String} {f : Fault}
    (h : Tree.ofSource k source = .error f) : fault? (ofSource k source) = some f := by
  rw [ofSource_eq_ofStream, ofStream_of_error h]
  rfl

theorem fault?_ofSource_of_ok {k : Rule} {source : String} {tree : Tree}
    (h : Tree.ofSource k source = .ok tree) :
    fault? (ofSource k source) = DigitRun.firstFault? tree.runs := by
  rw [ofSource_eq_ofStream, ofStream, show Tree.ofStream k (.ofSource source) = .ok tree from h]
  exact (Tree.fault?_build_of_ofSource h).2

theorem mistake_cases {k : Rule} {source : String} {e : ProgramError}
    (h : ofSource k source = .error (.program e)) :
    (Stream.ofSource source).failure = some e ∨
      e.category ≠ .lexical ∧ ∃ t ∈ (Stream.ofSource source).tokens, e.IsAt t := by
  rw [← fault?_eq_some_iff] at h
  -- values are looked at only when the whole tree is there
  cases htree : Tree.ofSource k source with
  | ok tree =>
      obtain ⟨hruns, -⟩ := Tree.fault?_build_of_ofSource htree
      rw [fault?_ofSource_of_ok htree] at h
      obtain ⟨front, r, back, happend, -, hraises⟩ :=
        DigitRun.exists_raises_of_firstFault? (fun r hr => (hruns r hr).2) h
      refine .inr ⟨?_, r.token, (hruns r (by simp [happend])).1, hraises.isAt⟩
      rcases hraises.isOfValue with hcategory | hcategory | hcategory <;> simp [hcategory]
  | error f =>
      rw [fault?_ofSource_of_error htree] at h
      cases h
      cases hfailure : (Stream.ofSource source).failure with
      | none =>
          obtain ⟨_, he, hcategory, hat⟩ := Tree.exists_isAt_of_ofSource hfailure htree
          cases he
          exact .inr ⟨by simp [hcategory], hat⟩
      | some e' =>
          obtain ⟨_, herror, hcases⟩ := Tree.ofSource_of_failure k hfailure
          cases htree.symm.trans herror
          rcases hcases with rfl | ⟨hcategory, hat⟩
          · exact .inl rfl
          · exact .inr ⟨by simp [hcategory], hat⟩

/-- A program error of a text is told at a piece of it, with the place that the lexer gave to it. -/
theorem exists_piece {k : Rule} {source : String} {e : ProgramError}
    (h : ofSource k source = .error (.program e)) :
    ∃ behind piece ahead, source.toList = behind ++ piece ++ ahead ∧ IsPiece behind piece ahead ∧
      e.span = .ofSize (Text.utf8Length behind) (Text.utf8Length piece) ∧
      (∀ t ∈ e.token, t ∈ (Stream.ofSource source).tokens) ∧
      e.foundAt? = some ⟨(1 + Text.lineEnds behind : Nat),
        (1 + (Text.lastRow behind).length : Nat)⟩ := by
  rcases mistake_cases h with hfailure | ⟨hcategory, t, ht, hat⟩
  · obtain ⟨behind, c, ahead, hsource, hpiece, hcategory, htoken, hspan, hplace⟩ :=
      Stream.exists_piece_of_failure hfailure
    refine ⟨behind, _, ahead, hsource, hpiece, hspan, by simp [htoken], ?_⟩
    rw [ProgramError.foundAt?, if_pos hcategory, hplace]
  · obtain ⟨behind, ahead, hsource, hpiece, hbehind⟩ := Stream.exists_piece_of_mem ht
    refine ⟨behind, _, ahead, hsource, hpiece, hat.span_eq hbehind, ?_,
      hat.foundAt?_eq hcategory hbehind⟩
    rintro u hu
    obtain rfl : t = u := Option.some.inj (hat.token.symm.trans hu)
    exact ht

end Parsed

/-- The mistake is shown with the line that it is on: the line and column are those that the lexer
gave to its place, and the carets stand below the characters of its span on that line. -/
structure ProgramError.IsPointedOut (e : ProgramError) (source : String) (x : Excerpt) : Prop where
  text : x.text = source.toList
  isLine : x.IsLine
  marks : x.Marks e.span
  token : ∀ t ∈ e.token, t ∈ (Stream.ofSource source).tokens
  place : e.foundAt? = some ⟨x.number, x.column⟩
  shown : e.diagnostic source = .ok (x.shown e.complaint)

theorem ProgramError.exists_isPointedOut {e : ProgramError} {source : String}
    {behind piece ahead : List Char} (hsource : source.toList = behind ++ piece ++ ahead)
    (hpiece : IsPiece behind piece ahead)
    (hspan : e.span = .ofSize (Text.utf8Length behind) (Text.utf8Length piece))
    (htoken : ∀ t ∈ e.token, t ∈ (Stream.ofSource source).tokens)
    (hplace : e.foundAt? = some ⟨(1 + Text.lineEnds behind : Nat),
      (1 + (Text.lastRow behind).length : Nat)⟩) : ∃ x, e.IsPointedOut source x := by
  obtain ⟨x, htext, hline, hmarks, hnumber, hcolumn⟩ := Excerpt.exists_of_isPiece hpiece
  rw [← hspan] at hmarks
  rw [← hnumber, ← hcolumn] at hplace
  have htext := htext.trans hsource.symm
  exact ⟨x, htext, hline, hmarks, htoken, hplace, diagnostic_eq hline hmarks htext.symm⟩

theorem Parsed.exists_diagnostic {k : Rule} {source : String} {e : ProgramError}
    (h : ofSource k source = .error (.program e)) : ∃ shown, e.diagnostic source = .ok shown := by
  obtain ⟨behind, piece, ahead, hsource, hpiece, hspan, htoken, hplace⟩ := exists_piece h
  obtain ⟨x, hx⟩ := ProgramError.exists_isPointedOut hsource hpiece hspan htoken hplace
  exact ⟨_, hx.shown⟩

theorem mistakes_are_pointed_out {k : Rule} {source : String} {e : ProgramError}
    (h : Parsed.ofSource k source = .error (.program e)) : ∃ x, e.IsPointedOut source x := by
  obtain ⟨behind, piece, ahead, hsource, hpiece, hspan, htoken, hplace⟩ := Parsed.exists_piece h
  exact ProgramError.exists_isPointedOut hsource hpiece hspan htoken hplace

theorem mistakes_are_pointed_out_at_end :
    let stop : Token := ⟨.eof, "", 6, 6, 1, 6⟩
    let e : ProgramError :=
      ⟨.grammar, .expectedFractionDigits, ⟨6, 6, Nat.le_refl 6⟩, none, some stop⟩
    Parsed.ofSource .line "(é)G." = .error (.program e) ∧
      ∃ x, e.IsPointedOut "(é)G." x ∧ x.number = 1 ∧ x.column = 6 := by
  intro stop e
  let comment : Token := ⟨.inlineComment, "(é)", 0, 4, 1, 1⟩
  let letters : Token := ⟨.letters, "G", 4, 5, 1, 4⟩
  let point : Token := ⟨.dot, ".", 5, 6, 1, 5⟩
  have hsequence : IsSequence [⟨.inlineComment, ['(', 'é', ')']⟩, ⟨.letters, ['G']⟩, ⟨.dot, ['.']⟩] :=
    ⟨by decide, by simp [Apart]⟩
  have hstream : Stream.ofSource "(é)G." = .ofTokens [comment, letters, point, stop] :=
    Stream.ofSource_eq hsequence (by decide)
  have hcomment : lineItem Seen.none (.ofTokens [comment, letters, point, stop]) =
      .ok (.trivia .inlineComment comment) ⟨[letters, point, stop], none, 4⟩ := rfl
  have hfield : lineItem Seen.none ⟨[letters, point, stop], none, 4⟩ =
      .error (.program e) ⟨[stop], none, 6⟩ := rfl
  have hitems : lineItems Seen.none (.ofTokens [comment, letters, point, stop]) =
      .error (.program e) ⟨[stop], none, 6⟩ := by
    rw [lineItems_eq, if_neg (by decide), bind_of_ok hcomment]
    refine bind_of_error ?_
    rw [lineItems_eq, if_neg (by decide)]
    exact bind_of_error hfield
  have hline : Parse.line (.ofTokens [comment, letters, point, stop]) =
      .error (.program e) ⟨[stop], none, 6⟩ := by
    rw [line_eq, hitems]
  have htree : Tree.ofStream .line (.ofTokens [comment, letters, point, stop]) =
      .error (.program e) :=
    run_ofTokens_eq_error_iff.mpr ⟨_, map_eq_error_iff.mpr (bind_of_error hline)⟩
  have h : Parsed.ofSource .line "(é)G." = .error (.program e) := by
    rw [Parsed.ofSource_eq_ofStream, hstream]
    exact Parsed.ofStream_of_error htree
  obtain ⟨x, hx⟩ := mistakes_are_pointed_out h
  obtain ⟨hnumber, hcolumn⟩ : (1 : Int) = x.number ∧ (6 : Int) = x.column := by
    simpa [ProgramError.foundAt?, e, stop] using hx.place
  exact ⟨h, x, hx, by omega, by omega⟩

end NcProgram
