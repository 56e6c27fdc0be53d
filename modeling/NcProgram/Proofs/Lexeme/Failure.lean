import NcProgram.Proofs.Lexeme.Sequence

namespace NcProgram

open Lexeme

/-- The offsets of the token bound a span. -/
def Token.HasSpan (t : Token) : Prop :=
  0 ≤ t.start ∧ t.start ≤ t.stop

theorem Token.hasSpan_ofText (kind : TokenKind) (text : String) {start : Int} (h : 0 ≤ start)
    (line column : Int) : (ofText kind text start line column).HasSpan := by
  refine ⟨h, ?_⟩
  dsimp only [ofText]
  omega

theorem Lexeme.stop_le_of_mem_placed {m : Mark} {ls : List Lexeme} {t : Token}
    (ht : t ∈ placed m ls) : t.stop ≤ (m.afterAll ls).offset := by
  induction ls generalizing m with
  | nil => cases ht
  | cons l ls ih =>
      rw [afterAll_cons]
      rcases List.mem_cons.mp ht with rfl | ht
      · rw [offset_afterAll]
        dsimp only [token, Token.ofText, Mark.after]
        rw [String.toList_ofList]
        omega
      · exact ih ht

theorem Lexeme.Stops.of_append {kind : TokenKind} {cs front back : List Char}
    (h : Stops kind cs (front ++ back)) : Stops kind cs front := by
  cases front with
  | nil => exact stops_nil ⟨kind, cs⟩
  | cons c front => cases kind <;> exact h

/-- The lexical mistake at a character that stands at a place. -/
def Mark.mistake (m : Mark) (c : Char) (complaint : Complaint) : ProgramError where
  category := .lexical
  complaint := complaint
  span := .ofSize m.offset c.utf8Size
  place := some ⟨m.line, m.column⟩
  token := none

namespace Stream

theorem hasSpan_of_mem_tokens {c : Cursor} {t : Token} (ht : t ∈ (ofCursor c).tokens) :
    t.HasSpan := by
  fun_induction ofCursor c with
  | case1 c hc =>
      obtain rfl := List.mem_singleton.mp ht
      exact Token.hasSpan_ofText _ _ (Int.natCast_nonneg _) _ _
  | case2 c hc u next hscan ih =>
      rcases List.mem_cons.mp ht with rfl | ht
      · obtain ⟨l, -, -, -, rfl⟩ := Cursor.exists_lexeme_of_scan hscan
        exact Token.hasSpan_ofText _ _ (Int.natCast_nonneg _) _ _
      · exact ih ht
  | case3 c hc e hscan => cases ht

/-- In front of a lexical mistake stand lexemes, and it is told at the character behind them. -/
theorem exists_stuck {c : Cursor} {e : ProgramError} (h : (ofCursor c).failure = some e) :
    ∃ ls d rest complaint, IsSequence ls ∧ c.ahead = text ls ++ d :: rest ∧
      (ofCursor c).tokens = placed c.place ls ∧ first (d :: rest) = .error complaint ∧
      e = (c.place.afterAll ls).mistake d complaint := by
  fun_induction ofCursor c with
  | case1 c hc => cases h
  | case2 c hc t next hscan ih =>
      obtain ⟨ls, d, rest, complaint, hls, hahead, htokens, hfirst, he⟩ := ih h
      obtain ⟨l, hshape, hstops, hl, rfl⟩ := Cursor.exists_lexeme_of_scan hscan
      obtain ⟨next', hscan', -, hplace⟩ := Cursor.exists_scan_eq hshape hstops hl
      obtain rfl : next = next' := by simpa [hscan] using hscan'
      rw [hplace] at htokens he
      rw [hahead] at hstops hl
      refine ⟨l :: ls, d, rest, complaint, isSequence_cons.mpr ⟨hshape, hstops.of_append, hls⟩, ?_,
        congrArg (List.cons _) htokens, hfirst, he⟩
      rw [hl, text_cons, List.append_assoc]
  | case3 c hc e' hscan =>
      cases h
      obtain ⟨d, rest, hahead⟩ := List.exists_cons_of_ne_nil hc
      unfold Cursor.scan at hscan
      split at hscan
      · cases hscan
      next complaint hfirst =>
        cases hscan
        refine ⟨[], d, rest, complaint, isSequence_nil, hahead, rfl, hahead ▸ hfirst, ?_⟩
        simp [Cursor.mistake, Cursor.marked, hahead, Mark.mistake, Cursor.place]

theorem exists_placed_of_failure {c : Cursor} {e : ProgramError}
    (h : (ofCursor c).failure = some e) : ∃ ls, (ofCursor c).tokens = placed c.place ls ∧
      e.category = .lexical ∧ e.span.start = (c.place.afterAll ls).offset := by
  obtain ⟨ls, d, rest, complaint, -, -, htokens, -, rfl⟩ := exists_stuck h
  exact ⟨ls, htokens, rfl, rfl⟩

theorem stop_le_of_failure {c : Cursor} {e : ProgramError} (h : (ofCursor c).failure = some e)
    {t : Token} (ht : t ∈ (ofCursor c).tokens) : t.stop ≤ e.span.start := by
  obtain ⟨ls, htokens, -, hstart⟩ := exists_placed_of_failure h
  rw [hstart]
  exact stop_le_of_mem_placed (htokens ▸ ht)

end Stream

end NcProgram
