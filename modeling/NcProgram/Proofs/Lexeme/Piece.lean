import NcProgram.Proofs.Excerpt
import NcProgram.Proofs.Lexeme.Failure
import NcProgram.Proofs.Tokenizing

namespace NcProgram

open Lexeme

theorem Lexeme.isLineBreak_of_first_eq_error {c : Char} {cs : List Char} {complaint : Complaint}
    (h : first (c :: cs) = .error complaint) : isLineBreak c = false := by
  rw [first] at h
  split at h
  · cases h
  next hbreak => exact Bool.eq_false_iff.mpr hbreak

theorem Lexeme.exists_of_mem_placed {m : Mark} {ls : List Lexeme} {t : Token}
    (h : t ∈ placed m ls) :
    ∃ front l back, ls = front ++ l :: back ∧ t = l.token (m.afterAll front) := by
  induction ls generalizing m with
  | nil => cases h
  | cons l ls ih =>
      rcases List.mem_cons.mp h with rfl | h
      · exact ⟨[], l, ls, rfl, rfl⟩
      · obtain ⟨front, l', back, rfl, rfl⟩ := ih h
        exact ⟨l :: front, l', back, rfl, rfl⟩

/-- A return at the end of lexemes is a line end by itself, so the text behind them starts with no
line feed. -/
theorem Lexeme.head?_ne_lineFeed {front back : List Lexeme} (h : IsSequence (front ++ back))
    (hlast : (text front).getLast? = some '\r') : (text back).head? ≠ some '\n' := by
  obtain ⟨hfront, -, hstops⟩ := isSequence_append_iff.mp h
  rcases front.eq_nil_or_concat with rfl | ⟨front, l, rfl⟩
  · cases hlast
  · rw [List.concat_eq_append] at hlast hstops hfront
    have hl := hfront.shapes l (by simp)
    obtain ⟨c, hc⟩ := Option.ne_none_iff_exists'.mp (mt List.getLast?_eq_none_iff.mp hl.ne_nil)
    rw [text_append, text_cons, text_nil, List.append_nil, List.getLast?_append, hc,
      Option.some_or] at hlast
    obtain ⟨hkind, hchars⟩ := hl.eq_of_getLast? (hc.trans hlast)
    have hl := hstops l (by simp)
    rw [hkind] at hl
    exact hl hchars

theorem Lexeme.head?_append_ne {cs tail : List Char} {c : Char} (h : cs.head? ≠ some c)
    (htail : tail.head? ≠ some c) : (cs ++ tail).head? ≠ some c := by
  cases cs with
  | nil => exact htail
  | cons d cs => exact h

theorem Lexeme.isPiece_chars {front back : List Lexeme} {l : Lexeme} {tail : List Char}
    (h : IsSequence (front ++ l :: back)) (htail : tail.head? ≠ some '\n') :
    IsPiece (text front) l.chars (text back ++ tail) := by
  obtain ⟨-, hback, -⟩ := isSequence_append_iff.mp h
  obtain ⟨hshape, hstops, -⟩ := isSequence_cons.mp hback
  refine ⟨?_, fun hlast => ?_, fun hnil => absurd hnil hshape.ne_nil⟩
  · by_cases hkind : l.kind = .newline
    · rw [hkind] at hshape hstops
      exact .inr ⟨hshape, fun hreturn => head?_append_ne (hstops hreturn) htail⟩
    · refine .inl fun c hc => ?_
      rw [hshape.isLineBreak_eq hc, decide_eq_false hkind]
  · rw [← List.append_assoc]
    exact head?_append_ne (head?_ne_lineFeed h hlast) htail

theorem Lexeme.isPiece_end (ls : List Lexeme) : IsPiece (text ls) [] [] :=
  ⟨.inl nofun, nofun, fun _ => rfl⟩

theorem Lexeme.isPiece_stuck {behind rest : List Char} {c : Char} (h : isLineBreak c = false) :
    IsPiece behind [c] rest := by
  refine ⟨.inl (by simpa using h), ?_, nofun⟩
  rintro - ⟨⟩
  simp [isLineBreak] at h

namespace Stream

theorem afterAll_origin {ls : List Lexeme} (h : IsSequence ls) :
    origin.afterAll ls = ⟨Text.utf8Length (text ls), 1 + Text.lineEnds (text ls),
      1 + (Text.lastRow (text ls)).length⟩ := by
  have hoffset := offset_afterAll origin ls
  have hline := line_afterAll h origin
  have hcolumn := column_afterAll h.shapes
  rw [show origin.offset = 0 from rfl, Nat.zero_add] at hoffset
  rw [← hoffset, ← hcolumn, show 1 = origin.line from rfl, ← hline]

theorem exists_piece_of_mem_placed {ls : List Lexeme} {tail : List Char} {t : Token}
    (hls : IsSequence ls) (htail : tail.head? ≠ some '\n') (ht : t ∈ placed origin ls) :
    ∃ behind ahead, text ls ++ tail = behind ++ t.text.toList ++ ahead ∧
      IsPiece behind t.text.toList ahead ∧ t.IsBehind (String.ofList behind) := by
  obtain ⟨front, l, back, rfl, rfl⟩ := exists_of_mem_placed ht
  have hchars : (l.token (origin.afterAll front)).text.toList = l.chars := String.toList_ofList
  rw [hchars]
  refine ⟨text front, text back ++ tail, by simp, isPiece_chars hls htail, ?_⟩
  exact isBehind_ofText (isSequence_append_iff.mp hls).1 l.kind (String.ofList l.chars)

/-- Every token of a text, its end included, is a piece of it at the place that the text in front of
it says. -/
theorem exists_piece_of_mem {source : String} {t : Token} (ht : t ∈ (ofSource source).tokens) :
    ∃ behind ahead, source.toList = behind ++ t.text.toList ++ ahead ∧
      IsPiece behind t.text.toList ahead ∧ t.IsBehind (String.ofList behind) := by
  cases hfailure : (ofSource source).failure with
  | none =>
      obtain ⟨ls, hls, htext⟩ := exists_sequence hfailure
      have htext : source.toList = text ls := htext
      rw [ofSource_eq hls htext] at ht
      rcases List.mem_append.mp ht with ht | ht
      · rw [htext, ← List.append_nil (text ls)]
        exact exists_piece_of_mem_placed hls nofun ht
      · obtain rfl := List.mem_singleton.mp ht
        exact ⟨text ls, [], by simp [htext, Mark.endToken, Token.ofText], isPiece_end ls,
          isBehind_ofText hls .eof ""⟩
  | some e =>
      obtain ⟨ls, d, rest, complaint, hls, htext, htokens, hfirst, -⟩ := exists_stuck hfailure
      have hbreak := isLineBreak_of_first_eq_error hfirst
      have htail : (d :: rest).head? ≠ some '\n' := by
        rintro ⟨⟩
        simp [isLineBreak] at hbreak
      rw [show source.toList = text ls ++ d :: rest from htext]
      exact exists_piece_of_mem_placed hls htail (htokens ▸ ht)

theorem exists_piece_of_failure {source : String} {e : ProgramError}
    (h : (ofSource source).failure = some e) :
    ∃ behind c ahead, source.toList = behind ++ [c] ++ ahead ∧ IsPiece behind [c] ahead ∧
      e.category = .lexical ∧ e.token = none ∧
      e.span = .ofSize (Text.utf8Length behind) (Text.utf8Length [c]) ∧
      e.place = some ⟨(1 + Text.lineEnds behind : Nat), (1 + (Text.lastRow behind).length : Nat)⟩ := by
  obtain ⟨ls, c, rest, complaint, hls, htext, -, hfirst, rfl⟩ := exists_stuck h
  refine ⟨text ls, c, rest, ?_, isPiece_stuck (isLineBreak_of_first_eq_error hfirst), rfl, rfl, ?_⟩
  · rw [List.append_assoc]
    exact htext
  · rw [show Cursor.place (.ofText source.toList) = origin from rfl, afterAll_origin hls]
    exact ⟨rfl, rfl⟩

end Stream

end NcProgram
