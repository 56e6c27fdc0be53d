import NcProgram.Diagnostic
import NcProgram.Proofs.Lexeme.Place

namespace NcProgram

open Lexeme

namespace Text

/-- A line feed behind a return ends no further line. -/
theorem lineEnds_concat (cs : List Char) (c : Char) : lineEnds (cs ++ [c]) =
    lineEnds cs + if isLineBreak c = true ∧ ¬ (c = '\n' ∧ cs.getLast? = some '\r') then 1 else 0 := by
  by_cases hpair : c = '\n' ∧ cs.getLast? = some '\r'
  · obtain ⟨rfl, hlast⟩ := hpair
    obtain ⟨front, rfl⟩ := List.getLast?_eq_some_iff.mp hlast
    have hreturn : lineEnds (front ++ ['\r']) = lineEnds front + 1 := lineEnds_append (by simp)
    have hboth : lineEnds (front ++ (['\r'] ++ ['\n'])) = lineEnds front + 1 :=
      lineEnds_append (by simp)
    rw [if_neg fun h => h.2 ⟨rfl, hlast⟩, List.append_assoc, hreturn, hboth]
  · have happend : lineEnds (cs ++ [c]) = lineEnds cs + lineEnds [c] :=
      lineEnds_append fun hlast hc => hpair ⟨Option.some.inj hc, hlast⟩
    rw [happend]
    simp [lineEnds, isLineBreak, hpair]

/-- The text in front of the last row. -/
def upperRows (cs : List Char) : List Char :=
  cs.rdropWhile fun c => !isLineBreak c

theorem upperRows_append_lastRow (cs : List Char) : upperRows cs ++ lastRow cs = cs :=
  List.rdropWhile_append_rtakeWhile

theorem lastRow_unbroken {cs : List Char} : ∀ c ∈ lastRow cs, isLineBreak c = false := by
  intro c hc
  simpa using List.mem_rtakeWhile_imp hc

theorem isLineBreak_getLast?_upperRows {cs : List Char} :
    ∀ c ∈ (upperRows cs).getLast?, isLineBreak c = true := by
  intro c hc
  obtain ⟨hne, rfl⟩ := List.mem_getLast?_eq_getLast hc
  have hlast : ¬ (!isLineBreak ((upperRows cs).getLast hne)) = true :=
    List.rdropWhile_last_not _ cs hne
  simpa using hlast

theorem upperRows_concat (cs : List Char) (c : Char) :
    upperRows (cs ++ [c]) = if isLineBreak c then cs ++ [c] else upperRows cs := by
  rw [upperRows, List.rdropWhile_concat]
  cases isLineBreak c <;> rfl

end Text

theorem Landing.ofText_concat (cs : List Char) (c : Char) :
    ofText (cs ++ [c]) = (ofText cs).step c := by
  rw [ofText, List.foldl_append]
  rfl

theorem Landing.step_eq (l : Landing) (c : Char) : l.step c = ⟨l.offset + c.utf8Size,
    l.number + if isLineBreak c = true ∧ ¬ (c = '\n' ∧ l.afterReturn) then 1 else 0,
    if isLineBreak c then l.offset + c.utf8Size else l.start, c = '\r'⟩ := by
  by_cases hfeed : c = '\n'
  · subst hfeed
    cases h : l.afterReturn <;> simp [step, h, isLineBreak]
  · by_cases hreturn : c = '\r'
    · subst hreturn
      simp [step, isLineBreak]
    · simp [step, hfeed, hreturn, isLineBreak]

theorem Landing.ofText_eq (cs : List Char) : ofText cs = ⟨Text.utf8Length cs, 1 + Text.lineEnds cs,
    Text.utf8Length (Text.upperRows cs), cs.getLast? = some '\r'⟩ := by
  -- the walk takes characters from the front, so its last step is the last character
  induction cs using List.reverseRecOn with
  | nil => rfl
  | append_singleton cs c ih =>
      rw [ofText_concat, ih, step_eq, Text.lineEnds_concat, Text.upperRows_concat,
        List.getLast?_concat]
      simp only [Text.utf8Length_append, Text.utf8Length_cons, Text.utf8Length_nil, Nat.add_zero,
        decide_eq_true_eq, Nat.add_assoc, Option.some.injEq]
      cases isLineBreak c <;> simp

/-- At a boundary between characters, the line has the number of the text in front of the place, and
it reaches from the last row of that text up to the next line break. -/
theorem LineBounds.ofOffset_utf8Length (behind ahead : List Char) :
    ofOffset (behind ++ ahead) (Text.utf8Length behind) = ⟨1 + Text.lineEnds behind,
      Text.utf8Length (Text.upperRows behind),
      Text.utf8Length behind + Text.utf8Length (ahead.takeWhile (!isLineBreak ·))⟩ := by
  rw [ofOffset, Int.toNat_natCast, Text.splitAtByte_utf8Length_append]
  simp only [Landing.ofText_eq]

end NcProgram
