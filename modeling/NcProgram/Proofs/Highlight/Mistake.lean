import NcProgram.Proofs.Highlight
import NcProgram.Proofs.LexicalMistake

namespace NcProgram

open Lexeme

namespace Highlight

/-- The front of a text, and the rest of it flagged. -/
def flagged (front rest : List Char) : List Fragment :=
  [⟨.plain, String.ofList front⟩, ⟨.mistake, String.ofList rest⟩]

/-- The mistake is at the character behind the scanned text. The front that is not flagged has as many
characters as the row that leads to the mistake, and it is the scanned text exactly when no line ends
in that. -/
structure Flags (source : String) (e : ProgramError) (before : List Char) (c : Char)
    (after : List Char) : Prop where
  stuck : e.IsStuckAt source before c after
  scanned : Token.join (Stream.ofSource source).tokens = String.ofList before
  cut : ofLine source = flagged (source.toList.take (Text.lastRow before).length)
    (source.toList.drop (Text.lastRow before).length)
  exact_iff : ofLine source = flagged before (c :: after) ↔ ∀ d ∈ before, isLineBreak d = false

end Highlight

open Highlight

theorem ProgramError.IsStuckAt.exists_column {e : ProgramError} {source : String} {before : List Char}
    {c : Char} {after : List Char} (h : e.IsStuckAt source before c after) :
    ∃ line, e.place = some ⟨line, (1 + (Text.lastRow before).length : Nat)⟩ := by
  obtain ⟨last, hcut, -, hplace⟩ := h.cut
  have hbehind := (tokens_cover_text hcut).behind _ last [] rfl
  rw [h.join_tokens] at hbehind
  have hcolumn := hbehind.column
  rw [String.toList_ofList] at hcolumn
  exact ⟨last.line, hcolumn ▸ hplace⟩

theorem Text.lastRow_eq_self_iff {cs : List Char} :
    lastRow cs = cs ↔ ∀ c ∈ cs, isLineBreak c = false := by
  simp [lastRow, List.rtakeWhile_eq_self_iff]

theorem Text.lastRow_eq_self_of_take {front rest : List Char}
    (h : (front ++ rest).take (lastRow front).length = front) : lastRow front = front := by
  have hsuffix : lastRow front <:+ front := List.rtakeWhile_suffix _ front
  have hle := hsuffix.length_le
  have hlength := congrArg List.length h
  rw [List.length_take, List.length_append] at hlength
  exact hsuffix.eq_of_length (by omega)

/-- A text is flagged from its lexical mistake on when no line ends in front of the mistake, and only
then. -/
theorem mistakes_are_flagged_by_column {source : String} {e : ProgramError}
    (h : tokenize source = .error e) : ∃ before c after, Flags source e before c after := by
  have hfailure := tokenize_eq_error_iff.mp h
  obtain ⟨before, c, after, hstuck⟩ := Stream.exists_isStuckAt hfailure
  obtain ⟨line, hplace⟩ := hstuck.exists_column
  have hcut : ofLine source = flagged (source.toList.take (Text.lastRow before).length)
      (source.toList.drop (Text.lastRow before).length) := by
    have hgood : (e.place.elim 1 Place.column - 1).toNat = (Text.lastRow before).length := by
      rw [hplace]
      dsimp only [Option.elim_some]
      omega
    rw [ofLine_of_failure hfailure, hgood, flagged]
  refine ⟨before, c, after, hstuck, hstuck.join_tokens, hcut, ?_⟩
  rw [hcut, hstuck.text, ← Text.lastRow_eq_self_iff]
  constructor
  · intro hflagged
    have hfront : (before ++ c :: after).take (Text.lastRow before).length = before :=
      String.ofList_injective (by simpa [flagged] using congrArg List.head? hflagged)
    exact Text.lastRow_eq_self_of_take hfront
  · intro hrow
    rw [hrow, List.take_left, List.drop_left]

theorem mistakes_are_flagged_by_column_wide :
    let e : ProgramError := ⟨.lexical, .unexpectedCharacter '@', .ofSize 5 1, some ⟨1, 5⟩, none⟩
    tokenize "(é) @b" = .error e ∧ ∃ before c after, Flags "(é) @b" e before c after := by
  intro e
  have hfails : tokenize "(é) @b" = .error e := by decide +kernel
  exact ⟨hfails, mistakes_are_flagged_by_column hfails⟩

/-- A return in front of the mistake is a line end, and all of the text is flagged. -/
theorem return_before_mistake_is_flagged :
    '\n' ∉ "G1\r@".toList ∧
      tokenize "G1\r@" = .error ⟨.lexical, .unexpectedCharacter '@', .ofSize 3 1, some ⟨2, 1⟩, none⟩ ∧
      Token.join (Stream.ofSource "G1\r@").tokens = "G1\r" ∧
      ofLine "G1\r@" = flagged [] ['G', '1', '\r', '@'] ∧
      ofLine "G1\r@" ≠ flagged ['G', '1', '\r'] ['@'] := by
  decide +kernel

end NcProgram
