import NcProgram.Span
import NcProgram.Text.Lines
import NcProgram.Text.Quoted
import Mathlib.Tactic.SplitIfs

namespace NcProgram

namespace Text

theorem splitLines_append_feed {line : List Char} (h : '\n' ∉ line) (cs : List Char) :
    splitLines (line ++ '\n' :: cs) = line :: splitLines cs := by
  induction line with
  | nil => rw [List.nil_append, splitLines, if_pos rfl]
  | cons c line ih =>
      obtain ⟨hc, hline⟩ := List.ne_and_not_mem_of_not_mem_cons h
      rw [List.cons_append, splitLines, if_neg (Ne.symm hc), ih hline]

theorem length_splitLines (cs : List Char) : (splitLines cs).length = cs.count '\n' + 1 := by
  induction cs with
  | nil => rfl
  | cons c cs ih =>
      rw [splitLines]
      split
      next hc => rw [List.length_cons, ih, hc, List.count_cons_self]
      next hc =>
        obtain ⟨line, lines, hlines⟩ := List.exists_cons_of_ne_nil (splitLines_ne_nil cs)
        rw [List.count_cons_of_ne hc, ← ih, hlines]
        rfl

theorem splitLines_flatMap_feed_append {lines : List (List Char)} (h : ∀ line ∈ lines, '\n' ∉ line)
    (cs : List Char) :
    splitLines (lines.flatMap (· ++ ['\n']) ++ cs) = lines ++ splitLines cs := by
  induction lines with
  | nil => rfl
  | cons line lines ih =>
      obtain ⟨hline, hlines⟩ := List.forall_mem_cons.mp h
      rw [List.flatMap_cons, List.append_assoc, List.append_assoc, List.singleton_append,
        splitLines_append_feed hline, ih hlines, List.cons_append]

theorem splitLines_flatMap_feed {lines : List (List Char)} (h : ∀ line ∈ lines, '\n' ∉ line) :
    splitLines (lines.flatMap (· ++ ['\n'])) = lines ++ [[]] := by
  rw [← List.append_nil (lines.flatMap _), splitLines_flatMap_feed_append h, splitLines]

theorem splitLines_eq_self {line : List Char} (h : '\n' ∉ line) : splitLines line = [line] := by
  have hjoin := joinLines_splitLines line
  have hlength := length_splitLines line
  rw [List.count_eq_zero_of_not_mem h] at hlength
  obtain ⟨only, honly⟩ := List.length_eq_one_iff.mp hlength
  rw [honly] at hjoin ⊢
  exact congrArg ([·]) hjoin

theorem joinLines_eq_intercalate (lines : List (List Char)) :
    joinLines lines = ['\n'].intercalate lines := by
  fun_induction joinLines lines with
  | case1 => rfl
  | case2 line => simp [List.intercalate]
  | case3 line lines hne ih =>
      obtain ⟨next, lines, rfl⟩ := List.exists_cons_of_ne_nil hne
      rw [ih]
      simp [List.intercalate]

/-- There is no line feed in the text. -/
def IsOneLine (s : String) : Prop :=
  '\n' ∉ s.toList

instance (s : String) : Decidable (IsOneLine s) :=
  inferInstanceAs (Decidable ('\n' ∉ s.toList))

@[simp] theorem isOneLine_append {s t : String} :
    IsOneLine (s ++ t) ↔ IsOneLine s ∧ IsOneLine t := by
  simp [IsOneLine]

@[simp] theorem isOneLine_ofList {cs : List Char} : IsOneLine (String.ofList cs) ↔ '\n' ∉ cs := by
  rw [IsOneLine, String.toList_ofList]

theorem not_mem_toDigits {base : Nat} (h : 1 < base) (n : Nat) : '\n' ∉ Nat.toDigits base n := by
  -- the last digit comes off the end
  induction n using Nat.strongRecOn with
  | ind n ih =>
      rw [Nat.toDigits_eq_if h]
      split
      next => simp
      next hn =>
        have hrest := ih (n / base) (Nat.div_lt_self (by omega) h)
        simpa using hrest

@[simp] theorem isOneLine_toString_nat (n : Nat) : IsOneLine (toString n) := by
  rw [Nat.toString_eq_ofList_toDigits, isOneLine_ofList]
  exact not_mem_toDigits (by decide) n

@[simp] theorem isOneLine_toString_int (n : Int) : IsOneLine (toString n) := by
  cases n with
  | ofNat n => exact isOneLine_toString_nat n
  | negSucc n =>
      have h : IsOneLine ("-" ++ toString (n + 1)) :=
        isOneLine_append.mpr ⟨by decide, isOneLine_toString_nat (n + 1)⟩
      exact h

theorem not_mem_hexDigits (width n : Nat) : '\n' ∉ hexDigits width n := by
  simp [hexDigits, List.mem_replicate, not_mem_toDigits]

theorem not_mem_escapedCode (c : Char) : '\n' ∉ escapedCode c := by
  unfold escapedCode
  split_ifs <;> simp [not_mem_hexDigits]

theorem not_mem_escaped {quote : Char} (h : quote ≠ '\n') (c : Char) : '\n' ∉ escaped quote c := by
  by_cases hfeed : c = '\n'
  · simp [escaped, hfeed, h.symm]
  · unfold escaped
    split_ifs <;> simp [Ne.symm hfeed, not_mem_escapedCode]

theorem quoteFor_ne_feed (cs : List Char) : quoteFor cs ≠ '\n' := by
  unfold quoteFor
  split <;> decide

@[simp] theorem isOneLine_quoted (s : String) : IsOneLine (quoted s) := by
  have hquote := quoteFor_ne_feed s.toList
  rw [quoted, isOneLine_ofList]
  simpa [hquote.symm] using fun c _ => not_mem_escaped hquote c

end Text

@[simp] theorem Span.isOneLine_render (s : Span) : Text.IsOneLine s.render := by
  have h : Text.IsOneLine (toString s.start ++ ".." ++ toString s.stop) := by
    simp only [Text.isOneLine_append, Text.isOneLine_toString_nat, true_and, and_true]
    decide
  exact h

end NcProgram
