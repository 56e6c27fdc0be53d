import NcProgram.Proofs.Phrase.Tree
import NcProgram.Node.OfTree

namespace NcProgram

open Lexeme

theorem except_bind_eq_ok_iff {α β : Type} {x : Except Fault α} {f : α → Except Fault β} {b : β} :
    (x >>= f) = .ok b ↔ ∃ a, x = .ok a ∧ f a = .ok b := by
  cases x <;> simp [bind, Except.bind]

theorem except_map_eq_ok_iff {α β : Type} {x : Except Fault α} {f : α → β} {b : β} :
    f <$> x = .ok b ↔ ∃ a, x = .ok a ∧ f a = b := by
  cases x <;> simp [Functor.map, Except.map]

theorem except_pure_eq_ok_iff {α : Type} {a b : α} :
    (pure a : Except Fault α) = .ok b ↔ a = b := by
  simp [pure, Except.pure]

theorem readDigits_eq_ok_iff {category : Category} {what : String} {t : Token}
    (h : IsRun Char.isDigit t.text.toList) {n : Nat} :
    readDigits category what t = .ok n ↔
      t.text.toList.length ≤ Text.maxDigits ∧ n = Text.decimalValue t.text.toList := by
  have hrun : isDigitRun t.text.toList = true := by
    simpa [isDigitRun, h.1] using h.2
  simp only [readDigits, hrun, if_true]
  split
  next hlong => simp [Nat.not_le.mpr hlong]
  next hshort => simp [Nat.not_lt.mp hshort, eq_comm]

theorem readDigits_run_eq_ok_iff {category : Category} {what : String} {m : Mark}
    {digits : List Char} (h : IsRun Char.isDigit digits) {n : Nat} :
    readDigits category what ((Numeral.run digits).token m) = .ok n ↔
      digits.length ≤ Text.maxDigits ∧ n = Text.decimalValue digits := by
  have htext : ((Numeral.run digits).token m).text.toList = digits := by
    simp [token, Token.ofText, Numeral.run]
  rw [readDigits_eq_ok_iff (by rwa [htext]), htext]

namespace Numeral

theorem exact_eq (negative : Bool) (digits afterPoint : List Char) :
    exact negative digits afterPoint =
      let size := mkRat ((Text.decimalValue digits * 10 ^ afterPoint.length +
        Text.decimalValue afterPoint : Nat) : Int) (10 ^ afterPoint.length)
      if negative then -size else size := by
  rw [exact, Text.decimalValue_append]

theorem isSome_signToken (m : Mark) (negative : Bool) :
    (signToken m negative).isSome = negative := by
  cases negative <;> rfl

theorem text_signToken (m : Mark) (negative : Bool) :
    ((signToken m negative).map Token.text).toList = if negative then ["-"] else [] := by
  cases negative <;> rfl

theorem read_whole {m : Mark} {negative : Bool} {digits : List Char}
    (hdigits : IsRun Char.isDigit digits) {result : Value × List String} :
    ((whole negative digits).parts m).read = .ok result ↔ digits.length ≤ Text.maxDigits ∧
      result = ((whole negative digits).value, (whole negative digits).raw) := by
  cases negative with
  | false =>
      simp only [parts, signToken, Bool.false_eq_true, if_false, NumberParts.read,
        except_bind_eq_ok_iff, readDigits_run_eq_ok_iff hdigits, except_pure_eq_ok_iff]
      constructor
      · rintro ⟨_, ⟨hlength, rfl⟩, rfl⟩
        exact ⟨hlength, rfl⟩
      · rintro ⟨hlength, rfl⟩
        exact ⟨_, ⟨hlength, rfl⟩, rfl⟩
  | true =>
      have hvalue : -mkRat ((Text.decimalValue digits * 10 ^ 0 + 0 : Nat) : Int) (10 ^ 0) =
          exact true digits [] := by
        simp [exact]
      simp only [parts, signToken, if_true, NumberParts.read, Option.elim_some,
        except_bind_eq_ok_iff, readDigits_run_eq_ok_iff hdigits, except_pure_eq_ok_iff]
      constructor
      · rintro ⟨_, ⟨hlength, rfl⟩, _, rfl, rfl⟩
        refine ⟨hlength, ?_⟩
        rw [value, ← hvalue]
        rfl
      · rintro ⟨hlength, rfl⟩
        refine ⟨_, ⟨hlength, rfl⟩, _, rfl, ?_⟩
        rw [value, ← hvalue]
        rfl

theorem read_of_point {minus integer fraction : Option Token} {dot : Token}
    (h : integer ≠ none ∨ fraction ≠ none) :
    NumberParts.read ⟨minus, integer, some dot, fraction⟩ = (do
      let whole ← integer.elim (pure 0) (readDigits .rationalFormat "integer part")
      let part ← fraction.elim (pure 0) (readDigits .rationalFormat "fractional part")
      let places := fraction.elim 0 fun t => t.text.length
      let size := mkRat ((whole * 10 ^ places + part : Nat) : Int) (10 ^ places)
      pure (.rational (if minus.isSome then -size else size),
        (minus.map Token.text).toList ++ (integer.map Token.text).toList ++
          [dot.text, fraction.elim "" Token.text])) := by
  cases fraction with
  | none =>
      cases integer with
      | none => simp at h
      | some integer => cases minus <;> rfl
  | some fraction => cases minus <;> cases integer <;> rfl

theorem readRun_eq_ok_iff {category : Category} {what : String} {m : Mark} {digits : List Char}
    (h : digits ≠ [] → IsRun Char.isDigit digits) {n : Nat} :
    (placesToken m digits).elim (pure 0) (readDigits category what) = .ok n ↔
      digits.length ≤ Text.maxDigits ∧ n = Text.decimalValue digits := by
  by_cases hnil : digits = []
  · rw [placesToken, if_pos hnil, Option.elim_none, except_pure_eq_ok_iff, hnil]
    simp [eq_comm]
  · simp only [placesToken, if_neg hnil, Option.elim_some]
    exact readDigits_run_eq_ok_iff (h hnil)

theorem length_placesToken (m : Mark) (digits : List Char) :
    ((placesToken m digits).elim 0 fun t => t.text.length) = digits.length := by
  unfold placesToken
  split
  next hnil => simp [hnil]
  next => simp [token, Token.ofText, run]

theorem text_placesToken (m : Mark) (digits : List Char) :
    (placesToken m digits).elim "" Token.text = String.ofList digits := by
  unfold placesToken
  split
  next hnil => simp [hnil]
  next => rfl

theorem read_pointed (m m₁ m₂ m₃ : Mark) (negative : Bool) (digits afterPoint : List Char)
    (hne : digits ≠ [] ∨ afterPoint ≠ []) (hdigits : digits ≠ [] → IsRun Char.isDigit digits)
    (hplaces : afterPoint ≠ [] → IsRun Char.isDigit afterPoint) (result : Value × List String) :
    NumberParts.read ⟨signToken m negative, placesToken m₁ digits, some (point.token m₂),
        placesToken m₃ afterPoint⟩ = .ok result ↔
      (digits.length ≤ Text.maxDigits ∧ afterPoint.length ≤ Text.maxDigits) ∧
        result = (.rational (exact negative digits afterPoint),
          (if negative then ["-"] else []) ++
            ((placesToken m₁ digits).map Token.text).toList ++ [".", String.ofList afterPoint]) := by
  have hsome : placesToken m₁ digits ≠ none ∨ placesToken m₃ afterPoint ≠ none := by
    simpa [placesToken] using hne
  rw [read_of_point hsome]
  simp only [except_bind_eq_ok_iff, readRun_eq_ok_iff hdigits, readRun_eq_ok_iff hplaces,
    except_pure_eq_ok_iff, length_placesToken, text_placesToken, isSome_signToken, text_signToken]
  rw [exact_eq]
  constructor
  · rintro ⟨_, ⟨h₁, rfl⟩, _, ⟨h₂, rfl⟩, rfl⟩
    exact ⟨⟨h₁, h₂⟩, rfl⟩
  · rintro ⟨⟨h₁, h₂⟩, rfl⟩
    exact ⟨_, ⟨h₁, rfl⟩, _, ⟨h₂, rfl⟩, rfl⟩

theorem read_parts {n : Numeral} (h : ∀ l ∈ n.lexemes, HasShape l.kind l.chars) {m : Mark}
    {result : Value × List String} :
    (n.parts m).read = .ok result ↔ n.HasShortRuns ∧ result = (n.value, n.raw) := by
  cases n with
  | whole negative digits =>
      exact read_whole (h (run digits) (by simp [lexemes]))
  | decimal negative digits afterPoint =>
      have hdigits : IsRun Char.isDigit digits := h (run digits) (by simp [lexemes])
      have hplaces : afterPoint ≠ [] → IsRun Char.isDigit afterPoint := fun hne =>
        h (run afterPoint) (by simp [lexemes, places, hne])
      have htoken : placesToken (m.afterAll (sign negative)) digits =
          some ((run digits).token (m.afterAll (sign negative))) := if_neg hdigits.1
      have hread := read_pointed m (m.afterAll (sign negative))
        ((m.afterAll (sign negative)).after (run digits))
        (((m.afterAll (sign negative)).after (run digits)).after point) negative digits afterPoint
        (.inl hdigits.1) (fun _ => hdigits) hplaces result
      rw [htoken] at hread
      refine hread.trans (and_congr_right fun _ => ?_)
      cases negative <;> rfl
  | fraction negative afterPoint =>
      have hplaces : IsRun Char.isDigit afterPoint := h (run afterPoint) (by simp [lexemes])
      have htoken : placesToken ((m.afterAll (sign negative)).after point) afterPoint =
          some ((run afterPoint).token ((m.afterAll (sign negative)).after point)) :=
        if_neg hplaces.1
      have hread := read_pointed m m (m.afterAll (sign negative))
        ((m.afterAll (sign negative)).after point) negative [] afterPoint (.inr hplaces.1)
        (absurd rfl) (fun _ => hplaces) result
      rw [htoken] at hread
      refine hread.trans (and_congr ?_ ?_)
      · simp [HasShortRuns]
      · cases negative <;> rfl

end Numeral

theorem Extent.span_eq_ok (o n : Nat) :
    Extent.span ⟨(o : Int), ((o + n : Nat) : Int)⟩ = .ok (Span.ofSize o n) := by
  have h : (0 : Int) ≤ o ∧ (o : Int) ≤ (o + n : Nat) := by omega
  simp only [Extent.span, Span.ofExtent?, dif_pos h]
  rfl

theorem Extent.start_of_span {e : Extent} {s : Span} (h : e.span = .ok s) : e.start = s.start := by
  unfold Extent.span Span.ofExtent? at h
  split at h
  next heq =>
    split at heq
    next hle =>
      cases heq
      cases h
      exact (Int.toNat_of_nonneg hle.1).symm
    next => cases heq
  next => cases h

namespace Lexeme

theorem start_token (m : Mark) (l : Lexeme) : (l.token m).start = m.offset := rfl

theorem stop_token (m : Mark) (l : Lexeme) : (l.token m).stop = (m.after l).offset := by
  simp [token, Token.ofText, Mark.after]

theorem stop_getLastD_placed (ls : List Lexeme) {m : Mark} {t : Token} (h : t.stop = m.offset) :
    ((placed m ls).getLastD t).stop = (m.afterAll ls).offset := by
  induction ls generalizing m t with
  | nil => exact h
  | cons l ls ih =>
      rw [placed_cons, List.getLastD_cons, afterAll_cons]
      exact ih (stop_token m l)

end Lexeme

namespace Phrase

theorem offset_afterAll_lexemes (m : Mark) (p : Phrase) :
    (m.afterAll p.lexemes).offset = m.offset + p.size :=
  offset_afterAll m p.lexemes

theorem build_field (m : Mark) {p : Phrase} {letters : List Char} {ls : List Lexeme}
    (hlexemes : p.lexemes = ⟨.letters, letters⟩ :: ls) (content : FieldContent)
    (hleaves : content.leaves = placed (m.after ⟨.letters, letters⟩) ls) {f : Field} :
    (FieldTree.ofParts (token m ⟨.letters, letters⟩) content).build = .ok f ↔
      ∃ x, content.read = .ok x ∧
        ⟨String.ofList letters, x.1, x.2, .ofSize m.offset p.size⟩ = f := by
  have hstop := stop_getLastD_placed ls (stop_token m ⟨.letters, letters⟩)
  rw [← afterAll_cons, ← hlexemes, offset_afterAll_lexemes] at hstop
  have hspan : (FieldTree.ofParts (token m ⟨.letters, letters⟩) content).extent.span =
      .ok (.ofSize m.offset p.size) := by
    simp only [FieldTree.ofParts, hleaves, start_token, hstop]
    exact Extent.span_eq_ok m.offset p.size
  simp only [FieldTree.build, hspan, except_bind_eq_ok_iff, except_pure_eq_ok_iff,
    Except.ok.injEq]
  constructor
  · rintro ⟨x, hx, _, rfl, rfl⟩
    exact ⟨x, hx, rfl⟩
  · rintro ⟨x, hx, rfl⟩
    exact ⟨x, hx, _, rfl, rfl⟩

theorem build_checksum {m : Mark} {digits : List Char} (h : IsRun Char.isDigit digits)
    {c : Checksum} :
    ChecksumTree.build ⟨star.token m, (Numeral.run digits).token (m.after star),
        ⟨(star.token m).start, ((Numeral.run digits).token (m.after star)).stop⟩⟩ = .ok c ↔
      (checksum digits).IsReadable ∧
        ⟨Text.decimalValue digits, .ofSize m.offset (checksum digits).size⟩ = c := by
  have hstop : ((Numeral.run digits).token (m.after star)).stop =
      (m.offset + (checksum digits).size : Nat) := by
    rw [stop_token, ← offset_afterAll_lexemes]
    rfl
  simp only [ChecksumTree.build, readChecksum, start_token, hstop, Extent.span_eq_ok,
    except_bind_eq_ok_iff, readDigits_run_eq_ok_iff h, except_pure_eq_ok_iff, Except.ok.injEq]
  constructor
  · rintro ⟨_, ⟨_, ⟨hlength, rfl⟩, hvalue⟩, _, rfl, rfl⟩
    split at hvalue
    · cases hvalue
    next hsmall =>
      obtain rfl := except_pure_eq_ok_iff.mp hvalue
      exact ⟨⟨hlength, Nat.not_lt.mp hsmall⟩, rfl⟩
  · rintro ⟨⟨hlength, hsmall⟩, rfl⟩
    have hsmall : ¬ maxChecksum < Text.decimalValue digits := Nat.not_lt.mpr hsmall
    exact ⟨_, ⟨_, ⟨hlength, rfl⟩, by rw [if_neg hsmall]; rfl⟩, _, rfl, rfl⟩

/-- The tree of a phrase is read exactly when the phrase has a meaning, and means it. -/
theorem build_tree {p : Phrase} (h : p.HasShapes) {m : Mark} {i : Item} :
    (p.tree m).build = .ok i ↔ p.IsReadable ∧ i = p.item m.offset := by
  cases p with
  | trivia kind chars =>
      simp only [tree, ItemTree.build, Except.ok.injEq]
      constructor
      · rintro rfl
        exact ⟨⟨trivial, trivial⟩, rfl⟩
      · rintro ⟨-, rfl⟩
        rfl
  | number letters numeral =>
      have hnumeral : ∀ l ∈ numeral.lexemes, HasShape l.kind l.chars :=
        fun l hl => h l (by simp [lexemes, hl])
      have hbuild {f : Field} := build_field m (p := number letters numeral) (f := f) rfl
        (.number (numeral.parts (m.after ⟨.letters, letters⟩))) (numeral.leaves_parts _)
      simp only [tree, ItemTree.build, except_map_eq_ok_iff, hbuild, FieldContent.read,
        Numeral.read_parts hnumeral]
      constructor
      · rintro ⟨_, ⟨_, ⟨hruns, rfl⟩, rfl⟩, rfl⟩
        exact ⟨⟨hruns, trivial⟩, rfl⟩
      · rintro ⟨⟨hruns, -⟩, rfl⟩
        exact ⟨_, ⟨_, ⟨hruns, rfl⟩, rfl⟩, rfl⟩
  | literal letters chars =>
      have hbuild {f : Field} := build_field m (p := literal letters chars) (f := f) rfl
        (.literal (token (m.after ⟨.letters, letters⟩) ⟨.string, chars⟩)) rfl
      simp only [tree, ItemTree.build, except_map_eq_ok_iff, hbuild, FieldContent.read]
      constructor
      · rintro ⟨_, ⟨_, hread, rfl⟩, rfl⟩
        cases hread
        exact ⟨⟨trivial, trivial⟩, rfl⟩
      · rintro ⟨-, rfl⟩
        exact ⟨_, ⟨_, rfl, rfl⟩, rfl⟩
  | checksum digits =>
      have hdigits : IsRun Char.isDigit digits := h (Numeral.run digits) (by simp [lexemes])
      simp only [tree, ItemTree.build, except_map_eq_ok_iff, build_checksum hdigits]
      constructor
      · rintro ⟨_, ⟨hreadable, rfl⟩, rfl⟩
        exact ⟨hreadable, rfl⟩
      · rintro ⟨hreadable, rfl⟩
        exact ⟨_, ⟨hreadable, rfl⟩, rfl⟩

theorem build_trees {ps : List Phrase} (h : ∀ p ∈ ps, p.HasShapes) {m : Mark} {is : List Item} :
    (trees m ps).mapM ItemTree.build = .ok is ↔
      (∀ p ∈ ps, p.IsReadable) ∧ is = items m.offset ps := by
  induction ps generalizing m is with
  | nil =>
      simp only [trees, List.mapM_nil, except_pure_eq_ok_iff, items_nil]
      simp [eq_comm]
  | cons p ps ih =>
      obtain ⟨hp, hps⟩ := List.forall_mem_cons.mp h
      simp only [trees, List.mapM_cons, except_bind_eq_ok_iff, build_tree hp, ih hps,
        except_pure_eq_ok_iff, List.forall_mem_cons, items_cons, offset_afterAll_lexemes]
      constructor
      · rintro ⟨_, ⟨hread, rfl⟩, _, ⟨hreads, rfl⟩, rfl⟩
        exact ⟨⟨hread, hreads⟩, rfl⟩
      · rintro ⟨⟨hread, hreads⟩, rfl⟩
        exact ⟨_, ⟨hread, rfl⟩, _, ⟨hreads, rfl⟩, rfl⟩

end Phrase

end NcProgram
