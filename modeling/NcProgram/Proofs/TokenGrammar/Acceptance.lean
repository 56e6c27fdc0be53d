import NcProgram.Proofs.TokenGrammar
import NcProgram.Proofs.Tree.Progress

namespace NcProgram

open Computability

namespace TokenGrammar

/-- The words over the classes with the property. -/
def words (P : TokenKind → Prop) : Language TokenKind :=
  {w | ∀ k ∈ w, P k}

section

variable {P : TokenKind → Prop} {L M : Language TokenKind}

theorem one_le_words : 1 ≤ words P := by
  rintro w rfl k hk
  exact absurd hk List.not_mem_nil

theorem symbol_le_words {k : TokenKind} (h : P k) : symbol k ≤ words P := by
  rintro w rfl k' hk'
  exact List.mem_singleton.mp hk' ▸ h

theorem mul_le_words (hL : L ≤ words P) (hM : M ≤ words P) : L * M ≤ words P := by
  intro w hw
  obtain ⟨u, hu, v, hv, rfl⟩ := Language.mem_mul.mp hw
  exact List.forall_mem_append.mpr ⟨hL hu, hM hv⟩

theorem kstar_le_words (h : L ≤ words P) : L∗ ≤ words P :=
  kstar_le_of_mul_le_right one_le_words (mul_le_words h le_rfl)

theorem optional_le_words (h : L ≤ words P) : optional L ≤ words P :=
  add_le one_le_words h

theorem trivia_le_words (hwhitespace : P .whitespace) (hinline : P .inlineComment) :
    trivia ≤ words P :=
  add_le (symbol_le_words hwhitespace) (symbol_le_words hinline)

end

theorem field_le_words {P : TokenKind → Prop}
    (h : ∀ k ∈ [TokenKind.letters, .integer, .minus, .dot, .string], P k) : field ≤ words P := by
  simp only [List.forall_mem_cons] at h
  obtain ⟨hletters, hinteger, hminus, hdot, hstring, -⟩ := h
  have hletters := symbol_le_words hletters
  have hinteger := symbol_le_words hinteger
  have hminus := symbol_le_words hminus
  have hdot := symbol_le_words hdot
  have hsign := optional_le_words hminus
  refine add_le (add_le (add_le (add_le ?_ ?_) ?_) ?_) ?_
  · exact mul_le_words hletters hinteger
  · exact mul_le_words hletters (mul_le_words hminus hinteger)
  · exact mul_le_words hletters (mul_le_words hsign
      (mul_le_words hinteger (mul_le_words hdot (optional_le_words hinteger))))
  · exact mul_le_words hletters (mul_le_words hsign (mul_le_words hdot hinteger))
  · exact mul_le_words hletters (symbol_le_words hstring)

theorem body_le_words : body ≤ words fun k => k.endsLine = false ∧ k ≠ .comment := by
  have htrivia : trivia∗ ≤ words fun k => k.endsLine = false ∧ k ≠ .comment :=
    kstar_le_words (trivia_le_words (by decide) (by decide))
  refine mul_le_words htrivia (mul_le_words (kstar_le_words ?_) (optional_le_words ?_))
  · exact mul_le_words (field_le_words (by decide)) htrivia
  · exact mul_le_words (mul_le_words (symbol_le_words (by decide)) (symbol_le_words (by decide))) htrivia

theorem comment_le_words : comment ≤ words fun k => k.endsLine = false :=
  mul_le_words (symbol_le_words (by decide)) (kstar_le_words (trivia_le_words (by decide) (by decide)))

theorem line_le_words : line comment∗ ≤ words fun k => k.endsLine = false :=
  mul_le_words (fun _ hw k hk => (body_le_words hw k hk).1) (kstar_le_words comment_le_words)

theorem lines_le_words : lines comment∗ ≤ words fun k => k ≠ .percent ∧ k ≠ .eof := by
  have hline : line comment∗ ≤ words fun k => k ≠ .percent ∧ k ≠ .eof := by
    intro w hw k hk
    have hends := line_le_words hw k hk
    constructor
    · rintro rfl
      cases hends
    · rintro rfl
      cases hends
  exact mul_le_words (kstar_le_words (mul_le_words hline (symbol_le_words (by decide)))) hline

theorem rule_le_words (k : Rule) : rule comment∗ k ≤ words (· ≠ .eof) := by
  have hlines : lines comment∗ ≤ words (· ≠ .eof) := fun _ hw k hk => (lines_le_words hw k hk).2
  have hpercent : optional (symbol .percent) ≤ words (· ≠ .eof) :=
    optional_le_words (symbol_le_words (by decide))
  cases k with
  | file => exact mul_le_words hpercent (mul_le_words hlines hpercent)
  | snippet => exact hlines
  | line => exact (line_le_lines _).trans hlines

/-- The classes of the tokens in front of the first end of the program. -/
def kindsBeforeEnd (ts : List Token) : List TokenKind :=
  (ts.takeWhile (·.kind ≠ .eof)).map Token.kind

theorem kindsBeforeEnd_of_passes {ts us : List Token} {r : Reader}
    (p : Reader.Passes (.ofTokens ts) us r) (hend : r.current.kind = .eof) :
    kindsBeforeEnd ts = us.map Token.kind :=
  congrArg (List.map Token.kind) (Reader.eq_takeWhile_of_passes p hend).symm

section

open Reader Parse

variable {ts : List Token}

theorem endsLine_eof {k : TokenKind} (h : k = .eof) : k.endsLine = true :=
  h ▸ rfl

theorem accepts_line_iff_exists : Rule.line.Accepts ts ↔ ∃ t r, onlyLine (.ofTokens ts) = .ok t r := by
  simp only [Rule.Accepts, Tree.ofStream, run_ofTokens_eq_ok_iff, Parse.rule, map_eq_ok_iff]
  exact ⟨fun ⟨_, r, t, h, _⟩ => ⟨t, r, h⟩, fun ⟨t, r, h⟩ => ⟨_, r, t, h, rfl⟩⟩

theorem accepts_snippet_iff_exists :
    Rule.snippet.Accepts ts ↔ ∃ t r, snippet (.ofTokens ts) = .ok t r := by
  simp only [Rule.Accepts, Tree.ofStream, run_ofTokens_eq_ok_iff, Parse.rule, document, if_true,
    map_eq_ok_iff]
  exact ⟨fun ⟨_, r, _, ⟨t, h, _⟩, _⟩ => ⟨t, r, h⟩, fun ⟨t, r, h⟩ => ⟨_, r, _, ⟨t, h, rfl⟩, rfl⟩⟩

theorem accepts_file_iff_exists : Rule.file.Accepts ts ↔ ∃ t r, file (.ofTokens ts) = .ok t r := by
  simp only [Rule.Accepts, Tree.ofStream, run_ofTokens_eq_ok_iff, Parse.rule, document,
    Bool.false_eq_true, if_false, map_eq_ok_iff]
  exact ⟨fun ⟨_, r, _, ⟨t, h, _⟩, _⟩ => ⟨t, r, h⟩, fun ⟨t, r, h⟩ => ⟨_, r, _, ⟨t, h, rfl⟩, rfl⟩⟩

theorem accepts_line_iff : Rule.line.Accepts ts ↔ kindsBeforeEnd ts ∈ line comment∗ := by
  rw [accepts_line_iff_exists]
  constructor
  · rintro ⟨t, r, h⟩
    obtain ⟨h, hend⟩ := onlyLine_eq_ok_iff.mp h
    obtain ⟨hline, p, -⟩ := line_eq_ok_iff.mp h
    rw [kindsBeforeEnd_of_passes p hend]
    exact (mem_line_iff r.current).mpr ⟨t, hline, rfl⟩
  · intro h
    obtain ⟨r, p, hend⟩ := exists_passes_to_end ts
    obtain ⟨t, hline, hleaves⟩ := (mem_line_iff r.current).mp h
    rw [← hleaves] at p
    exact ⟨t, r, onlyLine_eq_ok_iff.mpr ⟨line_eq_ok_iff.mpr ⟨hline, p, endsLine_eof hend⟩, hend⟩⟩

theorem accepts_snippet_iff : Rule.snippet.Accepts ts ↔ kindsBeforeEnd ts ∈ lines comment∗ := by
  rw [accepts_snippet_iff_exists]
  constructor
  · rintro ⟨t, r, h⟩
    obtain ⟨h, hend, -⟩ := snippet_eq_ok_iff.mp h
    obtain ⟨hpairs, hlast, p, -⟩ := linesFrom_eq_ok_iff.mp h
    rw [kindsBeforeEnd_of_passes p hend]
    exact (mem_lines_iff r.current).mpr ⟨_, _, hpairs, hlast, rfl⟩
  · intro h
    obtain ⟨r, p, hend⟩ := exists_passes_to_end ts
    obtain ⟨pairs, last, hpairs, hlast, hleaves⟩ := (mem_lines_iff r.current).mp h
    rw [← hleaves] at p
    have hlines : linesFrom (.ofTokens ts) = .ok (pairs, last) r :=
      linesFrom_eq_ok_iff.mpr ⟨hpairs, hlast, p, endsLine_eof hend, by simp [hend]⟩
    exact ⟨⟨⟨pairs, _, last.extent.start⟩, last, _, r.current.start⟩, r,
      snippet_eq_ok_iff.mpr ⟨hlines, hend, rfl, rfl⟩⟩

/-- Of a lone percent sign it is the opening one that is there. -/
theorem exists_opening (h : ts.map Token.kind ∈ rule comment∗ .file) :
    ∃ opening us, ∃ close : Option Token, ts = opening.toList ++ (us ++ close.toList) ∧
      (∀ t ∈ opening, t.kind = .percent) ∧ us.map Token.kind ∈ lines comment∗ ∧
      (∀ t ∈ close, t.kind = .percent) ∧
      (opening = none → ∀ t ∈ ts.head?, t.kind ≠ .percent) := by
  obtain ⟨_, _, rfl, hfirst, hrest⟩ := map_kind_mem_mul_iff.mp h
  obtain ⟨opening, rfl, hopening⟩ := map_kind_mem_optional_symbol_iff.mp hfirst
  obtain ⟨us, _, rfl, hlines, hlast⟩ := map_kind_mem_mul_iff.mp hrest
  obtain ⟨close, rfl, hclose⟩ := map_kind_mem_optional_symbol_iff.mp hlast
  cases opening with
  | some t => exact ⟨some t, us, close, rfl, hopening, hlines, hclose, by simp⟩
  | none =>
      cases us with
      | nil => exact ⟨close, [], none, by simp, hclose, hlines, by simp, by rintro rfl; simp⟩
      | cons u us =>
          refine ⟨none, u :: us, close, rfl, hopening, hlines, hclose, fun _ t ht => ?_⟩
          obtain rfl : u = t := by simpa using ht
          exact (lines_le_words hlines u.kind (by simp)).1

theorem accepts_file_iff : Rule.file.Accepts ts ↔ kindsBeforeEnd ts ∈ rule comment∗ .file := by
  rw [accepts_file_iff_exists]
  constructor
  · rintro ⟨t, r, h⟩
    obtain ⟨r₁, r₂, hopen, hlines, hclose, hend, -⟩ := file_eq_ok_iff.mp h
    obtain ⟨hopening, p₁, -⟩ := (take?_eq_ok_iff (by decide)).mp hopen
    obtain ⟨hpairs, hlast, p₂, -⟩ := linesFrom_eq_ok_iff.mp hlines
    obtain ⟨hclosing, p₃, -⟩ := (take?_eq_ok_iff (by decide)).mp hclose
    have p := passes_append_iff.mpr ⟨r₁, p₁, passes_append_iff.mpr ⟨r₂, p₂, p₃⟩⟩
    rw [kindsBeforeEnd_of_passes p hend]
    refine map_kind_mem_mul_iff.mpr ⟨_, _, rfl,
      map_kind_mem_optional_symbol_iff.mpr ⟨_, rfl, hopening⟩, ?_⟩
    exact map_kind_mem_mul_iff.mpr ⟨_, _, rfl, (mem_lines_iff r₂.current).mpr
      ⟨_, _, hpairs, hlast, rfl⟩, map_kind_mem_optional_symbol_iff.mpr ⟨_, rfl, hclosing⟩⟩
  · intro h
    obtain ⟨r, p, hend⟩ := exists_passes_to_end ts
    obtain ⟨opening, us, close, heq, hopening, hlines, hclose, hnone⟩ := exists_opening h
    have hstart : opening = none → (Reader.ofTokens ts).current.kind ≠ .percent := by
      intro hopen
      rw [p.current_eq]
      cases hts : ts.takeWhile (·.kind ≠ .eof) with
      | nil => simp [hend]
      | cons t rest => exact hnone hopen t (hts ▸ rfl)
    rw [heq] at p
    obtain ⟨r₁, p₁, p₂⟩ := passes_append_iff.mp p
    obtain ⟨r₂, p₂, p₃⟩ := passes_append_iff.mp p₂
    obtain ⟨pairs, last, hpairs, hlast, rfl⟩ := (mem_lines_iff r₂.current).mp hlines
    have hends : r₂.current.kind.endsLine = true ∧ r₂.current.kind ≠ .newline := by
      rw [p₃.current_eq]
      cases close with
      | none => simp [hend, TokenKind.endsLine]
      | some t => simp [hclose t rfl, TokenKind.endsLine]
    have hopen : take? .percent (.ofTokens ts) = .ok opening r₁ := by
      refine (take?_eq_ok_iff (by decide)).mpr ⟨hopening, p₁, ?_⟩
      rintro rfl
      obtain rfl := passes_nil_iff.mp p₁
      exact hstart rfl
    have hclosing : take? .percent r₂ = .ok close r :=
      (take?_eq_ok_iff (by decide)).mpr ⟨hclose, p₃, fun _ => by simp [hend]⟩
    exact ⟨⟨opening, ⟨pairs, r₁.current.start, last.extent.start⟩, last, close, _,
      r.current.start⟩, r, file_eq_ok_iff.mpr ⟨r₁, r₂, hopen,
      linesFrom_eq_ok_iff.mpr ⟨hpairs, hlast, p₂, hends⟩, hclosing, hend, rfl, rfl⟩⟩

/-- A rule reads tokens exactly when the classes of those in front of the first end of the program
are a word of its grammar with any number of comments to a line. -/
theorem accepts_iff (k : Rule) : k.Accepts ts ↔ kindsBeforeEnd ts ∈ rule comment∗ k := by
  cases k with
  | file => exact accepts_file_iff
  | snippet => exact accepts_snippet_iff
  | line => exact accepts_line_iff

end

end TokenGrammar

end NcProgram
