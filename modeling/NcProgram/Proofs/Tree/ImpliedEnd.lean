import NcProgram.Proofs.Tree.Progress

namespace NcProgram

/-- The end of the program directly behind tokens. -/
def Token.endBehind (ts : List Token) : Token :=
  .endAt ((ts.map Token.stop).getLastD 0)

namespace Reader

/-- What a reader passes in a list of tokens is passed as well where the end of the program stands behind
them, and the same token comes next. -/
theorem Passes.exists_endBehind {ts us : List Token} {r : Reader} (p : Passes (ofTokens ts) us r)
    (ws : List Token) : ∃ s, Passes (ofTokens (ts ++ Token.endBehind ts :: ws)) us s ∧
      s.current = r.current := by
  obtain ⟨hkinds, hahead, -, hlast, -⟩ := passes_iff.mp p
  have hahead : ts = us ++ r.ahead := hahead
  refine ⟨⟨r.ahead ++ Token.endBehind ts :: ws, none, r.lastEnd⟩,
    passes_iff.mpr ⟨hkinds, ?_, rfl, hlast, fun _ _ => rfl⟩, ?_⟩
  · change ts ++ Token.endBehind ts :: ws = _
    rw [← List.append_assoc, ← hahead]
  · cases hleft : r.ahead with
    | cons t rest => simp [current, hleft]
    | nil =>
        -- all tokens are passed, so the last end is that of the last token
        have hts : ts = us := by rw [hahead, hleft, List.append_nil]
        have hlast : r.lastEnd = (ts.map Token.stop).getLastD 0 := by rw [hlast, hts]; rfl
        simp [current, hleft, Token.endBehind, hlast]

end Reader

namespace Parse

variable {α : Type} {p : Parse α}

theorem run_ofTokens_of_moved {ts us : List Token} {s : Reader}
    (h : p (.ofTokens us) = Outcome.moved s (p (.ofTokens ts))) :
    p.run (.ofTokens us) = p.run (.ofTokens ts) := by
  cases hts : p (.ofTokens ts) <;>
    simp [run, Reader.ofStream_ofTokens, h, hts, Outcome.moved, bind, Except.bind]

theorem LooksAhead.run_endBehind (h : LooksAhead p) (ts ws : List Token) :
    p.run (.ofTokens (ts ++ Token.endBehind ts :: ws)) = p.run (.ofTokens ts) := by
  obtain ⟨us, hus⟩ := h (.ofTokens ts) rfl
  obtain ⟨s, q, hcurrent⟩ := hus.passes.exists_endBehind ws
  exact run_ofTokens_of_moved (hus.again q hcurrent)

end Parse

/-- Tokens are read by a rule alike whether or not an end of the program stands behind them, and
whatever stands behind that. -/
theorem end_of_tokens_is_implied (k : Rule) (ts ws : List Token) :
    Tree.ofStream k (.ofTokens ts) = Tree.ofStream k (.ofTokens (ts ++ Token.endBehind ts :: ws)) :=
  ((Parse.looksAhead_rule k).run_endBehind ts ws).symm

end NcProgram
