import NcProgram.Proofs.Tree.Lookahead
import NcProgram.Proofs.Tree.Whole

namespace NcProgram

namespace Reader

/-- A reader at the start of tokens. -/
def ofTokens (ts : List Token) : Reader :=
  ⟨ts, none, 0⟩

theorem ofStream_ofTokens (ts : List Token) : ofStream (.ofTokens ts) = .ok (ofTokens ts) := by
  cases ts <;> rfl

/-- The reader has passed the first tokens, as many as given. -/
structure HasPassed (ts : List Token) (k : Nat) (r : Reader) : Prop where
  le : k ≤ ts.length
  current : r.current = ts.getD k (.endAt r.lastEnd)
  lastEnd : r.lastEnd = ((ts.take k).map Token.stop).getLastD 0
  ahead : r.ahead = ts.drop k
  failure : r.failure = none
  kinds : ∀ t ∈ ts.take k, t.kind ≠ .eof

variable {ts us : List Token} {k : Nat} {r r' : Reader}

theorem hasPassed_iff :
    r.HasPassed ts k ↔ k ≤ ts.length ∧ Passes (ofTokens ts) (ts.take k) r := by
  rw [passes_iff]
  constructor
  · rintro ⟨hle, -, hlast, hahead, hfailure, hkinds⟩
    exact ⟨hle, hkinds, by rw [hahead, List.take_append_drop]; rfl, hfailure, hlast, fun _ _ => rfl⟩
  · rintro ⟨hle, hkinds, hahead, hfailure, hlast, -⟩
    have hdrop : r.ahead = ts.drop k :=
      List.append_cancel_left (hahead.symm.trans (List.take_append_drop k ts).symm)
    refine ⟨hle, ?_, hlast, hdrop, hfailure, hkinds⟩
    rw [Reader.current, hdrop, List.headD_eq_head?_getD, List.head?_drop, List.getD_eq_getElem?_getD]

theorem hasPassed_ofTokens (ts : List Token) : (ofTokens ts).HasPassed ts 0 :=
  hasPassed_iff.mpr ⟨Nat.zero_le _, .nil _⟩

theorem HasPassed.passes (h : r.HasPassed ts k) (p : Passes r us r') :
    r'.HasPassed ts (k + us.length) ∧ us = (ts.take (k + us.length)).drop k := by
  obtain ⟨hle, hstart⟩ := hasPassed_iff.mp h
  have hdrop : ts.drop k = us ++ r'.ahead := h.ahead ▸ p.ahead_eq
  have htake : ts.take (k + us.length) = ts.take k ++ us := by
    rw [List.take_add, hdrop, List.take_left]
  have hlength := congrArg List.length hdrop
  rw [List.length_drop, List.length_append] at hlength
  constructor
  · refine hasPassed_iff.mpr ⟨by omega, ?_⟩
    rw [htake]
    exact passes_append_iff.mpr ⟨r, hstart, p⟩
  · rw [htake, List.drop_left' (List.length_take_of_le hle)]

theorem hasPassed_of_passes (p : Passes (ofTokens ts) us r) :
    r.HasPassed ts us.length ∧ us = ts.take us.length := by
  simpa using (hasPassed_ofTokens ts).passes p

theorem HasPassed.congr (h : r.HasPassed ts k) (hus : us.take k = ts.take k) :
    ∃ s : Reader, s.HasPassed us k ∧ s.lastEnd = r.lastEnd := by
  have hlength := congrArg List.length hus
  rw [List.length_take, List.length_take] at hlength
  have hle := h.le
  refine ⟨⟨us.drop k, none, r.lastEnd⟩, hasPassed_iff.mpr ⟨by omega, passes_iff.mpr
    ⟨hus ▸ h.kinds, (List.take_append_drop k us).symm, rfl, ?_, fun _ _ => rfl⟩⟩, rfl⟩
  rw [hus, h.lastEnd]
  rfl

theorem HasPassed.unique {j : Nat} (hj : r.HasPassed ts j) (hk : r.HasPassed ts k) : j = k := by
  have hlength := congrArg List.length (hj.ahead.symm.trans hk.ahead)
  rw [List.length_drop, List.length_drop] at hlength
  have hjle := hj.le
  have hkle := hk.le
  omega

theorem eq_takeWhile_of_passes (p : Passes r us r') (hend : r'.current.kind = .eof) :
    us = r.ahead.takeWhile (·.kind ≠ .eof) := by
  rw [p.ahead_eq]
  refine (takeWhile_before_end (passes_iff.mp p).1 ?_).symm
  cases hahead : r'.ahead with
  | nil => simp
  | cons t rest => simpa [Reader.current, hahead] using hend

theorem exists_passes_to_end (ts : List Token) :
    ∃ r, Passes (ofTokens ts) (ts.takeWhile (·.kind ≠ .eof)) r ∧ r.current.kind = .eof := by
  refine ⟨⟨ts.dropWhile (·.kind ≠ .eof), none, _⟩,
    passes_iff.mpr ⟨fun t ht => ?_, List.takeWhile_append_dropWhile.symm, rfl, rfl,
      fun _ _ => rfl⟩, ?_⟩
  · simpa using List.mem_takeWhile_imp ht
  · cases hleft : ts.dropWhile (·.kind ≠ .eof) with
    | nil => simp [Reader.current, Token.endAt_kind]
    | cons t rest =>
        have hne : ts.dropWhile (·.kind ≠ .eof) ≠ [] := hleft ▸ List.cons_ne_nil t rest
        simpa only [Reader.current, hleft, List.head_cons, List.headD_cons,
          decide_eq_false_iff_not, not_not] using List.head_dropWhile_not _ hne

end Reader

namespace Parse

variable {α : Type} {p : Parse α} {ts : List Token}

theorem run_ofTokens_eq_ok_iff {a : α} :
    p.run (.ofTokens ts) = .ok a ↔ ∃ r, p (.ofTokens ts) = .ok a r := by
  cases h : p (.ofTokens ts) <;> simp [run, Reader.ofStream_ofTokens, h, bind, Except.bind]

theorem run_ofTokens_eq_error_iff {e : Fault} :
    p.run (.ofTokens ts) = .error e ↔ ∃ r, p (.ofTokens ts) = .error e r := by
  cases h : p (.ofTokens ts) <;> simp [run, Reader.ofStream_ofTokens, h, bind, Except.bind]

end Parse

/-- The rule reads the tokens as a tree. -/
def Rule.Accepts (k : Rule) (ts : List Token) : Prop :=
  ∃ tree, Tree.ofStream k (.ofTokens ts) = .ok tree

end NcProgram
