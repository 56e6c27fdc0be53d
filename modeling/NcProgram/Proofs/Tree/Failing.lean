import NcProgram.Proofs.Tree.Passing

namespace NcProgram.Parse

open Reader

variable {α β : Type} {r r' : Reader} {e : Fault}

theorem bind_of_ok {p : Parse α} {f : α → Parse β} {r₁ : Reader} {a : α} (h : p r = .ok a r₁) :
    (p >>= f) r = f a r₁ := by
  simp [bind, EStateM.bind, h]

theorem bind_of_error {p : Parse α} {f : α → Parse β} {r₁ : Reader}
    (h : p r = .error e r₁) : (p >>= f) r = .error e r₁ := by
  simp [bind, EStateM.bind, h]

theorem bind_eq_error_iff {p : Parse α} {f : α → Parse β} :
    (p >>= f) r = .error e r' ↔
      p r = .error e r' ∨ ∃ a r₁, p r = .ok a r₁ ∧ f a r₁ = .error e r' := by
  cases h : p r with
  | ok a r₁ =>
      rw [bind_of_ok h]
      constructor
      · exact fun hf => .inr ⟨a, r₁, rfl, hf⟩
      · rintro (hp | ⟨_, _, hp, hf⟩)
        · cases hp
        · cases hp
          exact hf
  | error e₁ r₁ => simp [bind_of_error h]

theorem map_eq_error_iff {p : Parse α} {f : α → β} :
    (f <$> p) r = .error e r' ↔ p r = .error e r' := by
  change (p >>= fun a => pure (f a)) r = .error e r' ↔ _
  rw [bind_eq_error_iff]
  constructor
  · rintro (h | ⟨_, _, _, ⟨⟩⟩)
    exact h
  · exact .inl

theorem advance_ne_error (hr : r.failure = none) : advance r ≠ .error e r' := by
  obtain ⟨ahead, failure, lastEnd⟩ := r
  obtain rfl : failure = none := hr
  cases ahead with
  | nil => simp [advance]
  | cons t rest => by_cases hkind : t.kind = .eof <;> simp [advance, hkind]

theorem take?_ne_error {kind : TokenKind} (hr : r.failure = none) : take? kind r ≠ .error e r' := by
  unfold take? takeAny?
  split
  · exact fun h => advance_ne_error hr (map_eq_error_iff.mp h)
  · exact fun h => by cases h

/-- A step that begins with a token that may be absent fails only behind it. -/
theorem take?_bind_eq_error {kind : TokenKind} {f : Option Token → Parse α} (hkind : kind ≠ .eof)
    (hr : r.failure = none) (h : (take? kind >>= f) r = .error e r') :
    ∃ found r₁, (∀ t ∈ found, t.kind = kind) ∧ Passes r found.toList r₁ ∧ r₁.failure = none ∧
      f found r₁ = .error e r' := by
  rcases bind_eq_error_iff.mp h with h | ⟨found, r₁, htake, h⟩
  · exact absurd h (take?_ne_error hr)
  · obtain ⟨hfound, p, -⟩ := (take?_eq_ok_iff hkind).mp htake
    exact ⟨found, r₁, hfound, p, p.failure_eq.trans hr, h⟩

theorem expectOr_eq_error {complaint : Token → Complaint} {kind : TokenKind} (hr : r.failure = none)
    (h : expectOr complaint kind r = .error e r') :
    e = .atToken .grammar (complaint r.current) r.current ∧ r' = r := by
  unfold expectOr at h
  split at h
  · exact absurd h (advance_ne_error hr)
  · cases h
    exact ⟨rfl, rfl⟩

theorem expectEnd_eq_error (h : expectEnd r = .error e r') :
    e = .atToken .grammar (.unexpectedToken r.current) r.current ∧ r' = r := by
  unfold expectEnd at h
  split at h
  · cases h
  · cases h
    exact ⟨rfl, rfl⟩

end NcProgram.Parse
