import NcProgram.Tree.Reader

/-!
What the small steps of reading pass. A reader passes tokens one by one, never the end of the
program, and the last token before a lexical mistake cannot be passed; the steps that look for a
class of tokens are said through this relation alone.
-/

namespace NcProgram

namespace Reader

/-- Pass one token that is not the end of the program. -/
def Step (r : Reader) (t : Token) (r' : Reader) : Prop :=
  t.kind ≠ .eof ∧ Parse.advance r = .ok t r'

inductive Passes : Reader → List Token → Reader → Prop where
  | nil (r : Reader) : Passes r [] r
  | cons {r r₁ r' : Reader} {t : Token} {ts : List Token} :
      Step r t r₁ → Passes r₁ ts r' → Passes r (t :: ts) r'

theorem step_iff {r r' : Reader} {t : Token} :
    Step r t r' ↔ t.kind ≠ .eof ∧ r.ahead = t :: r'.ahead ∧ r'.failure = r.failure ∧
      r'.lastEnd = t.stop ∧ (r'.ahead = [] → r.failure = none) := by
  obtain ⟨ahead, failure, lastEnd⟩ := r
  obtain ⟨ahead', failure', lastEnd'⟩ := r'
  cases ahead with
  | nil =>
      simp only [Step, Parse.advance, current, List.headD_nil, EStateM.Result.ok.injEq]
      constructor
      · rintro ⟨hkind, rfl, -⟩
        exact absurd (Token.endAt_kind lastEnd) hkind
      · rintro ⟨-, h, -⟩
        cases h
  | cons u rest =>
      by_cases hu : u.kind = .eof
      · simp only [Step, Parse.advance, hu, if_true]
        constructor
        · rintro ⟨hkind, h⟩
          cases h
          exact absurd hu hkind
        · rintro ⟨hkind, h, -⟩
          cases h
          exact absurd hu hkind
      · simp only [Step, Parse.advance, hu, if_false]
        constructor
        · rintro ⟨hkind, h⟩
          split at h
          · cases h
          next hne =>
            cases h
            refine ⟨hkind, rfl, rfl, rfl, ?_⟩
            rintro rfl
            exact Option.eq_none_iff_forall_not_mem.mpr fun e he => hne e rfl he
        · rintro ⟨hkind, h, rfl, rfl, hend⟩
          cases h
          refine ⟨hkind, ?_⟩
          split
          · simp at hend
          · rfl

theorem passes_nil_iff {r r' : Reader} : Passes r [] r' ↔ r' = r := by
  constructor
  · rintro ⟨⟩
    rfl
  · rintro rfl
    exact .nil r'

theorem passes_cons_iff {r r' : Reader} {t : Token} {ts : List Token} :
    Passes r (t :: ts) r' ↔ ∃ r₁, Step r t r₁ ∧ Passes r₁ ts r' := by
  constructor
  · rintro (_ | ⟨hstep, hpasses⟩)
    exact ⟨_, hstep, hpasses⟩
  · rintro ⟨r₁, hstep, hpasses⟩
    exact .cons hstep hpasses

theorem passes_singleton_iff {r r' : Reader} {t : Token} : Passes r [t] r' ↔ Step r t r' := by
  simp [passes_cons_iff, passes_nil_iff]

theorem passes_append_iff {r r' : Reader} {ts us : List Token} :
    Passes r (ts ++ us) r' ↔ ∃ r₁, Passes r ts r₁ ∧ Passes r₁ us r' := by
  induction ts generalizing r with
  | nil => simp [passes_nil_iff]
  | cons t ts ih =>
      simp only [List.cons_append, passes_cons_iff, ih]
      constructor
      · rintro ⟨r₁, hstep, r₂, hts, hus⟩
        exact ⟨r₂, ⟨r₁, hstep, hts⟩, hus⟩
      · rintro ⟨r₂, ⟨r₁, hstep, hts⟩, hus⟩
        exact ⟨r₁, hstep, r₂, hts, hus⟩

theorem passes_iff {r r' : Reader} {ts : List Token} :
    Passes r ts r' ↔ (∀ t ∈ ts, t.kind ≠ .eof) ∧ r.ahead = ts ++ r'.ahead ∧
      r'.failure = r.failure ∧ r'.lastEnd = (ts.map Token.stop).getLastD r.lastEnd ∧
      (ts ≠ [] → r'.ahead = [] → r.failure = none) := by
  induction ts generalizing r with
  | nil =>
      obtain ⟨ahead, failure, lastEnd⟩ := r
      obtain ⟨ahead', failure', lastEnd'⟩ := r'
      simp [passes_nil_iff, eq_comm]
  | cons t ts ih =>
      simp only [passes_cons_iff, ih, step_iff, List.forall_mem_cons, List.map_cons,
        List.getLastD_cons]
      constructor
      · rintro ⟨r₁, ⟨hkind, hahead, hfailure, hstop, hend⟩, hkinds, hahead', hfailure', hlast, hend'⟩
        refine ⟨⟨hkind, hkinds⟩, by simp [hahead, hahead'], by simp [hfailure, hfailure'],
          hstop ▸ hlast, ?_⟩
        intro _ hr'
        by_cases hts : ts = []
        · exact hend (by simp [hahead', hts, hr'])
        · exact hfailure ▸ hend' hts hr'
      · rintro ⟨⟨hkind, hkinds⟩, hahead, hfailure, hlast, hend⟩
        refine ⟨⟨ts ++ r'.ahead, r.failure, t.stop⟩, ⟨hkind, hahead, rfl, rfl, ?_⟩, hkinds, rfl,
          hfailure, hlast, fun _ => hend (by simp)⟩
        intro hnil
        exact hend (by simp) (List.append_eq_nil_iff.mp hnil).2

theorem Passes.failure_eq {r r' : Reader} {ts : List Token} (p : Passes r ts r') :
    r'.failure = r.failure :=
  (passes_iff.mp p).2.2.1

theorem Passes.ahead_eq {r r' : Reader} {ts : List Token} (p : Passes r ts r') :
    r.ahead = ts ++ r'.ahead :=
  (passes_iff.mp p).2.1

theorem Passes.current_eq {r r' : Reader} {ts : List Token} (h : Passes r ts r') :
    r.current = ts.headD r'.current := by
  cases h with
  | nil => rfl
  | cons hstep _ => simp [current, (step_iff.mp hstep).2.1]

end Reader

namespace Parse

open Reader

variable {α β : Type}

theorem bind_eq_ok_iff {p : Parse α} {f : α → Parse β} {r r' : Reader} {b : β} :
    (p >>= f) r = .ok b r' ↔ ∃ a r₁, p r = .ok a r₁ ∧ f a r₁ = .ok b r' := by
  constructor
  · exact bind_eq_ok
  · rintro ⟨a, r₁, hp, hf⟩
    simp [bind, EStateM.bind, hp, hf]

theorem pure_eq_ok_iff {a b : α} {r r' : Reader} :
    (pure a : Parse α) r = .ok b r' ↔ a = b ∧ r = r' := by
  simp [pure, EStateM.pure]

theorem map_eq_ok_iff {p : Parse α} {f : α → β} {r r' : Reader} {b : β} :
    (f <$> p) r = .ok b r' ↔ ∃ a, p r = .ok a r' ∧ f a = b := by
  change (p >>= fun a => pure (f a)) r = .ok b r' ↔ _
  simp only [bind_eq_ok_iff, pure_eq_ok_iff]
  constructor
  · rintro ⟨a, r₁, hp, rfl, rfl⟩
    exact ⟨a, hp, rfl⟩
  · rintro ⟨a, hp, rfl⟩
    exact ⟨a, r', hp, rfl, rfl⟩

theorem get_eq (r : Reader) : (get : Parse Reader) r = .ok r r := rfl

theorem get_eq_ok_iff {r r' s : Reader} : (get : Parse Reader) r = .ok s r' ↔ s = r ∧ r' = r := by
  simp [get_eq, eq_comm]

theorem expectOr_eq_ok_iff {complaint : Token → Complaint} {kind : TokenKind} (hkind : kind ≠ .eof)
    {r r' : Reader} {t : Token} :
    expectOr complaint kind r = .ok t r' ↔ t.kind = kind ∧ Passes r [t] r' := by
  unfold expectOr
  split
  next hcurrent =>
    constructor
    · intro h
      have ht : t = r.current := by
        unfold advance at h
        split at h
        · cases h
          rfl
        next u rest hahead =>
          split at h
          · cases h
            simp [current, hahead]
          · split at h
            · cases h
            · cases h
              simp [current, hahead]
      have htkind : t.kind = kind := ht ▸ hcurrent
      exact ⟨htkind, passes_singleton_iff.mpr ⟨htkind ▸ hkind, h⟩⟩
    · rintro ⟨-, h⟩
      exact (passes_singleton_iff.mp h).2
  next hcurrent =>
    constructor
    · intro h
      cases h
    · rintro ⟨htkind, h⟩
      rw [h.current_eq] at hcurrent
      exact absurd htkind hcurrent

theorem expect_eq_ok_iff {kind : TokenKind} (hkind : kind ≠ .eof) {r r' : Reader} {t : Token} :
    expect kind r = .ok t r' ↔ t.kind = kind ∧ Passes r [t] r' :=
  expectOr_eq_ok_iff hkind

theorem take?_eq {kind : TokenKind} {r : Reader} :
    take? kind r = if r.current.kind = kind then (some <$> expect kind) r else .ok none r := by
  unfold take? takeAny?
  by_cases h : r.current.kind = kind
  · simp [h, expect, expectOr, Functor.map, EStateM.map]
  · simp [h]

/-- A step that may find nothing passes what it finds, and stops before the class when it finds
nothing. -/
theorem take?_eq_ok_iff {kind : TokenKind} (hkind : kind ≠ .eof) {r r' : Reader}
    {found : Option Token} :
    take? kind r = .ok found r' ↔ (∀ t ∈ found, t.kind = kind) ∧ Passes r found.toList r' ∧
      (found = none → r'.current.kind ≠ kind) := by
  rw [take?_eq]
  cases found with
  | none =>
      split
      next hcurrent =>
        simp only [map_eq_ok_iff, reduceCtorEq, and_false, exists_false, Option.toList_none,
          passes_nil_iff, false_iff, not_and]
        rintro - rfl hne
        exact hne trivial hcurrent
      next hcurrent =>
        simp only [EStateM.Result.ok.injEq, true_and, Option.toList_none, passes_nil_iff]
        constructor
        · rintro rfl
          exact ⟨by simp, rfl, fun _ => hcurrent⟩
        · rintro ⟨-, rfl, -⟩
          rfl
  | some t =>
      split
      next hcurrent =>
        simp only [map_eq_ok_iff, expect_eq_ok_iff hkind, Option.some.injEq, exists_eq_right]
        simp
      next hcurrent =>
        simp only [EStateM.Result.ok.injEq, reduceCtorEq, false_and, Option.toList_some, false_iff,
          not_and]
        intro ht h
        rw [h.current_eq] at hcurrent
        exact absurd (ht t rfl) hcurrent

theorem expectEnd_eq_ok_iff {r r' : Reader} {stop : Int} :
    expectEnd r = .ok stop r' ↔ r' = r ∧ r.current.kind = .eof ∧ stop = r.current.start := by
  unfold expectEnd
  split
  next hcurrent =>
    simp only [EStateM.Result.ok.injEq, hcurrent, true_and]
    constructor
    · rintro ⟨rfl, rfl⟩
      exact ⟨rfl, rfl⟩
    · rintro ⟨rfl, rfl⟩
      exact ⟨rfl, rfl⟩
  next hcurrent =>
    simp [fail, hcurrent]

end Parse

end NcProgram
