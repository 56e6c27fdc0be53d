import NcProgram.Proofs.Tree.Line

namespace NcProgram.Parse

open Reader

def ArePairs (pairs : List (LineTree × Token)) : Prop :=
  ∀ p ∈ pairs, p.1.IsLine p.2 ∧ p.2.kind = .newline

theorem linesFrom_of_last {last : LineTree} {r r' : Reader} (hline : line r = .ok last r')
    (hnone : take? .newline r' = .ok none r') : linesFrom r = .ok ([], last) r' := by
  rw [linesFrom]
  split
  next h₁ => simp [hline] at h₁
  next first r₁ h₁ =>
    obtain ⟨rfl, rfl⟩ : last = first ∧ r' = r₁ := by simpa [hline] using h₁
    split
    next h₂ => simp [hnone] at h₂
    next r₂ h₂ =>
      obtain rfl : r' = r₂ := by simpa [hnone] using h₂
      rfl
    next h₂ => simp [hnone] at h₂

theorem linesFrom_of_terminated {t last : LineTree} {terminator : Token}
    {pairs : List (LineTree × Token)} {r r₁ r₂ r' : Reader} (hline : line r = .ok t r₁)
    (hsome : take? .newline r₁ = .ok (some terminator) r₂)
    (hrest : linesFrom r₂ = .ok (pairs, last) r') :
    linesFrom r = .ok ((t, terminator) :: pairs, last) r' := by
  rw [linesFrom]
  split
  next h₁ => simp [hline] at h₁
  next first r₁' h₁ =>
    obtain ⟨rfl, rfl⟩ : t = first ∧ r₁ = r₁' := by simpa [hline] using h₁
    split
    next h₂ => simp [hsome] at h₂
    next h₂ => simp [hsome] at h₂
    next terminator' r₂' h₂ =>
      obtain ⟨rfl, rfl⟩ : terminator = terminator' ∧ r₂ = r₂' := by simpa [hsome] using h₂
      rw [hrest]

theorem linesFrom_eq_ok_iff {pairs : List (LineTree × Token)} {last : LineTree} {r r' : Reader} :
    linesFrom r = .ok (pairs, last) r' ↔ ArePairs pairs ∧ last.IsLine r'.current ∧
      Passes r (pairs.flatMap (fun p => p.1.leaves ++ [p.2]) ++ last.leaves) r' ∧
      r'.current.kind.endsLine = true ∧ r'.current.kind ≠ .newline := by
  constructor
  · intro h
    fun_induction linesFrom r generalizing pairs last r' with
    | case1 => cases h
    | case2 => cases h
    | case3 r first r₁ h₁ r₂ h₂ =>
        cases h
        obtain ⟨hline, p₁, hend⟩ := line_eq_ok_iff.mp h₁
        obtain ⟨-, p₂, hnext⟩ := (take?_eq_ok_iff (by decide)).mp h₂
        obtain rfl := passes_nil_iff.mp p₂
        exact ⟨by simp [ArePairs], hline, p₁, hend, hnext rfl⟩
    | case4 => cases h
    | case5 r first r₁ h₁ terminator r₂ h₂ pairs' last' r₃ h₃ ih =>
        cases h
        obtain ⟨hline, p₁, -⟩ := line_eq_ok_iff.mp h₁
        obtain ⟨hkind, p₂, -⟩ := (take?_eq_ok_iff (by decide)).mp h₂
        obtain ⟨hpairs, hlast, p₃, hend⟩ := ih h₃
        have hcurrent : r₁.current = terminator := by simp [p₂.current_eq]
        refine ⟨?_, hlast, ?_, hend⟩
        · intro p hp
          rcases List.mem_cons.mp hp with rfl | hp
          · exact ⟨hcurrent ▸ hline, hkind terminator rfl⟩
          · exact hpairs p hp
        · simp only [List.flatMap_cons, passes_append_iff] at p₃ ⊢
          obtain ⟨r₄, p₃, p₄⟩ := p₃
          exact ⟨r₄, ⟨r₂, ⟨r₁, p₁, p₂⟩, p₃⟩, p₄⟩
  · rintro ⟨hpairs, hlast, p, hend, hnext⟩
    induction pairs generalizing r with
    | nil =>
        exact linesFrom_of_last (line_eq_ok_iff.mpr ⟨hlast, p, hend⟩)
          (take?_eq_ok_none (by decide) hnext)
    | cons pair pairs ih =>
        obtain ⟨t, terminator⟩ := pair
        obtain ⟨⟨ht, hkind⟩, hpairs⟩ := List.forall_mem_cons.mp hpairs
        simp only [List.flatMap_cons, List.append_assoc, passes_append_iff] at p
        obtain ⟨r₁, p₁, r₂, p₂, r₃, p₃, p₄⟩ := p
        have hcurrent : r₁.current = terminator := by simp [p₂.current_eq]
        have hline : line r = .ok t r₁ := by
          refine line_eq_ok_iff.mpr ⟨hcurrent ▸ ht, p₁, ?_⟩
          rw [hcurrent, hkind]
          rfl
        exact linesFrom_of_terminated hline (take?_eq_ok_some (by decide) hkind p₂)
          (ih hpairs (passes_append_iff.mpr ⟨r₃, p₃, p₄⟩))

theorem lines_eq (r : Reader) :
    lines r = match linesFrom r with
      | .ok (pairs, last) r' => .ok (⟨pairs, r.current.start, last.extent.start⟩, last) r'
      | .error e r' => .error e r' := by
  cases h : linesFrom r <;>
    simp [lines, bind, EStateM.bind, get_eq, pure, EStateM.pure, h]

theorem lines_eq_ok_iff {t : LinesTree} {last : LineTree} {r r' : Reader} :
    lines r = .ok (t, last) r' ↔
      linesFrom r = .ok (t.pairs, last) r' ∧ t.extent = ⟨r.current.start, last.extent.start⟩ := by
  obtain ⟨pairs, extent⟩ := t
  rw [lines_eq]
  split
  next pairs' last' r₁ h =>
    simp only [h, EStateM.Result.ok.injEq, Prod.mk.injEq, LinesTree.mk.injEq]
    constructor
    · rintro ⟨⟨⟨rfl, rfl⟩, rfl⟩, rfl⟩
      exact ⟨⟨⟨rfl, rfl⟩, rfl⟩, rfl⟩
    · rintro ⟨⟨⟨rfl, rfl⟩, rfl⟩, rfl⟩
      exact ⟨⟨⟨rfl, rfl⟩, rfl⟩, rfl⟩
  next h => simp [h]

theorem snippet_eq_ok_iff {t : SnippetTree} {r r' : Reader} :
    snippet r = .ok t r' ↔ linesFrom r = .ok (t.lines.pairs, t.lastLine) r' ∧
      r'.current.kind = .eof ∧ t.lines.extent = ⟨r.current.start, t.lastLine.extent.start⟩ ∧
      t.extent = ⟨r.current.start, r'.current.start⟩ := by
  obtain ⟨terminated, last, extent⟩ := t
  simp only [snippet, bind_eq_ok_iff, get_eq_ok_iff, Prod.exists, lines_eq_ok_iff,
    expectEnd_eq_ok_iff, pure_eq_ok_iff, SnippetTree.mk.injEq]
  constructor
  · rintro ⟨_, _, ⟨rfl, rfl⟩, t, l, r₁, ⟨h, hextent⟩, stop, _, ⟨rfl, hkind, rfl⟩, ⟨rfl, rfl, rfl⟩, rfl⟩
    exact ⟨h, hkind, hextent, rfl⟩
  · rintro ⟨h, hkind, hextent, rfl⟩
    exact ⟨r, r, ⟨rfl, rfl⟩, terminated, last, r', ⟨h, hextent⟩, _, r', ⟨rfl, hkind, rfl⟩,
      ⟨rfl, rfl, rfl⟩, rfl⟩

theorem file_eq_ok_iff {t : FileTree} {r r' : Reader} :
    file r = .ok t r' ↔ ∃ r₁ r₂, take? .percent r = .ok t.startPercent r₁ ∧
      linesFrom r₁ = .ok (t.lines.pairs, t.lastLine) r₂ ∧
      take? .percent r₂ = .ok t.endPercent r' ∧ r'.current.kind = .eof ∧
      t.lines.extent = ⟨r₁.current.start, t.lastLine.extent.start⟩ ∧
      t.extent = ⟨r.current.start, r'.current.start⟩ := by
  obtain ⟨startPercent, terminated, last, endPercent, extent⟩ := t
  simp only [file, bind_eq_ok_iff, get_eq_ok_iff, Prod.exists, lines_eq_ok_iff,
    expectEnd_eq_ok_iff, pure_eq_ok_iff, FileTree.mk.injEq]
  constructor
  · rintro ⟨_, _, ⟨rfl, rfl⟩, p, r₁, hp, t, l, r₂, ⟨h, hextent⟩, q, r₃, hq, stop, _,
      ⟨rfl, hkind, rfl⟩, ⟨rfl, rfl, rfl, rfl, rfl⟩, rfl⟩
    exact ⟨r₁, r₂, hp, h, hq, hkind, hextent, rfl⟩
  · rintro ⟨r₁, r₂, hp, h, hq, hkind, hextent, rfl⟩
    exact ⟨r, r, ⟨rfl, rfl⟩, startPercent, r₁, hp, terminated, last, r₂, ⟨h, hextent⟩, endPercent,
      r', hq, _, r', ⟨rfl, hkind, rfl⟩, ⟨rfl, rfl, rfl, rfl, rfl⟩, rfl⟩

theorem onlyLine_eq_ok_iff {t : LineTree} {r r' : Reader} :
    onlyLine r = .ok t r' ↔ line r = .ok t r' ∧ r'.current.kind = .eof := by
  simp only [onlyLine, bind_eq_ok_iff, expectEnd_eq_ok_iff, pure_eq_ok_iff]
  constructor
  · rintro ⟨t, r₁, h, stop, _, ⟨rfl, hkind, rfl⟩, rfl, rfl⟩
    exact ⟨h, hkind⟩
  · rintro ⟨h, hkind⟩
    exact ⟨t, r', h, _, r', ⟨rfl, hkind, rfl⟩, rfl, rfl⟩

end NcProgram.Parse
