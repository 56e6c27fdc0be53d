import NcProgram.Proofs.DigitRun.Building

namespace NcProgram

open DigitRun Token

theorem Tree.build_returns_iff {tree : Tree} (hspans : ∀ r ∈ tree.runs, r.token.HasSpan)
    (h : fault? tree.build = firstFault? tree.runs) :
    (∃ node, tree.build = .ok node) ↔ ∀ r ∈ tree.runs, r.IsSound := by
  rw [← fault?_eq_none_iff, h]
  exact firstFault?_eq_none_iff hspans

theorem Tree.build_raises {tree : Tree} (hspans : ∀ r ∈ tree.runs, r.token.HasSpan)
    (h : fault? tree.build = firstFault? tree.runs) {front back : List DigitRun} {r : DigitRun}
    (hruns : tree.runs = front ++ r :: back) (hfront : ∀ s ∈ front, s.IsSound)
    (hr : ¬ r.IsSound) : ∃ f, tree.build = .error f ∧ r.Raises f := by
  obtain ⟨f, hf, hraises⟩ := exists_firstFault? hspans hruns hfront hr
  exact ⟨f, fault?_eq_some_iff.mp (h.trans hf), hraises⟩

/-- The runs of digits in front of the first end of the program decide what building ends in. -/
theorem first_unsound_run_decides {k : Rule} {ts : List Token} {tree : Tree} {offset : Nat}
    (htree : Tree.ofStream k (.ofTokens ts) = .ok tree) (hts : AreContiguous offset ts) :
    tree.runs.map DigitRun.token = integerTokens (ts.takeWhile (·.kind ≠ .eof)) ∧
      ((∃ node, tree.build = .ok node) ↔ ∀ r ∈ tree.runs, r.IsSound) ∧
      ∀ front r back, tree.runs = front ++ r :: back → (∀ s ∈ front, s.IsSound) → ¬ r.IsSound →
        ∃ f, tree.build = .error f ∧ r.Raises f := by
  obtain ⟨horder, -⟩ := hts.areInOrder (Int.natCast_nonneg offset)
  obtain ⟨htokens, hspans, hbuild⟩ := Tree.fault?_build_of_ofStream htree horder
  exact ⟨htokens, Tree.build_returns_iff hspans hbuild,
    fun _ _ _ => Tree.build_raises hspans hbuild⟩

theorem Tree.ofStream_line {items : List ItemTree} {stop : Token} (rest : List Token)
    (hitems : Parse.IsItems Parse.Seen.none items)
    (hkinds : ∀ t ∈ items.flatMap ItemTree.leaves, t.kind ≠ .eof) (hstop : stop.kind = .eof) :
    Tree.ofStream .line (.ofTokens (items.flatMap ItemTree.leaves ++ stop :: rest)) =
      .ok (.line (.before items stop)) := by
  let r : Reader := ⟨stop :: rest, none,
    ((items.flatMap ItemTree.leaves).map Token.stop).getLastD 0⟩
  have p : Reader.Passes (.ofTokens (items.flatMap ItemTree.leaves ++ stop :: rest))
      (items.flatMap ItemTree.leaves) r :=
    Reader.passes_iff.mpr ⟨hkinds, rfl, rfl, rfl, nofun⟩
  have hline : Parse.line (.ofTokens (items.flatMap ItemTree.leaves ++ stop :: rest)) =
      .ok (.before items stop) r :=
    Parse.line_eq_ok_iff.mpr ⟨⟨hitems, rfl⟩, p, TokenGrammar.endsLine_eof hstop⟩
  exact Parse.run_ofTokens_eq_ok_iff.mpr
    ⟨r, Parse.map_eq_ok_iff.mpr ⟨_, Parse.onlyLine_eq_ok_iff.mpr ⟨hline, hstop⟩, rfl⟩⟩

theorem first_unsound_run_decides_before_point :
    let x : Token := ⟨.letters, "X", 3, 4, 1, 4⟩
    let integer : Token := ⟨.integer, "1a", 4, 6, 1, 5⟩
    let point : Token := ⟨.dot, ".", 6, 7, 1, 7⟩
    let fraction : Token := ⟨.integer, "b", 7, 8, 1, 8⟩
    let stop : Token := ⟨.eof, "", 8, 8, 1, 9⟩
    ∃ tree, Tree.ofStream .line (.ofTokens [x, integer, point, fraction, stop]) = .ok tree ∧
      ∃ f, tree.build = .error f ∧ DigitRun.Raises ⟨.integerPart, integer⟩ f := by
  intro x integer point fraction stop
  have hitems : Parse.IsItems Parse.Seen.none
      [.field (.ofParts x (.number ⟨none, some integer, some point, some fraction⟩))] := by
    refine ⟨?_, by decide⟩
    rintro _ (_ | ⟨_, ⟨⟩⟩)
    exact .field ⟨rfl, .number (.decimal nofun rfl rfl (by simp [fraction])), rfl⟩
  have hstop : stop.kind = .eof := rfl
  have htree := Tree.ofStream_line [] hitems (by decide) hstop
  have hcontiguous : AreContiguous (3 : Nat) [x, integer, point, fraction, stop] :=
    ⟨rfl, by decide, rfl, by decide, rfl, by decide, rfl, by decide, rfl, by decide, trivial⟩
  obtain ⟨-, -, hdecides⟩ := first_unsound_run_decides htree hcontiguous
  refine ⟨_, htree, hdecides [] _ [⟨.fractionalPart, fraction⟩] rfl (List.forall_mem_nil _) ?_⟩
  exact fun h => absurd h.isDigitRun (by decide)

/-- Digits behind the end of the program are not read, whatever they are. -/
theorem malformed_run_behind_end :
    let ts : List Token :=
      [⟨.eof, "", 0, 0, 1, 1⟩, ⟨.letters, "G", 0, 1, 1, 1⟩, ⟨.integer, "x", 1, 2, 1, 2⟩]
    AreContiguous 0 ts ∧ (∃ t ∈ ts, t.kind = .integer ∧ isDigitRun t.text.toList = false) ∧
      ∃ tree, Tree.ofStream .line (.ofTokens ts) = .ok tree ∧ ∃ node, tree.build = .ok node := by
  intro ts
  have hstop : (⟨.eof, "", 0, 0, 1, 1⟩ : Token).kind = .eof := rfl
  have htree := Tree.ofStream_line ts.tail (Parse.isItems_nil _) (List.forall_mem_nil _) hstop
  refine ⟨⟨rfl, by decide, rfl, by decide, rfl, by decide, trivial⟩, by decide, _, htree, ?_⟩
  exact ⟨.line (.ofItems [] ⟨0, 0, Nat.le_refl 0⟩), rfl⟩

end NcProgram
