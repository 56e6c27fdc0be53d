import NcProgram.Proofs.Tree.Progress

namespace NcProgram

/-- The documents of the grammar before the given end. -/
inductive DocumentTree.IsDocument (stop : Token) : DocumentTree → Prop where
  | snippet {t : SnippetTree} : Parse.ArePairs t.lines.pairs → t.lastLine.IsLine stop →
      t.extent = ⟨(t.leaves.headD stop).start, stop.start⟩ → IsDocument stop (.snippet t)
  | file {t : FileTree} : (∀ p ∈ t.startPercent, p.kind = .percent) →
      Parse.ArePairs t.lines.pairs → t.lastLine.IsLine (t.endPercent.getD stop) →
      (∀ p ∈ t.endPercent, p.kind = .percent) →
      t.extent = ⟨(t.leaves.headD stop).start, stop.start⟩ → IsDocument stop (.file t)

def Tree.IsTree (stop : Token) : Tree → Prop
  | document t => t.IsDocument stop
  | line t => t.IsLine stop

namespace Parse

open Reader

theorem extent_eq_of_passes {r r' : Reader} {ts : List Token} {x : Extent} (p : Passes r ts r')
    (h : x = ⟨r.current.start, r'.current.start⟩) :
    x = ⟨(ts.headD r'.current).start, r'.current.start⟩ := by
  rw [h, ← p.current_eq]

theorem exists_isTree_of_ok {k : Rule} {ts : List Token} {tree : Tree}
    (h : Tree.ofStream k (.ofTokens ts) = .ok tree) :
    ∃ r, Passes (.ofTokens ts) tree.leaves r ∧ r.current.kind = .eof ∧ tree.IsTree r.current := by
  obtain ⟨r, hr⟩ := run_ofTokens_eq_ok_iff.mp h
  refine ⟨r, ?_⟩
  cases k with
  | line =>
      obtain ⟨t, ht, rfl⟩ := map_eq_ok_iff.mp hr
      obtain ⟨hline, hend⟩ := onlyLine_eq_ok_iff.mp ht
      obtain ⟨hline, p, -⟩ := line_eq_ok_iff.mp hline
      exact ⟨p, hend, hline⟩
  | snippet =>
      obtain ⟨d, hd, rfl⟩ := map_eq_ok_iff.mp hr
      obtain ⟨t, ht, rfl⟩ := map_eq_ok_iff.mp hd
      obtain ⟨hlines, hend, -, hextent⟩ := snippet_eq_ok_iff.mp ht
      obtain ⟨hpairs, hlast, p, -⟩ := linesFrom_eq_ok_iff.mp hlines
      exact ⟨p, hend, .snippet hpairs hlast (extent_eq_of_passes p hextent)⟩
  | file =>
      obtain ⟨d, hd, rfl⟩ := map_eq_ok_iff.mp hr
      obtain ⟨t, ht, rfl⟩ := map_eq_ok_iff.mp hd
      obtain ⟨r₁, r₂, hopen, hlines, hclose, hend, -, hextent⟩ :=
        file_eq_ok_iff.mp ht
      obtain ⟨hstart, p₁, -⟩ := (take?_eq_ok_iff (by decide)).mp hopen
      obtain ⟨hpairs, hlast, p₂, -⟩ := linesFrom_eq_ok_iff.mp hlines
      obtain ⟨hstop, p₃, -⟩ := (take?_eq_ok_iff (by decide)).mp hclose
      have p : Passes (.ofTokens ts) t.leaves r := by
        rw [FileTree.leaves, List.append_assoc t.startPercent.toList]
        exact passes_append_iff.mpr ⟨r₂, passes_append_iff.mpr ⟨r₁, p₁, p₂⟩, p₃⟩
      have hnext : r₂.current = t.endPercent.getD r.current := by
        rw [p₃.current_eq]
        cases t.endPercent <;> rfl
      exact ⟨p, hend, .file hstart hpairs (hnext ▸ hlast) hstop (extent_eq_of_passes p hextent)⟩

end Parse

end NcProgram
