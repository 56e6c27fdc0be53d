import NcProgram.Proofs.DigitRun
import NcProgram.Proofs.Tree.Stream

/-!
Building the nodes of a tree whose tokens follow one another. All offsets are then in order, so only
the runs of digits can be at fault, and they are read in the order of the tokens.
-/

namespace NcProgram

/-- The tokens have spans, and each starts behind those in front of it. -/
structure Token.AreInOrder (ts : List Token) : Prop where
  hasSpan : ∀ t ∈ ts, t.HasSpan
  pairwise : ts.Pairwise fun t u => t.stop ≤ u.start

/-- Each token starts where the one in front of it ends, and the first at the given offset. -/
def Token.AreContiguous : Int → List Token → Prop
  | _, [] => True
  | offset, t :: ts => t.start = offset ∧ offset ≤ t.stop ∧ AreContiguous t.stop ts

namespace Token

variable {ts us : List Token} {t u : Token}

theorem AreInOrder.sublist (h : AreInOrder us) (hsub : ts.Sublist us) : AreInOrder ts :=
  ⟨fun t ht => h.hasSpan t (hsub.subset ht), h.pairwise.sublist hsub⟩

theorem AreContiguous.areInOrder {offset : Int} (h : AreContiguous offset ts) (hoffset : 0 ≤ offset) :
    AreInOrder ts ∧ ∀ t ∈ ts, offset ≤ t.start := by
  induction ts generalizing offset with
  | nil => exact ⟨⟨nofun, .nil⟩, nofun⟩
  | cons t ts ih =>
      obtain ⟨rfl, hstop, hrest⟩ := h
      obtain ⟨⟨hspans, hpairwise⟩, hstarts⟩ := ih hrest (hoffset.trans hstop)
      refine ⟨⟨?_, List.pairwise_cons.mpr ⟨hstarts, hpairwise⟩⟩, ?_⟩
      · exact List.forall_mem_cons.mpr ⟨⟨hoffset, hstop⟩, hspans⟩
      · exact List.forall_mem_cons.mpr ⟨Int.le_refl _, fun u hu => hstop.trans (hstarts u hu)⟩

theorem AreInOrder.stop_le_getLastD (h : AreInOrder ts) (ht : t ∈ ts) (d : Int) :
    t.stop ≤ (ts.map Token.stop).getLastD d := by
  rcases ts.eq_nil_or_concat with rfl | ⟨front, last, rfl⟩
  · cases ht
  · rw [List.concat_eq_append, List.map_append, List.map_singleton, List.getLastD_concat]
    rcases List.mem_append.mp (List.concat_eq_append ▸ ht) with ht | ht
    · obtain ⟨-, -, hlast⟩ := List.pairwise_append.mp (List.concat_eq_append ▸ h.pairwise)
      have := (h.hasSpan last (by simp)).2
      exact (hlast t ht last (by simp)).trans this
    · rw [List.mem_singleton.mp ht]

theorem AreInOrder.concat_endAt (h : AreInOrder ts) :
    AreInOrder (ts ++ [endAt ((ts.map Token.stop).getLastD 0)]) := by
  have hend : 0 ≤ (ts.map Token.stop).getLastD 0 := by
    cases ts with
    | nil => exact Int.le_refl 0
    | cons t ts =>
        obtain ⟨hstart, hstop⟩ := h.hasSpan t List.mem_cons_self
        exact (hstart.trans hstop).trans (h.stop_le_getLastD List.mem_cons_self 0)
  constructor
  · intro t ht
    rcases List.mem_append.mp ht with ht | ht
    · exact h.hasSpan t ht
    · obtain rfl := List.mem_singleton.mp ht
      exact hasSpan_ofText _ _ hend _ _
  · refine List.pairwise_append.mpr ⟨h.pairwise, List.pairwise_singleton _ _, ?_⟩
    intro t ht u hu
    obtain rfl := List.mem_singleton.mp hu
    exact h.stop_le_getLastD ht 0

theorem AreInOrder.start_le_stop (h : AreInOrder (t :: ts)) :
    0 ≤ t.start ∧ t.start ≤ (ts.getLastD t).stop := by
  obtain ⟨hstart, hstop⟩ := h.hasSpan t List.mem_cons_self
  refine ⟨hstart, ?_⟩
  rcases List.mem_cons.mp (List.getLastD_mem_cons (l := ts) (a := t)) with hlast | hlast
  · rwa [hlast]
  · have hnext := List.rel_of_pairwise_cons h.pairwise hlast
    have := (h.hasSpan _ (List.mem_cons_of_mem t hlast)).2
    omega

theorem AreInOrder.start_le_start (h : AreInOrder (ts ++ [u])) :
    0 ≤ (ts.headD u).start ∧ (ts.headD u).start ≤ u.start := by
  cases ts with
  | nil => exact ⟨(h.hasSpan u (by simp)).1, Int.le_refl _⟩
  | cons t ts =>
      obtain ⟨hstart, hstop⟩ := h.hasSpan t (by simp)
      have hmem : u ∈ ts ++ [u] := List.mem_append_right ts List.mem_cons_self
      exact ⟨hstart, hstop.trans (List.rel_of_pairwise_cons h.pairwise hmem)⟩

end Token

theorem fault?_span {x : Extent} (hstart : 0 ≤ x.start) (hstop : x.start ≤ x.stop) :
    fault? x.span = none := by
  rw [Extent.span, Span.ofExtent?, dif_pos ⟨hstart, hstop⟩]
  rfl

open DigitRun Token

theorem FieldTree.fault?_build {t : FieldTree} (ht : t.IsField) (h : AreInOrder t.leaves) :
    fault? t.build = firstFault? t.content.runs := by
  obtain ⟨hstart, hstop⟩ := h.start_le_stop
  have hextent : fault? t.extent.span = none := by
    rw [ht.eq_ofParts]
    exact fault?_span hstart hstop
  rw [← FieldContent.fault?_read ht.content]
  exact fault?_bind_of_ok fun _ => (fault?_bind_of_ok fun _ => rfl).trans hextent

theorem fault?_readChecksum (t : Token) :
    fault? (readChecksum t) = firstFault? [⟨.checksum, t⟩] := by
  rw [firstFault?, List.findSome?_cons, DigitRun.read]
  cases fault? (readChecksum t) <;> rfl

theorem ChecksumTree.fault?_build {t : ChecksumTree} (ht : t.IsChecksum) (h : AreInOrder t.leaves) :
    fault? t.build = firstFault? [⟨.checksum, t.digits⟩] := by
  obtain ⟨hstart, hstop⟩ := h.start_le_stop
  have hextent : fault? t.extent.span = none := by
    rw [ht.extent]
    exact fault?_span hstart hstop
  rw [← fault?_readChecksum]
  exact fault?_bind_of_ok fun _ => (fault?_bind_of_ok fun _ => rfl).trans hextent

theorem ItemTree.fault?_build {t : ItemTree} (ht : t.IsItem) (h : AreInOrder t.leaves) :
    fault? t.build = firstFault? t.runs := by
  cases ht with
  | trivia => rfl
  | field ht => exact (fault?_map _ _).trans (FieldTree.fault?_build ht h)
  | checksum ht => exact (fault?_map _ _).trans (ChecksumTree.fault?_build ht h)

theorem findSome?_congr {α β : Type} {xs : List α} {g g' : α → Option β}
    (h : ∀ x ∈ xs, g x = g' x) : xs.findSome? g = xs.findSome? g' := by
  induction xs with
  | nil => rfl
  | cons x xs ih =>
      rw [List.findSome?_cons, List.findSome?_cons, h x List.mem_cons_self,
        ih fun y hy => h y (List.mem_cons_of_mem x hy)]

theorem sublist_flatMap_of_mem {α β : Type} {xs : List α} {x : α} (h : x ∈ xs) (g : α → List β) :
    (g x).Sublist (xs.flatMap g) := by
  rw [List.flatMap_def]
  exact List.sublist_flatten_of_mem (List.mem_map_of_mem h)

theorem LineTree.fault?_span {t : LineTree} {next : Token} (ht : t.IsLine next)
    (h : AreInOrder (t.leaves ++ [next])) : fault? t.extent.span = none := by
  have hextent : t.extent = ⟨(t.leaves.headD next).start,
      (t.leaves.map Token.stop).getLastD next.start⟩ := congrArg LineTree.extent ht.eq_before
  rw [hextent]
  cases hleaves : t.leaves with
  | nil =>
      exact NcProgram.fault?_span (h.hasSpan next (by simp)).1 (Int.le_refl _)
  | cons u us =>
      rw [hleaves] at h
      obtain ⟨hstart, hstop⟩ := (h.sublist (List.sublist_append_left (u :: us) [next])).start_le_stop
      refine NcProgram.fault?_span hstart ?_
      rwa [List.map_cons, List.getLastD_cons, List.getLastD_eq_getLast?, List.getLast?_map,
        Option.getD_map, ← List.getLastD_eq_getLast?]

theorem LineTree.fault?_build {t : LineTree} {next : Token} (ht : t.IsLine next)
    (h : AreInOrder (t.leaves ++ [next])) : fault? t.build = firstFault? t.runs := by
  have hitems : fault? (t.items.mapM ItemTree.build) = firstFault? t.runs := by
    rw [fault?_mapM, LineTree.runs, firstFault?_flatMap]
    refine findSome?_congr fun u hu => ItemTree.fault?_build (ht.items.isItem u hu) ?_
    exact h.sublist ((sublist_flatMap_of_mem hu _).trans (List.sublist_append_left _ _))
  rw [← hitems]
  exact fault?_bind_of_ok fun _ => (fault?_bind_of_ok fun _ => rfl).trans (LineTree.fault?_span ht h)

theorem LinesTree.fault?_build {t : LinesTree} (ht : Parse.ArePairs t.pairs)
    (h : AreInOrder t.leaves) : fault? t.build = firstFault? t.runs := by
  rw [LinesTree.build, fault?_mapM, LinesTree.runs, firstFault?_flatMap]
  refine findSome?_congr fun p hp => ?_
  refine (fault?_bind_of_ok fun _ => rfl).trans (LineTree.fault?_build (ht p hp).1 ?_)
  exact h.sublist (sublist_flatMap_of_mem hp fun p => p.1.leaves ++ [p.2])

theorem fault?_build_parts {lines : LinesTree} {last : LineTree} {x : Extent} {stop : Token}
    {node : List (Line Item × Trivia) → Line Item → Span → Document Item}
    (hpairs : Parse.ArePairs lines.pairs) (hlast : last.IsLine stop)
    (h : AreInOrder (lines.leaves ++ last.leaves ++ [stop])) (hextent : fault? x.span = none) :
    fault? (do
      let lines ← lines.build
      let last ← last.build
      let span ← x.span
      pure (node lines last span)) = firstFault? (lines.runs ++ last.runs) := by
  have hlines : AreInOrder lines.leaves := h.sublist (by simp)
  have hline : AreInOrder (last.leaves ++ [stop]) := h.sublist (by simp)
  rw [firstFault?_append, ← LinesTree.fault?_build hpairs hlines,
    ← LineTree.fault?_build hlast hline]
  refine fault?_bind fun _ _ => fault?_bind_of_ok fun _ => ?_
  exact (fault?_bind_of_ok fun _ => rfl).trans hextent

theorem DocumentTree.fault?_build {t : DocumentTree} {stop : Token} (ht : t.IsDocument stop)
    (h : AreInOrder (t.leaves ++ [stop])) : fault? t.build = firstFault? t.runs := by
  obtain ⟨hstart, hstop⟩ := h.start_le_start
  cases ht with
  | @snippet t hpairs hlast hextent =>
      exact fault?_build_parts hpairs hlast h (hextent ▸ fault?_span hstart hstop)
  | @file t _ hpairs hlast _ hextent =>
      -- behind the last line stands the closing sign where there is one, else the end
      refine fault?_build_parts hpairs hlast (h.sublist ?_) (hextent ▸ fault?_span hstart hstop)
      rw [leaves, FileTree.leaves]
      cases t.endPercent <;> simp

theorem Tree.fault?_build {tree : Tree} {stop : Token} (ht : tree.IsTree stop)
    (h : AreInOrder (tree.leaves ++ [stop])) : fault? tree.build = firstFault? tree.runs := by
  cases tree with
  | document t => exact (fault?_map _ _).trans (DocumentTree.fault?_build ht h)
  | line t => exact (fault?_map _ _).trans (LineTree.fault?_build ht h)

theorem DocumentTree.tokens_runs {t : DocumentTree} {stop : Token} (ht : t.IsDocument stop) :
    t.runs.map DigitRun.token = integerTokens t.leaves := by
  cases ht with
  | @snippet t hpairs hlast _ =>
      rw [runs, List.map_append, LinesTree.tokens_runs hpairs, LineTree.tokens_runs hlast,
        ← integerTokens_append]
      rfl
  | @file t hstart hpairs hlast hstop _ =>
      rw [runs, List.map_append, LinesTree.tokens_runs hpairs, LineTree.tokens_runs hlast, leaves,
        FileTree.leaves]
      simp only [integerTokens_append, integerTokens_optional hstart (by decide),
        integerTokens_optional hstop (by decide), List.nil_append, List.append_nil]

theorem Tree.tokens_runs {tree : Tree} {stop : Token} (ht : tree.IsTree stop) :
    tree.runs.map DigitRun.token = integerTokens tree.leaves := by
  cases tree with
  | document t => exact DocumentTree.tokens_runs ht
  | line t => exact LineTree.tokens_runs ht

theorem Reader.areInOrder_of_passes {ts us : List Token} {r : Reader}
    (p : Passes (.ofTokens ts) us r) (h : AreInOrder ts) : AreInOrder (us ++ [r.current]) := by
  have hts : ts = us ++ r.ahead := p.ahead_eq
  cases hahead : r.ahead with
  | cons t rest =>
      have hcurrent : r.current = t := by simp [Reader.current, hahead]
      rw [hcurrent]
      refine h.sublist ?_
      rw [hts, hahead]
      simp
  | nil =>
      obtain rfl : ts = us := by rw [hts, hahead, List.append_nil]
      have hcurrent : r.current = .endAt ((ts.map Token.stop).getLastD 0) := by
        rw [Reader.current, hahead, List.headD_nil, (passes_iff.mp p).2.2.2.1]
        rfl
      exact hcurrent ▸ h.concat_endAt

/-- Where the tokens of a tree follow one another, its runs are the digits in front of the first end
of the program, and building it ends in the first fault of these runs. -/
theorem Tree.fault?_build_of_ofStream {k : Rule} {ts : List Token} {tree : Tree}
    (h : ofStream k (.ofTokens ts) = .ok tree) (hts : AreInOrder ts) :
    tree.runs.map DigitRun.token = integerTokens (ts.takeWhile (·.kind ≠ .eof)) ∧
      (∀ r ∈ tree.runs, r.token.HasSpan) ∧ fault? tree.build = firstFault? tree.runs := by
  obtain ⟨r, p, hend, htree⟩ := Parse.exists_isTree_of_ok h
  have hleaves : tree.leaves = ts.takeWhile (·.kind ≠ .eof) := Reader.eq_takeWhile_of_passes p hend
  have htokens := Tree.tokens_runs htree
  refine ⟨hleaves ▸ htokens, fun run hrun => ?_,
    Tree.fault?_build htree (Reader.areInOrder_of_passes p hts)⟩
  have hmem : run.token ∈ integerTokens tree.leaves := htokens ▸ List.mem_map_of_mem hrun
  have hts' : tree.leaves.Sublist ts := hleaves ▸ List.takeWhile_sublist _
  exact hts.hasSpan _ (hts'.subset (List.mem_filter.mp hmem).1)

open Lexeme

theorem Lexeme.areContiguous_placed (m : Mark) (ls : List Lexeme) :
    AreContiguous m.offset (placed m ls ++ [(m.afterAll ls).endToken]) := by
  induction ls generalizing m with
  | nil => exact ⟨rfl, Int.le_add_of_nonneg_right (Int.natCast_nonneg _), trivial⟩
  | cons l ls ih =>
      have hstop : (l.token m).stop = (m.after l).offset := by
        simp [Lexeme.token, Token.ofText, Mark.after]
      refine ⟨rfl, ?_, hstop ▸ ih (m.after l)⟩
      rw [hstop]
      exact Int.ofNat_le.mpr (Nat.le_add_right _ _)

theorem Stream.areInOrder_tokens {source : String} (h : (ofSource source).failure = none) :
    AreInOrder (ofSource source).tokens := by
  obtain ⟨ls, hls, htext⟩ := exists_sequence h
  rw [ofSource_eq hls htext]
  exact (areContiguous_placed origin ls).areInOrder (Int.le_refl 0) |>.1

theorem Tree.ofSource_of_failure (k : Rule) {source : String} {e' : ProgramError}
    (h : (Stream.ofSource source).failure = some e') :
    ∃ e, ofSource k source = .error (.program e) ∧
      (e = e' ∨ e.category = .grammar ∧ ∃ t ∈ (Stream.ofSource source).tokens, e.IsAt t) := by
  have hkinds : ∀ t ∈ (Stream.ofSource source).tokens, t.kind ≠ .eof :=
    fun t => Stream.kind_ne_eof (h ▸ Option.some_ne_none e')
  have hspans : ∀ t ∈ (Stream.ofSource source).tokens, t.HasSpan :=
    fun t => Stream.hasSpan_of_mem_tokens
  have hstream : Stream.ofSource source = ⟨(Stream.ofSource source).tokens, some e'⟩ := by
    rw [← h]
  rw [ofSource, hstream]
  rcases ofStream_failing (k := k) (e := e') hkinds hspans with
    ⟨herror, -⟩ | ⟨e, herror, hcategory, hat, -⟩
  · exact ⟨e', herror, .inl rfl⟩
  · exact ⟨e, herror, .inr ⟨hcategory, hat⟩⟩

theorem Tree.failure_eq_none {k : Rule} {source : String} {tree : Tree}
    (h : ofSource k source = .ok tree) : (Stream.ofSource source).failure = none := by
  cases hfailure : (Stream.ofSource source).failure with
  | none => rfl
  | some e =>
      obtain ⟨e', herror, -⟩ := ofSource_of_failure k hfailure
      cases h.symm.trans herror

theorem Stream.ofSource_eq_ofTokens {source : String} (h : (ofSource source).failure = none) :
    ofSource source = .ofTokens (ofSource source).tokens := by
  rw [ofTokens, ← h]

theorem Tree.fault?_build_of_ofSource {k : Rule} {source : String} {tree : Tree}
    (h : ofSource k source = .ok tree) :
    (∀ r ∈ tree.runs, r.token ∈ (Stream.ofSource source).tokens ∧ r.token.HasSpan) ∧
      fault? tree.build = firstFault? tree.runs := by
  have hfailure := failure_eq_none h
  rw [ofSource, Stream.ofSource_eq_ofTokens hfailure] at h
  obtain ⟨htokens, hspans, hbuild⟩ :=
    fault?_build_of_ofStream h (Stream.areInOrder_tokens hfailure)
  refine ⟨fun r hr => ⟨?_, hspans r hr⟩, hbuild⟩
  have hmem := htokens ▸ List.mem_map_of_mem hr
  exact (List.takeWhile_sublist _).subset (List.mem_filter.mp hmem).1

end NcProgram
