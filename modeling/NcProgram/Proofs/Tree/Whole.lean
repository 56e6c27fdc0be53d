import NcProgram.Proofs.Lexeme.Sequence
import NcProgram.Proofs.Tree.Document

namespace NcProgram

open Lexeme

namespace Reader

/-- A reader at the start of a text. -/
def ofLexemes (ls : List Lexeme) : Reader :=
  ⟨placed Stream.origin ls ++ [(Stream.origin.afterAll ls).endToken], none, 0⟩

/-- A reader that has passed a whole text. -/
def afterLexemes (ls : List Lexeme) : Reader :=
  ⟨[(Stream.origin.afterAll ls).endToken], none,
    ((placed Stream.origin ls).map Token.stop).getLastD 0⟩

@[simp] theorem current_afterLexemes (ls : List Lexeme) :
    (afterLexemes ls).current = (Stream.origin.afterAll ls).endToken := rfl

theorem takeWhile_before_end {ts rest : List Token} (hts : ∀ t ∈ ts, t.kind ≠ .eof)
    (hrest : ∀ t ∈ rest.head?, t.kind = .eof) : (ts ++ rest).takeWhile (·.kind ≠ .eof) = ts := by
  have hnil : rest.takeWhile (·.kind ≠ .eof) = [] := by
    cases rest with
    | nil => rfl
    | cons t rest => simp [hrest t rfl]
  rw [List.takeWhile_append_of_pos (by simpa using hts), hnil, List.append_nil]

theorem passes_ofLexemes_iff {ls : List Lexeme} (h : ∀ l ∈ ls, HasShape l.kind l.chars)
    {ts : List Token} {r : Reader} :
    Passes (ofLexemes ls) ts r ∧ r.current.kind = .eof ↔
      ts = placed Stream.origin ls ∧ r = afterLexemes ls := by
  have hplaced {t : Token} (ht : t ∈ placed Stream.origin ls) : t.kind ≠ .eof :=
    kind_ne_eof_of_mem_placed h ht
  constructor
  · rintro ⟨p, hend⟩
    obtain ⟨hkinds, hahead, hfailure, hlast, -⟩ := passes_iff.mp p
    obtain ⟨ahead, failure, lastEnd⟩ := r
    have hrest : ∀ t ∈ ahead.head?, t.kind = .eof := by
      cases ahead with
      | nil => simp
      | cons t ahead => simpa [current] using hend
    -- both sides of the equation are cut at their first end of the program
    have hcut := congrArg (List.takeWhile (·.kind ≠ .eof)) hahead
    rw [ofLexemes, takeWhile_before_end (fun t => hplaced) (by simp [Mark.endToken, Token.ofText]),
      takeWhile_before_end hkinds hrest] at hcut
    subst hcut
    obtain rfl : ahead = [(Stream.origin.afterAll ls).endToken] :=
      (List.append_cancel_left hahead).symm
    cases hfailure
    cases hlast
    exact ⟨rfl, rfl⟩
  · rintro ⟨rfl, rfl⟩
    exact ⟨passes_iff.mpr ⟨fun t ht => hplaced ht, rfl, rfl, rfl, by simp [afterLexemes]⟩, rfl⟩

end Reader

namespace Parse

open Reader

variable {α β : Type}

/-- Where the step succeeds, it has passed everything up to the end of the program. -/
def ReachesEnd (p : Parse α) : Prop :=
  ∀ r a r', p r = .ok a r' → (∃ ts, Passes r ts r') ∧ r'.current.kind = .eof

theorem failure_eq_none {source : String} {r r' : Reader} {ts : List Token}
    (hr : Reader.ofStream (.ofSource source) = .ok r) (p : Passes r ts r')
    (hend : r'.current.kind = .eof) : (Stream.ofSource source).failure = none := by
  by_contra hfailure
  have hne {t : Token} : t ∈ (Stream.ofSource source).tokens → t.kind ≠ .eof :=
    Stream.kind_ne_eof hfailure
  obtain ⟨hahead, hr'⟩ : r.ahead = (Stream.ofSource source).tokens ∧
      r.failure = (Stream.ofSource source).failure := by
    unfold Reader.ofStream at hr
    split at hr
    · cases hr
    · cases hr
      exact ⟨rfl, rfl⟩
  obtain ⟨-, htokens, -, -, hnone⟩ := passes_iff.mp p
  cases hleft : r'.ahead with
  | cons t rest =>
      have hkind : t.kind = .eof := by simpa [current, hleft] using hend
      exact hne (hahead ▸ htokens ▸ by simp [hleft]) hkind
  | nil =>
      by_cases hts : ts = []
      · have hempty : (Stream.ofSource source).tokens = [] := by
          rw [← hahead, htokens, hts, hleft, List.append_nil]
        obtain ⟨e, he⟩ := Option.ne_none_iff_exists'.mp hfailure
        simp [Reader.ofStream, hempty, he] at hr
      · exact hfailure (hr' ▸ hnone hts hleft)

theorem run_eq_ok_iff {p : Parse α} (hp : ReachesEnd p) {source : String} {a : α} :
    p.run (.ofSource source) = .ok a ↔ ∃ ls r, IsSequence ls ∧ source.toList = text ls ∧
      p (.ofLexemes ls) = .ok a r := by
  have hstart {ls : List Lexeme} (hls : IsSequence ls) (htext : source.toList = text ls) :
      Reader.ofStream (.ofSource source) = .ok (.ofLexemes ls) := by
    rw [Stream.ofSource_eq hls htext]
    simp [Reader.ofStream, ofLexemes]
  constructor
  · intro h
    cases hr : Reader.ofStream (.ofSource source) with
    | error e => simp [run, hr, bind, Except.bind] at h
    | ok r =>
        cases hstep : p r with
        | error e r' => simp [run, hr, hstep, bind, Except.bind] at h
        | ok b r' =>
            obtain rfl : b = a := by simpa [run, hr, hstep, bind, Except.bind] using h
            obtain ⟨⟨ts, hpasses⟩, hend⟩ := hp r b r' hstep
            obtain ⟨ls, hls, htext⟩ := Stream.exists_sequence (failure_eq_none hr hpasses hend)
            rw [hstart hls htext] at hr
            cases hr
            exact ⟨ls, r', hls, htext, hstep⟩
  · rintro ⟨ls, r, hls, htext, hstep⟩
    simp [run, hstart hls htext, hstep, bind, Except.bind]

theorem reachesEnd_onlyLine : ReachesEnd onlyLine := by
  intro r t r' h
  obtain ⟨hline, hend⟩ := onlyLine_eq_ok_iff.mp h
  exact ⟨⟨_, (line_eq_ok_iff.mp hline).2.1⟩, hend⟩

theorem reachesEnd_snippet : ReachesEnd snippet := by
  intro r t r' h
  obtain ⟨hlines, hend, -⟩ := snippet_eq_ok_iff.mp h
  exact ⟨⟨_, (linesFrom_eq_ok_iff.mp hlines).2.2.1⟩, hend⟩

theorem reachesEnd_file : ReachesEnd file := by
  intro r t r' h
  obtain ⟨r₁, r₂, hopen, hlines, hclose, hend, -⟩ := file_eq_ok_iff.mp h
  obtain ⟨-, p₁, -⟩ := (take?_eq_ok_iff (by decide)).mp hopen
  obtain ⟨-, -, p₂, -⟩ := linesFrom_eq_ok_iff.mp hlines
  obtain ⟨-, p₃, -⟩ := (take?_eq_ok_iff (by decide)).mp hclose
  exact ⟨⟨_, passes_append_iff.mpr ⟨r₂, passes_append_iff.mpr ⟨r₁, p₁, p₂⟩, p₃⟩⟩, hend⟩

end Parse

end NcProgram
