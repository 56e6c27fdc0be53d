import NcProgram.Proofs.Tree.Progress

namespace NcProgram

namespace Parse

open Reader

variable {r r' : Reader}

theorem looksAhead_check (kinds : List TokenKind) : LooksAhead (check kinds) :=
  looksAhead_of_staying (fun _ => rfl) fun r s h => by simp [check, Outcome.moved, h]

theorem answer_mistake_eq (text : String) (r : Reader) : answer (.mistake text) r =
    match Fault.atToken .grammar (.inWords text) r.current with
    | .program e => .ok (.mistake (.program e)) r
    | fault => .error fault r :=
  rfl

theorem looksAhead_mistake (text : String) : LooksAhead (answer (.mistake text)) := by
  refine looksAhead_of_staying (fun r => ?_) fun r s h => ?_
  · rw [answer_mistake_eq]
    split <;> rfl
  · rw [answer_mistake_eq, answer_mistake_eq, h]
    split <;> rfl

theorem looksAhead_answer (call : Call) : LooksAhead (answer call) := by
  cases call with
  | advance => exact looksAhead_advance.map _
  | check kinds => exact (looksAhead_check kinds).map _
  | take kinds => exact (looksAhead_takeAny? kinds).map _
  | expect kind complaint =>
      refine LooksAhead.map ?_ _
      split
      · split
        · exact looksAhead_expect kind
        · exact looksAhead_expectOr _ kind
      · exact looksAhead_expect kind
  | mistake text => exact looksAhead_mistake text
  | expectEnd => exact looksAhead_expectEnd.map _
  | file => exact (looksAhead_document false).map _
  | snippet => exact (looksAhead_document true).map _
  | lines => exact looksAhead_lines.map _
  | line => exact looksAhead_line.map _
  | checksum => exact looksAhead_checksum.map _
  | field => exact looksAhead_field.map _

namespace Reply

/-- The tokens that a call answers with. The end of the program is told, but never passed. -/
def tokens : Reply → List Token
  | passed t => [t].filter (·.kind ≠ .eof)
  | token found => found.toList.filter (·.kind ≠ .eof)
  | flag _ | offset _ | mistake _ => []
  | tree t => t.leaves
  | lines terminated last => terminated.leaves ++ last.leaves
  | checksum t => t.leaves
  | field t => t.leaves

end Reply

theorem passes_of_advance {t : Token} (h : advance r = .ok t r') :
    Passes r ([t].filter (·.kind ≠ .eof)) r' := by
  by_cases hend : r.current.kind = .eof
  · rw [advance_of_end hend] at h
    cases h
    have hnone : [r.current].filter (·.kind ≠ .eof) = [] := by simp [hend]
    rw [hnone]
    exact .nil r
  · have hexpect : expect r.current.kind r = .ok t r' := (if_pos rfl).trans h
    obtain ⟨hkind, p⟩ := (expect_eq_ok_iff hend).mp hexpect
    have hone : [t].filter (·.kind ≠ .eof) = [t] := by simp [hkind, hend]
    rw [hone]
    exact p

theorem passes_of_expectOr {complaint : Token → Complaint} {kind : TokenKind} {t : Token}
    (h : expectOr complaint kind r = .ok t r') : Passes r ([t].filter (·.kind ≠ .eof)) r' := by
  unfold expectOr at h
  split at h
  · exact passes_of_advance h
  · cases h

theorem passes_of_takeAny? {kinds : List TokenKind} {found : Option Token}
    (h : takeAny? kinds r = .ok found r') : Passes r (found.toList.filter (·.kind ≠ .eof)) r' := by
  unfold takeAny? at h
  split at h
  · obtain ⟨t, ht, rfl⟩ := map_eq_ok_iff.mp h
    exact passes_of_advance ht
  · cases h
    exact .nil r

theorem passes_of_lines {t : LinesTree} {last : LineTree} (h : lines r = .ok (t, last) r') :
    Passes r (t.leaves ++ last.leaves) r' :=
  (linesFrom_eq_ok_iff.mp (lines_eq_ok_iff.mp h).1).2.2.1

theorem passes_of_document {isSnippet : Bool} {t : DocumentTree}
    (h : document isSnippet r = .ok t r') : Passes r t.leaves r' := by
  cases isSnippet with
  | true =>
      obtain ⟨t, ht, rfl⟩ := map_eq_ok_iff.mp h
      exact (linesFrom_eq_ok_iff.mp (snippet_eq_ok_iff.mp ht).1).2.2.1
  | false =>
      obtain ⟨t, ht, rfl⟩ := map_eq_ok_iff.mp h
      obtain ⟨r₁, r₂, hopen, hlines, hclose, -⟩ := file_eq_ok_iff.mp ht
      obtain ⟨-, p₁, -⟩ := (take?_eq_ok_iff (by decide)).mp hopen
      obtain ⟨-, -, p₂, -⟩ := linesFrom_eq_ok_iff.mp hlines
      obtain ⟨-, p₃, -⟩ := (take?_eq_ok_iff (by decide)).mp hclose
      have p := passes_append_iff.mpr ⟨r₂, passes_append_iff.mpr ⟨r₁, p₁, p₂⟩, p₃⟩
      rw [← List.append_assoc] at p
      exact p

/-- A call that is answered has passed exactly the tokens of its answer. -/
theorem passes_of_answer {call : Call} {reply : Reply} (h : answer call r = .ok reply r') :
    Passes r reply.tokens r' := by
  cases call with
  | advance =>
      obtain ⟨t, ht, rfl⟩ := map_eq_ok_iff.mp h
      exact passes_of_advance ht
  | check kinds =>
      obtain ⟨b, hb, rfl⟩ := map_eq_ok_iff.mp h
      cases hb
      exact .nil r
  | take kinds =>
      obtain ⟨found, hfound, rfl⟩ := map_eq_ok_iff.mp h
      exact passes_of_takeAny? hfound
  | expect kind complaint =>
      obtain ⟨t, ht, rfl⟩ := map_eq_ok_iff.mp h
      split at ht
      · split at ht
        · exact passes_of_expectOr ht
        · exact passes_of_expectOr ht
      · exact passes_of_expectOr ht
  | mistake text =>
      rw [answer_mistake_eq] at h
      split at h
      · cases h
        exact .nil r
      · cases h
  | expectEnd =>
      obtain ⟨stop, hstop, rfl⟩ := map_eq_ok_iff.mp h
      obtain ⟨rfl, -⟩ := expectEnd_eq_ok_iff.mp hstop
      exact .nil r'
  | file | snippet =>
      obtain ⟨t, ht, rfl⟩ := map_eq_ok_iff.mp h
      exact passes_of_document ht
  | lines =>
      obtain ⟨⟨t, last⟩, ht, rfl⟩ := map_eq_ok_iff.mp h
      exact passes_of_lines ht
  | line =>
      obtain ⟨t, ht, rfl⟩ := map_eq_ok_iff.mp h
      exact (line_eq_ok_iff.mp ht).2.1
  | checksum =>
      obtain ⟨t, ht, rfl⟩ := map_eq_ok_iff.mp h
      exact (checksum_eq_ok_iff.mp ht).2
  | field =>
      obtain ⟨t, ht, rfl⟩ := map_eq_ok_iff.mp h
      exact (field_eq_ok_iff.mp ht).2.2

/-- Looking, making a mistake and asking for the end pass nothing, whatever they answer, and a call
for a token passes nothing when there is none of its classes. -/
inductive IsIdle : Call → Except Fault Reply → Prop where
  | check {kinds : List TokenKind} {answer : Except Fault Reply} : IsIdle (.check kinds) answer
  | mistake {text : String} {answer : Except Fault Reply} : IsIdle (.mistake text) answer
  | expectEnd {answer : Except Fault Reply} : IsIdle .expectEnd answer
  | take {kinds : List TokenKind} : IsIdle (.take kinds) (.ok (.token none))
  | expect {kind : TokenKind} {complaint : Option String} {e : Fault} :
      IsIdle (.expect kind complaint) (.error e)

end Parse

namespace Reader

open Parse

variable {ts us : List Token} {k : Nat} {r r' : Reader}

/-- The reader after calls in a row, whatever they answer. -/
def performAll (r : Reader) (calls : List Call) : Reader :=
  calls.foldl (fun r call => (r.perform call).2) r

theorem perform_snd (r : Reader) (call : Call) :
    (r.perform call).2 = Outcome.reader (answer call r) := by
  unfold perform
  split
  next h => rw [h, Outcome.reader_ok]
  next h => rw [h, Outcome.reader_error]

theorem answer_of_perform_eq_ok {call : Call} {reply : Reply} (h : (r.perform call).1 = .ok reply) :
    answer call r = .ok reply (r.perform call).2 := by
  unfold perform at h ⊢
  split at h
  next reply' r' hanswer =>
    cases h
    exact hanswer
  · cases h

theorem answer_of_perform_eq_error {call : Call} {e : Fault} (h : (r.perform call).1 = .error e) :
    answer call r = .error e (r.perform call).2 := by
  unfold perform at h ⊢
  split at h
  · cases h
  next e' r' hanswer =>
    cases h
    exact hanswer

theorem exists_passes_perform (hr : r.failure = none) (call : Call) :
    ∃ us, Passes r us (r.perform call).2 := by
  obtain ⟨us, h⟩ := looksAhead_answer call r hr
  exact ⟨us, perform_snd r call ▸ h.passes⟩

theorem eq_of_passes_of_end (p : Passes r us r') (hend : r.current.kind = .eof) : r' = r := by
  cases us with
  | nil => exact passes_nil_iff.mp p
  | cons t us =>
      have hcurrent : r.current = t := p.current_eq
      exact absurd (hcurrent ▸ hend) ((passes_iff.mp p).1 t List.mem_cons_self)

theorem perform_eq_self {call : Call} (hr : r.failure = none)
    (h : IsIdle call (r.perform call).1) : (r.perform call).2 = r := by
  generalize hanswer : (r.perform call).1 = reply at h
  cases h with
  | check => rfl
  | mistake =>
      rw [perform_snd, answer_mistake_eq]
      split <;> rfl
  | expectEnd =>
      cases reply with
      | ok reply =>
          obtain ⟨stop, hstop, -⟩ := map_eq_ok_iff.mp (answer_of_perform_eq_ok hanswer)
          exact (expectEnd_eq_ok_iff.mp hstop).1
      | error e =>
          have hstop := map_eq_error_iff.mp (answer_of_perform_eq_error hanswer)
          exact (expectEnd_eq_error hstop).2
  | take => exact passes_nil_iff.mp (passes_of_answer (answer_of_perform_eq_ok hanswer))
  | expect =>
      have hexpect := map_eq_error_iff.mp (answer_of_perform_eq_error hanswer)
      split at hexpect
      · split at hexpect
        · exact (expectOr_eq_error hr hexpect).2
        · exact (expectOr_eq_error hr hexpect).2
      · exact (expectOr_eq_error hr hexpect).2

/-- The call takes the reader from one place in the tokens to another. -/
structure Serves (ts : List Token) (k k' : Nat) (r : Reader) (call : Call) : Prop where
  le : k ≤ k'
  place : (r.perform call).2.HasPassed ts k'
  tokens : ∀ reply, (r.perform call).1 = .ok reply → reply.tokens = (ts.take k').drop k
  idle : IsIdle call (r.perform call).1 → (r.perform call).2 = r
  atEnd : r.current.kind = .eof → (r.perform call).2 = r

theorem HasPassed.exists_serves (h : r.HasPassed ts k) (call : Call) :
    ∃ k', Serves ts k k' r call := by
  obtain ⟨us, p⟩ := exists_passes_perform h.failure call
  obtain ⟨hplace, hus⟩ := h.passes p
  refine ⟨k + us.length, Nat.le_add_right .., hplace, fun reply hreply => ?_,
    perform_eq_self h.failure, eq_of_passes_of_end p⟩
  have q := passes_of_answer (answer_of_perform_eq_ok hreply)
  rw [← hus]
  exact List.append_cancel_right (q.ahead_eq.symm.trans p.ahead_eq)

theorem HasPassed.performAll (h : r.HasPassed ts k) (calls : List Call) :
    ∃ k', k ≤ k' ∧ (r.performAll calls).HasPassed ts k' := by
  induction calls generalizing r k with
  | nil => exact ⟨k, Nat.le_refl k, h⟩
  | cons call calls ih =>
      obtain ⟨k₁, hserves⟩ := h.exists_serves call
      obtain ⟨k', hle, hplace⟩ := ih hserves.place
      exact ⟨k', hserves.le.trans hle, hplace⟩

/-- After any calls a reader stands at one place in its tokens, and every further call takes it on
from there, past exactly the tokens that it answers with. -/
theorem calls_keep_place (ts : List Token) (calls : List Call) :
    ∃ start, Reader.ofStream (.ofTokens ts) = .ok start ∧
      ∃ k, (start.performAll calls).HasPassed ts k ∧
        (∀ j, (start.performAll calls).HasPassed ts j → j = k) ∧
        ∀ call, ∃ k', Serves ts k k' (start.performAll calls) call := by
  refine ⟨.ofTokens ts, ofStream_ofTokens ts, ?_⟩
  obtain ⟨k, -, h⟩ := (hasPassed_ofTokens ts).performAll calls
  exact ⟨k, h, fun _ hj => hj.unique h, fun call => h.exists_serves call⟩

end Reader

end NcProgram
