import NcProgram.Proofs.Tree.Document
import NcProgram.Proofs.Tree.Failing

/-!
One token of lookahead. What a step of reading does is decided by the tokens that it passes and the
one it stops at: it does the same wherever it finds them, and a lexical mistake behind the tokens
shows exactly when the step comes to the last of them and passes it.
-/

namespace NcProgram

namespace Reader

/-- The reader over the same tokens when a lexical mistake comes after them. -/
def failing (r : Reader) (e : ProgramError) : Reader :=
  { r with failure := some e }

@[simp] theorem current_failing (r : Reader) (e : ProgramError) :
    (r.failing e).current = r.current := rfl

theorem Passes.failing {r r' : Reader} {ts : List Token} (p : Passes r ts r')
    (hleft : r'.ahead ≠ []) (e : ProgramError) : Passes (r.failing e) ts (r'.failing e) := by
  obtain ⟨hkinds, hahead, -, hlast, -⟩ := passes_iff.mp p
  exact passes_iff.mpr ⟨hkinds, hahead, rfl, hlast, fun _ hnil => absurd hnil hleft⟩

theorem Passes.current_congr {r r' s s' : Reader} {ts : List Token} (p : Passes r ts r')
    (q : Passes s ts s') (h : s'.current = r'.current) : s.current = r.current := by
  rw [p.current_eq, q.current_eq, h]

end Reader

namespace Parse

open Reader

variable {α β : Type}

namespace Outcome

/-- Where a step ends, with a result or with a fault. -/
def reader : EStateM.Result Fault Reader α → Reader
  | .ok _ r => r
  | .error _ r => r

/-- The same result or fault at another reader. -/
def moved (s : Reader) : EStateM.Result Fault Reader α → EStateM.Result Fault Reader α
  | .ok a _ => .ok a s
  | .error e _ => .error e s

@[simp] theorem reader_ok (a : α) (r : Reader) :
    reader (.ok a r : EStateM.Result Fault Reader α) = r := rfl

@[simp] theorem reader_error (e : Fault) (r : Reader) :
    reader (.error e r : EStateM.Result Fault Reader α) = r := rfl

end Outcome

/-- From the given reader the step passes the given tokens, and they and the token behind them
decide what it does. Where no token is left behind them, a lexical mistake would have shown. -/
structure DecidedBy (p : Parse α) (r : Reader) (ts : List Token) : Prop where
  passes : Passes r ts (Outcome.reader (p r))
  again : ∀ {s s' : Reader}, Passes s ts s' → s'.current = (Outcome.reader (p r)).current →
    p s = Outcome.moved s' (p r)
  lexical : ts ≠ [] → (Outcome.reader (p r)).ahead = [] → ∀ e : ProgramError,
    ∃ s, p (r.failing e) = .error (.program e) s

/-- From the given reader the step looks one token ahead and no further. -/
def LooksAheadAt (p : Parse α) (r : Reader) : Prop :=
  r.failure = none → ∃ ts, DecidedBy p r ts

def LooksAhead (p : Parse α) : Prop :=
  ∀ r, LooksAheadAt p r

theorem LooksAheadAt.bind {p : Parse α} {f : α → Parse β} {r : Reader} (hp : LooksAheadAt p r)
    (hf : ∀ a r₁, p r = .ok a r₁ → LooksAheadAt (f a) r₁) : LooksAheadAt (p >>= f) r := by
  intro hr
  obtain ⟨ts, hts⟩ := hp hr
  cases h : p r with
  | error e r₁ =>
      have hfirst := bind_of_error (f := f) h
      refine ⟨ts, ?_, ?_, ?_⟩
      · simpa [hfirst, h] using hts.passes
      · intro s s' q hcurrent
        rw [hfirst] at hcurrent ⊢
        have hs := hts.again q (by rw [h]; exact hcurrent)
        rw [h] at hs
        exact bind_of_error hs
      · intro hne hnil e'
        rw [hfirst] at hnil
        obtain ⟨s, hs⟩ := hts.lexical hne (by rw [h]; exact hnil) e'
        exact ⟨s, bind_of_error hs⟩
  | ok a r₁ =>
      have hfirst := bind_of_ok (f := f) h
      have p₁ : Passes r ts r₁ := by simpa [h] using hts.passes
      obtain ⟨us, hus⟩ := hf a r₁ h (p₁.failure_eq.trans hr)
      have hagain {s s₁ : Reader} (q : Passes s ts s₁) (hcurrent : s₁.current = r₁.current) :
          (p >>= f) s = f a s₁ := by
        have hs := hts.again q (by rw [h]; exact hcurrent)
        rw [h] at hs
        exact bind_of_ok hs
      refine ⟨ts ++ us, ?_, ?_, ?_⟩
      · rw [hfirst]
        exact passes_append_iff.mpr ⟨r₁, p₁, hus.passes⟩
      · intro s s' q hcurrent
        rw [hfirst] at hcurrent ⊢
        obtain ⟨s₁, q₁, q₂⟩ := passes_append_iff.mp q
        rw [hagain q₁ (hus.passes.current_congr q₂ hcurrent)]
        exact hus.again q₂ hcurrent
      · intro hne hnil e
        rw [hfirst] at hnil
        have hahead := hus.passes.ahead_eq
        rw [hnil, List.append_nil] at hahead
        by_cases hleft : r₁.ahead = []
        · -- the mistake has shown before the second step
          have hus : us = [] := hahead.symm.trans hleft
          obtain ⟨s, hs⟩ := hts.lexical (by simpa [hus] using hne) (by rw [h]; exact hleft) e
          exact ⟨s, bind_of_error hs⟩
        · rw [hagain (p₁.failing hleft e) (current_failing r₁ e)]
          exact hus.lexical (hahead ▸ hleft) hnil e

theorem LooksAhead.bind {p : Parse α} {f : α → Parse β} (hp : LooksAhead p)
    (hf : ∀ a, LooksAhead (f a)) : LooksAhead (p >>= f) :=
  fun r => (hp r).bind fun a r₁ _ => hf a r₁

/-- Steps that do the same wherever the current token is the same. -/
theorem LooksAheadAt.congr {p q : Parse α} {r : Reader} (hq : LooksAheadAt q r)
    (h : ∀ s : Reader, s.current = r.current → p s = q s) : LooksAheadAt p r := by
  intro hr
  obtain ⟨ts, hts⟩ := hq hr
  have hself := h r rfl
  refine ⟨ts, ?_, ?_, ?_⟩
  · rw [hself]
    exact hts.passes
  · intro s s' qs hcurrent
    rw [hself] at hcurrent ⊢
    rw [h s (hts.passes.current_congr qs hcurrent)]
    exact hts.again qs hcurrent
  · intro hne hnil e
    rw [hself] at hnil
    rw [h _ (current_failing r e)]
    exact hts.lexical hne hnil e

theorem looksAhead_of_staying {p : Parse α} (h : ∀ r, Outcome.reader (p r) = r)
    (hcurrent : ∀ r s : Reader, s.current = r.current → p s = Outcome.moved s (p r)) :
    LooksAhead p := by
  intro r hr
  refine ⟨[], ?_, ?_, ?_⟩
  · rw [h]
    exact .nil r
  · intro s s' q hs
    obtain rfl := passes_nil_iff.mp q
    rw [h] at hs
    exact hcurrent r s' hs
  · intro hne
    exact absurd rfl hne

theorem looksAhead_pure (a : α) : LooksAhead (pure a : Parse α) :=
  looksAhead_of_staying (fun _ => rfl) fun _ _ _ => rfl

theorem looksAhead_throw (e : Fault) : LooksAhead (throw e : Parse α) :=
  looksAhead_of_staying (fun _ => rfl) fun _ _ _ => rfl

theorem looksAhead_fail (complaint : Token → Complaint) :
    LooksAhead (fail complaint : Parse α) :=
  looksAhead_of_staying (fun _ => rfl) fun r s h => by simp [fail, Outcome.moved, h]

theorem looksAhead_expectEnd : LooksAhead expectEnd := by
  intro r
  by_cases h : r.current.kind = .eof
  · refine (looksAhead_pure r.current.start r).congr fun s hs => ?_
    rw [expectEnd, hs, if_pos h]
    rfl
  · refine (looksAhead_fail .unexpectedToken r).congr fun s hs => ?_
    rw [expectEnd, hs, if_neg h]

theorem LooksAhead.map {p : Parse α} (hp : LooksAhead p) (f : α → β) : LooksAhead (f <$> p) :=
  hp.bind (f := fun a => pure (f a)) fun a => looksAhead_pure (f a)

theorem advance_of_end {r : Reader} (h : r.current.kind = .eof) : advance r = .ok r.current r := by
  unfold advance
  split
  · rfl
  next t rest hahead =>
    have hcurrent : r.current = t := by simp [current, hahead]
    rw [if_pos (hcurrent ▸ h), hcurrent]

theorem looksAhead_advance : LooksAhead advance := by
  intro r
  by_cases hend : r.current.kind = .eof
  · refine (looksAhead_pure r.current r).congr fun s hs => ?_
    rw [advance_of_end (hs ▸ hend), hs]
    rfl
  · intro hr
    obtain ⟨ahead, failure, lastEnd⟩ := r
    cases hr
    cases ahead with
    | nil => exact absurd (Token.endAt_kind lastEnd) hend
    | cons t rest =>
        have hkind : t.kind ≠ .eof := hend
        have hstep : advance ⟨t :: rest, none, lastEnd⟩ = .ok t ⟨rest, none, t.stop⟩ := by
          simp [advance, hkind]
        refine ⟨[t], ?_, ?_, ?_⟩
        · rw [hstep]
          exact passes_singleton_iff.mpr ⟨hkind, hstep⟩
        · intro s s' q _
          rw [hstep]
          exact (passes_singleton_iff.mp q).2
        · intro _ hnil e
          rw [hstep] at hnil
          obtain rfl : rest = [] := hnil
          refine ⟨⟨[t], none, t.stop⟩, ?_⟩
          simp [advance, failing, hkind]

theorem looksAhead_takeAny? (kinds : List TokenKind) : LooksAhead (takeAny? kinds) := by
  intro r
  by_cases h : kinds.contains r.current.kind
  · refine (looksAhead_advance.map some r).congr fun s hs => ?_
    rw [takeAny?, hs, if_pos h]
  · refine (looksAhead_pure none r).congr fun s hs => ?_
    rw [takeAny?, hs, if_neg h]
    rfl

theorem looksAhead_take? (kind : TokenKind) : LooksAhead (take? kind) :=
  looksAhead_takeAny? _

theorem looksAhead_expectOr (complaint : Token → Complaint) (kind : TokenKind) :
    LooksAhead (expectOr complaint kind) := by
  intro r
  by_cases h : r.current.kind = kind
  · refine (looksAhead_advance r).congr fun s hs => ?_
    rw [expectOr, hs, if_pos h]
  · refine (looksAhead_fail complaint r).congr fun s hs => ?_
    rw [expectOr, hs, if_neg h]

theorem looksAhead_expect (kind : TokenKind) : LooksAhead (expect kind) :=
  looksAhead_expectOr _ kind

theorem looksAhead_field : LooksAhead field := by
  refine (looksAhead_expect _).bind fun letters => ?_
  refine (looksAhead_take? _).bind fun literal => ?_
  split
  · exact looksAhead_pure _
  refine (looksAhead_take? _).bind fun minus => ?_
  refine (looksAhead_take? _).bind fun integer => ?_
  split
  · refine (looksAhead_take? _).bind fun dot => ?_
    split
    · exact (looksAhead_take? _).bind fun fraction => looksAhead_pure _
    · exact looksAhead_pure _
  · refine (looksAhead_take? _).bind fun dot => ?_
    split
    · exact (looksAhead_expectOr _ _).bind fun fraction => looksAhead_pure _
    · split
      · exact looksAhead_fail _
      · exact looksAhead_throw _

theorem looksAhead_checksum : LooksAhead checksum :=
  (looksAhead_expect _).bind fun _ => (looksAhead_expectOr _ _).bind fun _ => looksAhead_pure _

theorem looksAhead_lineItem (seen : Seen) : LooksAhead (lineItem seen) := by
  intro r
  cases h : r.current.kind with
  | whitespace =>
      refine ((looksAhead_expect .whitespace).map (.trivia .whitespace) r).congr fun s hs => ?_
      simp only [lineItem, hs, h]
  | inlineComment =>
      refine ((looksAhead_expect .inlineComment).map (.trivia .inlineComment) r).congr
        fun s hs => ?_
      simp only [lineItem, hs, h]
  | comment =>
      refine ((looksAhead_expect .comment).map (.trivia .comment) r).congr fun s hs => ?_
      simp only [lineItem, hs, h]
  | letters =>
      by_cases hseen : seen.checksum || seen.comment
      · refine (looksAhead_fail (fun t => .lateField t.text) r).congr fun s hs => ?_
        simp only [lineItem, hs, h, hseen, if_true]
      · refine (looksAhead_field.map .field r).congr fun s hs => ?_
        simp only [lineItem, hs, h, hseen]
        rfl
  | star =>
      by_cases hchecksum : seen.checksum
      · refine (looksAhead_fail (fun _ => .duplicateChecksum) r).congr fun s hs => ?_
        simp only [lineItem, hs, h, hchecksum, if_true]
      · by_cases hcomment : seen.comment
        · refine (looksAhead_fail (fun _ => .checksumAfterComment) r).congr fun s hs => ?_
          simp only [lineItem, hs, h, hchecksum, hcomment, if_true]
          rfl
        · refine (looksAhead_checksum.map .checksum r).congr fun s hs => ?_
          simp only [lineItem, hs, h, hchecksum, hcomment]
          rfl
  | newline | dot | minus | percent | string | integer | eof =>
      refine (looksAhead_fail .unexpectedToken r).congr fun s hs => ?_
      simp only [lineItem, hs, h]

theorem lineItems_eq (seen : Seen) (r : Reader) :
    lineItems seen r = if r.current.kind.endsLine then .ok [] r
      else (do
        let item ← lineItem seen
        let items ← lineItems (seen.add item)
        pure (item :: items) : Parse (List ItemTree)) r := by
  rw [lineItems]
  split
  · rfl
  · split
    next e r' h => rw [bind_of_error h]
    next item r' h =>
      rw [bind_of_ok h]
      split
      next e r'' h' => rw [bind_of_error h']
      next items r'' h' =>
        rw [bind_of_ok h']
        rfl

theorem lineItems_error_of_item {seen : Seen} {e : Fault} {r r' : Reader}
    (hends : r.current.kind.endsLine = false) (hitem : lineItem seen r = .error e r') :
    lineItems seen r = .error e r' := by
  rw [lineItems_eq, hends]
  exact bind_of_error hitem

theorem lineItems_error_of_rest {seen : Seen} {item : ItemTree} {e : Fault} {r r₁ r' : Reader}
    (hends : r.current.kind.endsLine = false) (hitem : lineItem seen r = .ok item r₁)
    (hrest : lineItems (seen.add item) r₁ = .error e r') : lineItems seen r = .error e r' := by
  rw [lineItems_eq, hends]
  exact (bind_of_ok hitem).trans (bind_of_error hrest)

theorem rule_line_error {e : Fault} {r r' : Reader}
    (h : lineItems Seen.none r = .error e r') : rule .line r = .error e r' := by
  have hline : line r = .error e r' := by rw [line_eq, h]
  exact map_eq_error_iff.mpr (bind_of_error hline)

theorem looksAheadAt_lineItems (seen : Seen) (r : Reader) :
    LooksAheadAt (lineItems seen) r := by
  by_cases hend : r.current.kind.endsLine
  · refine (looksAhead_pure [] r).congr fun s hs => ?_
    rw [lineItems_eq, hs, if_pos hend]
    rfl
  · refine LooksAheadAt.congr ?_ fun s hs => (lineItems_eq seen s).trans
      (if_neg (by rw [hs]; exact hend))
    refine (looksAhead_lineItem seen r).bind fun item r₁ h => ?_
    refine (looksAheadAt_lineItems (seen.add item) r₁).bind fun items r₂ _ => ?_
    exact looksAhead_pure _ r₂
termination_by r.ahead.length
decreasing_by exact consuming_lineItem seen _ _ _ h

theorem line_eq_bind : line = (do
    let items ← lineItems Seen.none
    fun r => .ok (.before items r.current) r : Parse LineTree) := by
  funext r
  rw [line_eq]
  split
  next items r' h =>
    obtain ⟨hitems, p, -⟩ := lineItems_eq_ok_iff.mp h
    refine Eq.trans ?_ (bind_of_ok h).symm
    exact congrArg (EStateM.Result.ok · r') (extent_eq_before hitems p)
  next e r' h => exact (bind_of_error h).symm

theorem looksAhead_line : LooksAhead line := by
  rw [line_eq_bind]
  refine LooksAhead.bind (looksAheadAt_lineItems Seen.none) fun items => ?_
  exact looksAhead_of_staying (fun _ => rfl) fun r s h => by simp [Outcome.moved, h]

theorem linesFrom_eq (r : Reader) :
    linesFrom r = (do
      let first ← line
      match ← take? .newline with
      | none => pure ([], first)
      | some terminator =>
        let (pairs, last) ← linesFrom
        pure ((first, terminator) :: pairs, last) : Parse (List (LineTree × Token) × LineTree))
      r := by
  rw [linesFrom]
  split
  next e r₁ h => rw [bind_of_error h]
  next first r₁ h =>
    rw [bind_of_ok h]
    split
    next e r₂ h' => rw [bind_of_error h']
    next r₂ h' =>
      rw [bind_of_ok h']
      rfl
    next terminator r₂ h' =>
      rw [bind_of_ok h']
      dsimp only
      split
      next e r₃ h'' => rw [bind_of_error h'']
      next pairs last r₃ h'' =>
        rw [bind_of_ok h'']
        rfl

theorem looksAheadAt_linesFrom (r : Reader) : LooksAheadAt linesFrom r := by
  refine LooksAheadAt.congr ?_ fun s _ => linesFrom_eq s
  refine (looksAhead_line r).bind fun first r₁ h₁ => ?_
  refine (looksAhead_take? .newline r₁).bind fun terminator r₂ h₂ => ?_
  match terminator with
  | none => exact looksAhead_pure _ r₂
  | some terminator =>
      exact (looksAheadAt_linesFrom r₂).bind fun (pairs, last) r₃ _ => looksAhead_pure _ r₃
termination_by r.ahead.length
decreasing_by
  exact Nat.lt_of_lt_of_le (length_ahead_take? (by decide) h₂) (nonGrowing_line _ _ _ h₁)

theorem LooksAhead.get_bind {f : Reader → Parse α} (hf : ∀ r, LooksAhead (f r))
    (h : ∀ r s : Reader, s.current = r.current → f s = f r) : LooksAhead (get >>= f) := by
  intro r
  refine (hf r r).congr fun s hs => ?_
  rw [bind_of_ok (get_eq s), h r s hs]

theorem looksAhead_lines : LooksAhead lines := by
  refine LooksAhead.get_bind (fun r => ?_) fun r s hs => by simp only [hs]
  exact LooksAhead.bind looksAheadAt_linesFrom fun (pairs, last) => looksAhead_pure _

theorem looksAhead_snippet : LooksAhead snippet := by
  refine LooksAhead.get_bind (fun r => ?_) fun r s hs => by simp only [hs]
  refine looksAhead_lines.bind fun (terminated, last) => ?_
  exact looksAhead_expectEnd.bind fun _ => looksAhead_pure _

theorem looksAhead_file : LooksAhead file := by
  refine LooksAhead.get_bind (fun r => ?_) fun r s hs => by simp only [hs]
  refine (looksAhead_take? _).bind fun startPercent => ?_
  refine looksAhead_lines.bind fun (terminated, last) => ?_
  refine (looksAhead_take? _).bind fun endPercent => ?_
  exact looksAhead_expectEnd.bind fun _ => looksAhead_pure _

theorem looksAhead_document (isSnippet : Bool) : LooksAhead (document isSnippet) := by
  cases isSnippet with
  | false => exact looksAhead_file.map DocumentTree.file
  | true => exact looksAhead_snippet.map DocumentTree.snippet

theorem looksAhead_onlyLine : LooksAhead onlyLine :=
  looksAhead_line.bind fun _ => looksAhead_expectEnd.bind fun _ => looksAhead_pure _

theorem looksAhead_rule (k : Rule) : LooksAhead (rule k) := by
  cases k with
  | file => exact (looksAhead_document false).map Tree.document
  | snippet => exact (looksAhead_document true).map Tree.document
  | line => exact looksAhead_onlyLine.map Tree.line

end Parse

end NcProgram
