import NcProgram.Token.Stream
import NcProgram.Tree

/-!
Reading a token stream from the front, one token ahead. A mistake in the text shows when the token
before it is passed; reading can go on after a fault, from the place where it was found.
-/

namespace NcProgram

/-- The rest of a token stream, the current token first, and the offset at which the last token
passed ends. -/
structure Reader where
  ahead : List Token
  failure : Option ProgramError
  lastEnd : Int
  deriving DecidableEq

namespace Reader

/-- A reader at the start of a stream. A mistake before the first token leaves nothing to read. -/
def ofStream (s : Stream) : Except Fault Reader :=
  match s.tokens, s.failure with
  | [], some e => .error (.program e)
  | tokens, failure => .ok ⟨tokens, failure, 0⟩

/-- The current token. A stream that has run out ends where its last token ended. -/
def current (r : Reader) : Token :=
  r.ahead.headD (.endAt r.lastEnd)

end Reader

/-- A step of reading. A fault leaves the reader where it was found. -/
abbrev Parse := EStateM Fault Reader

namespace Parse

/-- Fail at the current token. -/
def fail {α : Type} (complaint : Token → Complaint) : Parse α := fun r =>
  .error (.atToken .grammar (complaint r.current) r.current) r

/-- Pass the current token. The end of the program is never passed. -/
def advance : Parse Token := fun r =>
  match r.ahead with
  | [] => .ok r.current r
  | t :: rest =>
    if t.kind = .eof then .ok t r
    else
      match rest, r.failure with
      | [], some e => .error (.program e) ⟨[t], none, t.stop⟩
      | _, _ => .ok t ⟨rest, r.failure, t.stop⟩

/-- The current token is of one of the given classes. -/
def check (kinds : List TokenKind) : Parse Bool := fun r =>
  .ok (kinds.contains r.current.kind) r

/-- Pass the current token if it is of one of the given classes. -/
def takeAny? (kinds : List TokenKind) : Parse (Option Token) := fun r =>
  if kinds.contains r.current.kind then (some <$> advance) r else .ok none r

def take? (kind : TokenKind) : Parse (Option Token) :=
  takeAny? [kind]

/-- Pass the current token, which must be of the given class. -/
def expectOr (complaint : Token → Complaint) (kind : TokenKind) : Parse Token := fun r =>
  if r.current.kind = kind then advance r else fail complaint r

def expect (kind : TokenKind) : Parse Token :=
  expectOr (.expected kind) kind

/-- The offset of the end of the program, which must come next. -/
def expectEnd : Parse Int := fun r =>
  if r.current.kind = .eof then .ok r.current.start r else fail .unexpectedToken r

/-- Where a step succeeds, no more tokens are ahead than before. -/
def NonGrowing {α : Type} (p : Parse α) : Prop :=
  ∀ r a r', p r = .ok a r' → r'.ahead.length ≤ r.ahead.length

/-- Where a step succeeds, it has passed a token. -/
def Consuming {α : Type} (p : Parse α) : Prop :=
  ∀ r a r', p r = .ok a r' → r'.ahead.length < r.ahead.length

variable {α β : Type}

theorem Consuming.nonGrowing {p : Parse α} (h : Consuming p) : NonGrowing p :=
  fun r a r' hp => Nat.le_of_lt (h r a r' hp)

theorem nonGrowing_pure (a : α) : NonGrowing (pure a : Parse α) := by
  rintro r _ _ ⟨⟩
  exact Nat.le_refl _

theorem nonGrowing_fail (complaint : Token → Complaint) : NonGrowing (fail complaint : Parse α) := by
  intro r a r' h
  cases h

theorem bind_eq_ok {p : Parse α} {f : α → Parse β} {r r' : Reader} {b : β}
    (h : (p >>= f) r = .ok b r') : ∃ a r₁, p r = .ok a r₁ ∧ f a r₁ = .ok b r' := by
  cases hp : p r with
  | ok a r₁ => exact ⟨a, r₁, rfl, by simpa [bind, EStateM.bind, hp] using h⟩
  | error e r₁ => simp [bind, EStateM.bind, hp] at h

theorem NonGrowing.bind {p : Parse α} {f : α → Parse β} (hp : NonGrowing p)
    (hf : ∀ a, NonGrowing (f a)) : NonGrowing (p >>= f) := by
  intro r b r' h
  obtain ⟨a, r₁, h₁, h₂⟩ := bind_eq_ok h
  exact Nat.le_trans (hf a _ _ _ h₂) (hp _ _ _ h₁)

theorem Consuming.bind {p : Parse α} {f : α → Parse β} (hp : Consuming p)
    (hf : ∀ a, NonGrowing (f a)) : Consuming (p >>= f) := by
  intro r b r' h
  obtain ⟨a, r₁, h₁, h₂⟩ := bind_eq_ok h
  exact Nat.lt_of_le_of_lt (hf a _ _ _ h₂) (hp _ _ _ h₁)

theorem NonGrowing.map {p : Parse α} (hp : NonGrowing p) (f : α → β) : NonGrowing (f <$> p) :=
  NonGrowing.bind (f := fun a => pure (f a)) hp fun a => nonGrowing_pure (f a)

theorem Consuming.map {p : Parse α} (hp : Consuming p) (f : α → β) : Consuming (f <$> p) :=
  Consuming.bind (f := fun a => pure (f a)) hp fun a => nonGrowing_pure (f a)

theorem length_ahead_advance {r r' : Reader} {t : Token} (h : advance r = .ok t r')
    (hr : r.current.kind ≠ .eof) : r'.ahead.length < r.ahead.length := by
  unfold advance at h
  split at h
  next ha => simp [Reader.current, ha, Token.endAt_kind] at hr
  next u rest ha =>
      have hu : u.kind ≠ .eof := by simpa [Reader.current, ha] using hr
      rw [if_neg hu] at h
      split at h
      · cases h
      · simp only [EStateM.Result.ok.injEq] at h
        obtain ⟨_, rfl⟩ := h
        simp [ha]

theorem nonGrowing_advance : NonGrowing advance := by
  intro r t r' h
  by_cases hr : r.current.kind = .eof
  · unfold advance at h
    split at h
    · cases h
      exact Nat.le_refl _
    next u rest ha =>
        have hu : u.kind = .eof := by simpa [Reader.current, ha] using hr
        rw [if_pos hu] at h
        cases h
        exact Nat.le_refl _
  · exact Nat.le_of_lt (length_ahead_advance h hr)

theorem nonGrowing_takeAny? (kinds : List TokenKind) : NonGrowing (takeAny? kinds) := by
  intro r t r' h
  unfold takeAny? at h
  split at h
  · exact nonGrowing_advance.map some _ _ _ h
  · cases h
    exact Nat.le_refl _

theorem nonGrowing_take? (kind : TokenKind) : NonGrowing (take? kind) :=
  nonGrowing_takeAny? _

theorem length_ahead_take? {kind : TokenKind} (hk : kind ≠ .eof) {r r' : Reader} {t : Token}
    (h : take? kind r = .ok (some t) r') : r'.ahead.length < r.ahead.length := by
  unfold take? takeAny? at h
  split at h
  next hc =>
      obtain ⟨a, r₁, h₁, h₂⟩ := bind_eq_ok (f := fun a => pure (some a)) h
      cases h₂
      exact length_ahead_advance h₁ (by simp_all)
  · cases h

theorem consuming_expectOr (complaint : Token → Complaint) {kind : TokenKind}
    (hk : kind ≠ .eof) : Consuming (expectOr complaint kind) := by
  intro r t r' h
  unfold expectOr at h
  split at h
  next hr => exact length_ahead_advance h (by rw [hr]; exact hk)
  · cases h

theorem consuming_expect {kind : TokenKind} (hk : kind ≠ .eof) : Consuming (expect kind) :=
  consuming_expectOr _ hk

end Parse

end NcProgram
