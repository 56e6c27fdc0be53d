import NcProgram.Proofs.LazyReading

namespace NcProgram

section

variable {α β : Type}

def fault? : Except Fault α → Option Fault
  | .ok _ => none
  | .error f => some f

theorem fault?_eq_none_iff {x : Except Fault α} : fault? x = none ↔ ∃ a, x = .ok a := by
  cases x <;> simp [fault?]

theorem fault?_eq_some_iff {x : Except Fault α} {f : Fault} : fault? x = some f ↔ x = .error f := by
  cases x <;> simp [fault?]

@[simp] theorem fault?_pure (a : α) : fault? (pure a) = none := rfl

theorem fault?_bind {x : Except Fault α} {g : α → Except Fault β} {o : Option Fault}
    (h : ∀ a, x = .ok a → fault? (g a) = o) : fault? (x >>= g) = (fault? x).or o := by
  cases x with
  | ok a => exact h a rfl
  | error f => rfl

theorem fault?_bind_of_ok {x : Except Fault α} {g : α → Except Fault β}
    (h : ∀ a, fault? (g a) = none) : fault? (x >>= g) = fault? x := by
  rw [fault?_bind fun a _ => h a, Option.or_none]

theorem fault?_map (g : α → β) (x : Except Fault α) : fault? (g <$> x) = fault? x := by
  cases x <;> rfl

theorem fault?_mapM (g : α → Except Fault β) (xs : List α) :
    fault? (xs.mapM g) = xs.findSome? fun x => fault? (g x) := by
  induction xs with
  | nil => rfl
  | cons x xs ih =>
      rw [List.mapM_cons, fault?_bind fun a _ => (fault?_bind_of_ok fun _ => rfl).trans ih,
        List.findSome?_cons]
      cases fault? (g x) <;> rfl

end

/-- What a run of digits is read for. -/
inductive RunRole where
  /-- A number without sign and point. -/
  | whole
  | integerPart
  | fractionalPart
  | checksum
  deriving DecidableEq

namespace RunRole

/-- The family of the mistakes in the digits of a run. -/
def category : RunRole → Category
  | whole | checksum => .integerFormat
  | integerPart | fractionalPart => .rationalFormat

def what : RunRole → String
  | whole => "integer"
  | integerPart => "integer part"
  | fractionalPart => "fractional part"
  | checksum => "checksum"

end RunRole

structure DigitRun where
  role : RunRole
  token : Token
  deriving DecidableEq

namespace DigitRun

def chars (r : DigitRun) : List Char :=
  r.token.text.toList

def read (r : DigitRun) : Except Fault Nat :=
  match r.role with
  | .checksum => readChecksum r.token
  | role => readDigits role.category role.what r.token

/-- The run is one or more digits, not too many, and a checksum fits in a byte. -/
structure IsSound (r : DigitRun) : Prop where
  isDigitRun : isDigitRun r.chars = true
  length_le : r.chars.length ≤ Text.maxDigits
  checksum_le : r.role = .checksum → Text.decimalValue r.chars ≤ maxChecksum

/-- The fault of a run that is not sound. A mistake is told at the token of the run. -/
inductive Raises (r : DigitRun) : Fault → Prop where
  | malformed {e : ProgramError} : NcProgram.isDigitRun r.chars = false →
      e.category = r.role.category → e.complaint = .malformedDigits r.role.what r.token.text →
      e.place = none → e.IsAt r.token → Raises r (.program e)
  | tooLong : NcProgram.isDigitRun r.chars = true → Text.maxDigits < r.chars.length →
      Raises r (.digitRunTooLong r.chars.length)
  | tooLarge {e : ProgramError} : r.role = .checksum → NcProgram.isDigitRun r.chars = true →
      r.chars.length ≤ Text.maxDigits → maxChecksum < Text.decimalValue r.chars →
      e.category = .checksumRange →
      e.complaint = .checksumTooLarge (Text.decimalValue r.chars) →
      e.place = none → e.IsAt r.token → Raises r (.program e)

theorem Raises.not_isSound {r : DigitRun} {f : Fault} (h : r.Raises f) : ¬ r.IsSound := by
  rintro ⟨hrun, hlength, hchecksum⟩
  cases h with
  | malformed hmalformed => simp [hrun] at hmalformed
  | tooLong _ hlong => omega
  | tooLarge hrole _ _ hlarge => exact absurd (hchecksum hrole) (Nat.not_le.mpr hlarge)

theorem Raises.isAt {r : DigitRun} {e : ProgramError} (h : r.Raises (.program e)) :
    e.IsAt r.token := by
  cases h <;> assumption

theorem Raises.isOfValue {r : DigitRun} {f : Fault} (h : r.Raises f) : f.IsOfValue := by
  cases h with
  | malformed _ hcategory =>
      rw [Fault.IsOfValue, hcategory]
      cases r.role <;> simp [RunRole.category]
  | tooLong => trivial
  | tooLarge _ _ _ _ hcategory => exact .inr (.inl hcategory)

theorem Raises.eq_of_tooLong {r : DigitRun} {n : Nat} {f : Fault}
    (h : r.Raises (.digitRunTooLong n)) (hf : r.Raises f) : f = .digitRunTooLong n := by
  cases h with
  | tooLong hrun hlong =>
      cases hf with
      | malformed hmalformed => simp [hrun] at hmalformed
      | tooLong => rfl
      | tooLarge _ _ hshort => omega

/-- The first fault of the runs, from the front. -/
def firstFault? (rs : List DigitRun) : Option Fault :=
  rs.findSome? fun r => fault? r.read

theorem firstFault?_append (rs ss : List DigitRun) :
    firstFault? (rs ++ ss) = (firstFault? rs).or (firstFault? ss) :=
  List.findSome?_append

theorem firstFault?_flatMap {α : Type} (g : α → List DigitRun) (xs : List α) :
    firstFault? (xs.flatMap g) = xs.findSome? fun x => firstFault? (g x) := by
  induction xs with
  | nil => rfl
  | cons x xs ih =>
      rw [List.flatMap_cons, firstFault?_append, ih, List.findSome?_cons]
      cases firstFault? (g x) <;> rfl

theorem read_of_malformed {r : DigitRun} (h : NcProgram.isDigitRun r.chars = false) :
    r.read = .error (.atToken r.role.category (.malformedDigits r.role.what r.token.text)
      r.token) := by
  obtain ⟨role, t⟩ := r
  dsimp only [chars] at h
  cases role <;>
    simp [read, readChecksum, readDigits, h, RunRole.category, RunRole.what, bind, Except.bind]

theorem read_of_tooLong {r : DigitRun} (h : NcProgram.isDigitRun r.chars = true)
    (hlong : Text.maxDigits < r.chars.length) :
    r.read = .error (.digitRunTooLong r.chars.length) := by
  obtain ⟨role, t⟩ := r
  dsimp only [chars] at h hlong
  cases role <;> simp [read, readChecksum, readDigits, h, hlong, chars, bind, Except.bind]

theorem read_of_short {r : DigitRun} (h : NcProgram.isDigitRun r.chars = true)
    (hshort : r.chars.length ≤ Text.maxDigits) :
    r.read = if r.role = .checksum ∧ maxChecksum < Text.decimalValue r.chars then
      .error (.atToken .checksumRange (.checksumTooLarge (Text.decimalValue r.chars)) r.token)
    else .ok (Text.decimalValue r.chars) := by
  obtain ⟨role, t⟩ := r
  dsimp only [chars] at h hshort
  cases role <;>
    simp [read, readChecksum, readDigits, h, Nat.not_lt.mpr hshort, chars, bind, Except.bind,
      pure, Except.pure]

theorem exists_atToken {r : DigitRun} (h : r.token.HasSpan) (category : Category) (c : Complaint) :
    ∃ e, Fault.atToken category c r.token = .program e ∧ e.category = category ∧
      e.complaint = c ∧ e.place = none ∧ e.IsAt r.token := by
  obtain ⟨e, he⟩ : ∃ e, Fault.atToken category c r.token = .program e :=
    Fault.exists_atToken_eq_program h
  exact ⟨e, he, Fault.atToken_eq_program_iff.mp he⟩

theorem read_cases (r : DigitRun) (h : r.token.HasSpan) :
    (r.IsSound ∧ r.read = .ok (Text.decimalValue r.chars)) ∨ ∃ f, r.Raises f ∧ r.read = .error f := by
  by_cases hrun : NcProgram.isDigitRun r.chars = true
  · by_cases hlong : Text.maxDigits < r.chars.length
    · exact .inr ⟨_, .tooLong hrun hlong, read_of_tooLong hrun hlong⟩
    · have hshort := Nat.not_lt.mp hlong
      rw [read_of_short hrun hshort]
      split
      next hlarge =>
        obtain ⟨e, he, hcategory, hcomplaint, hplace, hat⟩ := exists_atToken h .checksumRange
          (.checksumTooLarge (Text.decimalValue r.chars))
        rw [he]
        exact .inr ⟨_, .tooLarge hlarge.1 hrun hshort hlarge.2 hcategory hcomplaint hplace hat, rfl⟩
      next hsmall =>
        exact .inl ⟨⟨hrun, hshort, fun hrole => Nat.not_lt.mp fun h => hsmall ⟨hrole, h⟩⟩, rfl⟩
  · have hmalformed := Bool.eq_false_iff.mpr hrun
    obtain ⟨e, he, hcategory, hcomplaint, hplace, hat⟩ := exists_atToken h r.role.category
      (.malformedDigits r.role.what r.token.text)
    rw [read_of_malformed hmalformed, he]
    exact .inr ⟨_, .malformed hmalformed hcategory hcomplaint hplace hat, rfl⟩

theorem fault?_read_eq_none_iff {r : DigitRun} (h : r.token.HasSpan) :
    fault? r.read = none ↔ r.IsSound := by
  rcases r.read_cases h with ⟨hsound, hread⟩ | ⟨f, hraises, hread⟩
  · simp [hread, fault?, hsound]
  · simp [hread, fault?, hraises.not_isSound]

theorem firstFault?_eq_none_iff {rs : List DigitRun} (h : ∀ r ∈ rs, r.token.HasSpan) :
    firstFault? rs = none ↔ ∀ r ∈ rs, r.IsSound := by
  rw [firstFault?, List.findSome?_eq_none_iff]
  exact forall₂_congr fun r hr => fault?_read_eq_none_iff (h r hr)

theorem exists_raises_of_firstFault? {rs : List DigitRun} {f : Fault}
    (hspans : ∀ r ∈ rs, r.token.HasSpan) (h : firstFault? rs = some f) :
    ∃ front r back, rs = front ++ r :: back ∧ (∀ s ∈ front, s.IsSound) ∧ r.Raises f := by
  obtain ⟨front, r, back, rfl, hread, hfront⟩ := List.findSome?_eq_some_iff.mp h
  refine ⟨front, r, back, rfl, fun s hs => ?_, ?_⟩
  · exact (fault?_read_eq_none_iff (hspans s (List.mem_append_left _ hs))).mp (hfront s hs)
  · rcases r.read_cases (hspans r (by simp)) with ⟨-, hok⟩ | ⟨f', hraises, herror⟩
    · rw [hok] at hread
      cases hread
    · rw [herror] at hread
      cases hread
      exact hraises

theorem exists_firstFault? {rs front back : List DigitRun} {r : DigitRun}
    (hspans : ∀ r ∈ rs, r.token.HasSpan) (hruns : rs = front ++ r :: back)
    (hfront : ∀ s ∈ front, s.IsSound) (hr : ¬ r.IsSound) :
    ∃ f, firstFault? rs = some f ∧ r.Raises f := by
  subst hruns
  have hbefore : ∀ s ∈ front, s.token.HasSpan := fun s hs => hspans s (List.mem_append_left _ hs)
  rcases r.read_cases (hspans r (by simp)) with ⟨hsound, -⟩ | ⟨f, hraises, hread⟩
  · exact absurd hsound hr
  · refine ⟨f, ?_, hraises⟩
    rw [firstFault?_append, (firstFault?_eq_none_iff hbefore).mpr hfront, Option.none_or,
      firstFault?, List.findSome?_cons, hread]
    rfl

end DigitRun

open DigitRun

/-- The runs of a number. Its form decides what they are read for. -/
def NumberParts.runs (p : NumberParts) : List DigitRun :=
  match p.minus, p.dot with
  | none, none => p.integer.toList.map (⟨.whole, ·⟩)
  | _, _ =>
    p.integer.toList.map (⟨.integerPart, ·⟩) ++ p.fraction.toList.map (⟨.fractionalPart, ·⟩)

def FieldContent.runs : FieldContent → List DigitRun
  | number parts => parts.runs
  | literal _ => []

def ItemTree.runs : ItemTree → List DigitRun
  | trivia _ _ => []
  | field t => t.content.runs
  | checksum t => [⟨.checksum, t.digits⟩]

def LineTree.runs (t : LineTree) : List DigitRun :=
  t.items.flatMap ItemTree.runs

def LinesTree.runs (t : LinesTree) : List DigitRun :=
  t.pairs.flatMap fun p => p.1.runs

def DocumentTree.runs : DocumentTree → List DigitRun
  | file t => t.lines.runs ++ t.lastLine.runs
  | snippet t => t.lines.runs ++ t.lastLine.runs

def Tree.runs : Tree → List DigitRun
  | document t => t.runs
  | line t => t.runs

/-- The tokens of digits among some tokens. -/
def integerTokens (ts : List Token) : List Token :=
  ts.filter (·.kind = .integer)

theorem integerTokens_append (ts us : List Token) :
    integerTokens (ts ++ us) = integerTokens ts ++ integerTokens us :=
  List.filter_append ..

theorem integerTokens_flatMap {α : Type} (g : α → List Token) (xs : List α) :
    integerTokens (xs.flatMap g) = xs.flatMap fun x => integerTokens (g x) :=
  List.filter_flatMap

theorem integerTokens_of_kind {t : Token} {k : TokenKind} (h : t.kind = k) (hk : k ≠ .integer) :
    integerTokens [t] = [] := by
  simp [integerTokens, h, hk]

theorem integerTokens_optional {o : Option Token} {k : TokenKind} (h : ∀ t ∈ o, t.kind = k)
    (hk : k ≠ .integer) : integerTokens o.toList = [] := by
  cases o with
  | none => rfl
  | some t => exact integerTokens_of_kind (h t rfl) hk

theorem NumberParts.tokens_runs {p : NumberParts} (h : p.IsNumber) :
    p.runs.map DigitRun.token = integerTokens p.leaves := by
  cases h with
  | @whole minus digits hminus hdigits =>
      have hsign := integerTokens_optional hminus (by decide)
      cases minus <;> simp_all [runs, leaves, integerTokens]
  | @decimal minus digits dot fraction hminus hdigits hdot hfraction =>
      cases minus <;> cases fraction <;> simp_all [runs, leaves, integerTokens]
  | @fraction minus dot digits hminus hdot hdigits =>
      cases minus <;> simp_all [runs, leaves, integerTokens]

theorem FieldContent.tokens_runs {c : FieldContent} (h : c.IsContent) :
    c.runs.map DigitRun.token = integerTokens c.leaves := by
  cases h with
  | number hnumber => exact NumberParts.tokens_runs hnumber
  | literal hliteral => exact (integerTokens_of_kind hliteral (by decide)).symm

theorem ItemTree.tokens_runs {t : ItemTree} (h : t.IsItem) :
    t.runs.map DigitRun.token = integerTokens t.leaves := by
  cases h with
  | @trivia kind t hkind =>
      exact (integerTokens_of_kind hkind (by cases kind <;> decide)).symm
  | @field t ht =>
      have hletters := integerTokens_of_kind ht.letters (by decide)
      change t.content.runs.map DigitRun.token = integerTokens ([t.letters] ++ t.content.leaves)
      rw [integerTokens_append, hletters, List.nil_append]
      exact FieldContent.tokens_runs ht.content
  | @checksum t ht =>
      have hstar := integerTokens_of_kind ht.star (by decide)
      change [t.digits] = integerTokens ([t.star] ++ [t.digits])
      rw [integerTokens_append, hstar]
      simp [integerTokens, ht.digits]

theorem LineTree.tokens_runs {t : LineTree} {next : Token} (h : t.IsLine next) :
    t.runs.map DigitRun.token = integerTokens t.leaves := by
  rw [runs, leaves, List.map_flatMap, integerTokens_flatMap]
  exact List.flatMap_congr fun u hu => ItemTree.tokens_runs (h.items.isItem u hu)

theorem LinesTree.tokens_runs {t : LinesTree} (h : Parse.ArePairs t.pairs) :
    t.runs.map DigitRun.token = integerTokens t.leaves := by
  rw [runs, leaves, List.map_flatMap, integerTokens_flatMap]
  refine List.flatMap_congr fun p hp => ?_
  obtain ⟨hline, hkind⟩ := h p hp
  rw [integerTokens_append, integerTokens_of_kind hkind (by decide), List.append_nil]
  exact LineTree.tokens_runs hline

theorem fault?_readDigits (role : RunRole) (h : role ≠ .checksum) (o : Option Token) :
    fault? (o.elim (pure 0) (readDigits role.category role.what)) =
      firstFault? (o.toList.map (⟨role, ·⟩)) := by
  cases o with
  | none => rfl
  | some t =>
      have hread : (⟨role, t⟩ : DigitRun).read = readDigits role.category role.what t := by
        cases role <;> first | rfl | exact absurd rfl h
      simp only [Option.elim_some, ← hread, Option.toList_some, List.map_cons, List.map_nil,
        firstFault?, List.findSome?_cons, List.findSome?_nil]
      cases fault? (⟨role, t⟩ : DigitRun).read <;> rfl

theorem NumberParts.fault?_read {p : NumberParts} (h : p.IsNumber) :
    fault? p.read = firstFault? p.runs := by
  have hpart {minus integer fraction : Option Token} {dot : Token}
      (hdigits : integer ≠ none ∨ fraction ≠ none) :
      fault? (NumberParts.read ⟨minus, integer, some dot, fraction⟩) =
        firstFault? (NumberParts.runs ⟨minus, integer, some dot, fraction⟩) := by
    have hruns : NumberParts.runs ⟨minus, integer, some dot, fraction⟩ =
        integer.toList.map (⟨.integerPart, ·⟩) ++ fraction.toList.map (⟨.fractionalPart, ·⟩) := by
      cases minus <;> rfl
    rw [hruns, firstFault?_append, ← fault?_readDigits _ (by decide),
      ← fault?_readDigits _ (by decide), Numeral.read_of_point hdigits]
    exact fault?_bind fun _ _ => fault?_bind_of_ok fun _ => rfl
  cases h with
  | @whole minus digits hminus hdigits =>
      cases minus with
      | none =>
          exact (fault?_bind_of_ok fun _ => rfl).trans
            (fault?_readDigits .whole (by decide) (some digits))
      | some minus =>
          exact (fault?_bind_of_ok fun _ => rfl).trans
            (fault?_readDigits .integerPart (by decide) (some digits))
  | decimal => exact hpart (.inl nofun)
  | fraction => exact hpart (.inr nofun)

theorem FieldContent.fault?_read {c : FieldContent} (h : c.IsContent) :
    fault? c.read = firstFault? c.runs := by
  cases h with
  | number hnumber => exact NumberParts.fault?_read hnumber
  | literal => rfl

end NcProgram
