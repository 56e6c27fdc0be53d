import NcProgram.Proofs.Tree.Field

namespace NcProgram

/-- The trivia that a line may hold, as the classes of tokens. -/
def TriviaKind.tokenKind : TriviaKind → TokenKind
  | whitespace => .whitespace
  | newline => .newline
  | comment => .comment
  | inlineComment => .inlineComment

/-- What a part counts as in the order of its line. -/
inductive Part where
  | trivia (kind : TriviaKind)
  | field
  | checksum
  deriving DecidableEq

def ItemTree.part : ItemTree → Part
  | trivia kind _ => .trivia kind
  | field _ => .field
  | checksum _ => .checksum

namespace Parse.Seen

/-- What was seen after one more part of its line. -/
def after (s : Seen) : Part → Seen
  | .checksum => { s with checksum := true }
  | .trivia .comment => { s with comment := true }
  | _ => s

def Allows (s : Seen) : Part → Prop
  | .trivia kind => kind ≠ .newline
  | _ => s.checksum = false ∧ s.comment = false

def Ordered : Seen → List Part → Prop
  | _, [] => True
  | s, p :: ps => s.Allows p ∧ Ordered (s.after p) ps

instance (s : Seen) (p : Part) : Decidable (s.Allows p) :=
  match p with
  | .trivia kind => inferInstanceAs (Decidable (kind ≠ .newline))
  | .field | .checksum => inferInstanceAs (Decidable (_ ∧ _))

instance decidableOrdered : (s : Seen) → (ps : List Part) → Decidable (s.Ordered ps)
  | _, [] => inferInstanceAs (Decidable True)
  | s, p :: ps =>
    have := decidableOrdered (s.after p) ps
    inferInstanceAs (Decidable (s.Allows p ∧ (s.after p).Ordered ps))

theorem add_eq_after (s : Seen) (t : ItemTree) : s.add t = s.after t.part := by
  rcases t with ⟨kind, t⟩ | t | t
  · cases kind <;> rfl
  · rfl
  · rfl

theorem count_checksum_le {seen : Seen} {parts : List Part} (h : seen.Ordered parts) :
    parts.count .checksum ≤ (!seen.checksum).toNat := by
  induction parts generalizing seen with
  | nil => simp
  | cons part parts ih =>
      obtain ⟨hallows, hordered⟩ := h
      have hrest := ih hordered
      cases part with
      | trivia kind => cases kind <;> simpa [after] using hrest
      | field => simpa [after] using hrest
      | checksum =>
          have hseen : seen.checksum = false := hallows.1
          simpa [after, hseen] using hrest

end Parse.Seen

namespace ItemTree

inductive IsItem : ItemTree → Prop where
  | trivia {kind : TriviaKind} {t : Token} : t.kind = kind.tokenKind → IsItem (.trivia kind t)
  | field {t : FieldTree} : t.IsField → IsItem (.field t)
  | checksum {t : ChecksumTree} : t.IsChecksum → IsItem (.checksum t)

def Continues : ItemTree → TokenKind → Prop
  | .field t, k => t.content.Continues k
  | _, _ => False

end ItemTree

namespace Parse

open Reader

theorem trivia_eq_ok {kind : TriviaKind} (hkind : kind ≠ .newline) {t : ItemTree}
    {r r' : Reader} (h : (ItemTree.trivia kind <$> expect kind.tokenKind : Parse ItemTree) r =
      .ok t r') (seen : Seen) :
    t.IsItem ∧ seen.Allows t.part ∧ ¬ t.Continues r'.current.kind ∧ Passes r t.leaves r' := by
  obtain ⟨u, hu, rfl⟩ := map_eq_ok_iff.mp h
  obtain ⟨hu, p⟩ := (expect_eq_ok_iff (by cases kind <;> decide)).mp hu
  exact ⟨.trivia hu, hkind, not_false, p⟩

theorem lineItem_eq_ok_iff {seen : Seen} {t : ItemTree} {r r' : Reader} :
    lineItem seen r = .ok t r' ↔ t.IsItem ∧ seen.Allows t.part ∧
      ¬ t.Continues r'.current.kind ∧ Passes r t.leaves r' := by
  constructor
  · intro h
    unfold lineItem at h
    split at h
    · exact trivia_eq_ok (by decide) h seen
    · exact trivia_eq_ok (by decide) h seen
    · split at h
      · cases h
      next hseen =>
        obtain ⟨u, hu, rfl⟩ := map_eq_ok_iff.mp h
        obtain ⟨hfield, hend, p⟩ := field_eq_ok_iff.mp hu
        exact ⟨.field hfield, by simpa [Seen.Allows, ItemTree.part] using hseen, hend, p⟩
    · split at h
      · cases h
      next hchecksum =>
        split at h
        · cases h
        next hcomment =>
          obtain ⟨u, hu, rfl⟩ := map_eq_ok_iff.mp h
          obtain ⟨hu, p⟩ := checksum_eq_ok_iff.mp hu
          have hallows : seen.Allows .checksum := ⟨by simpa using hchecksum, by simpa using hcomment⟩
          exact ⟨.checksum hu, hallows, not_false, p⟩
    · exact trivia_eq_ok (by decide) h seen
    · cases h
  · rintro ⟨ht, hallows, hend, p⟩
    have hcurrent := p.current_eq
    cases ht with
    | @trivia kind u hkind =>
        have hexpect := (expect_eq_ok_iff (by cases kind <;> decide)).mpr ⟨hkind, p⟩
        have hcurrent : r.current.kind = kind.tokenKind := by
          simpa [hcurrent, ItemTree.leaves] using hkind
        cases kind with
        | newline => exact absurd rfl hallows
        | whitespace | inlineComment | comment =>
            simp only [lineItem, hcurrent, TriviaKind.tokenKind] at hexpect ⊢
            exact map_eq_ok_iff.mpr ⟨u, hexpect, rfl⟩
    | @field u hu =>
        have hcurrent : r.current.kind = .letters := by
          simpa [hcurrent, ItemTree.leaves, FieldTree.leaves] using hu.letters
        obtain ⟨hchecksum, hcomment⟩ := hallows
        simp only [lineItem, hcurrent, hchecksum, hcomment, Bool.or_false, Bool.false_eq_true,
          if_false]
        exact map_eq_ok_iff.mpr ⟨u, field_eq_ok_iff.mpr ⟨hu, hend, p⟩, rfl⟩
    | @checksum u hu =>
        have hcurrent : r.current.kind = .star := by
          simpa [hcurrent, ItemTree.leaves, ChecksumTree.leaves] using hu.star
        obtain ⟨hchecksum, hcomment⟩ := hallows
        simp only [lineItem, hcurrent, hchecksum, hcomment, Bool.false_eq_true, if_false]
        exact map_eq_ok_iff.mpr ⟨u, checksum_eq_ok_iff.mpr ⟨hu, p⟩, rfl⟩

theorem eq_dot_or_integer_of_continues {t : ItemTree} {k : TokenKind} (h : t.Continues k) :
    k = .dot ∨ k = .integer := by
  rcases t with ⟨kind, t⟩ | ⟨letters, ⟨minus, integer, dot, fraction⟩ | t, extent⟩ | t
  · exact h.elim
  · rcases dot with _ | dot
    · exact .inl h
    · rcases fraction with _ | fraction
      · exact .inr h
      · exact h.elim
  · exact h.elim
  · exact h.elim

theorem exists_head_of_isItem {t : ItemTree} (ht : t.IsItem) {seen : Seen}
    (hallows : seen.Allows t.part) :
    ∃ u us, t.leaves = u :: us ∧ u.kind.endsLine = false ∧ u.kind ≠ .dot ∧ u.kind ≠ .integer := by
  cases ht with
  | @trivia kind u hkind =>
      refine ⟨u, [], rfl, ?_⟩
      rw [hkind]
      cases kind with
      | newline => exact absurd rfl hallows
      | whitespace | comment | inlineComment => decide
  | @field u hu =>
      refine ⟨u.letters, u.content.leaves, rfl, ?_⟩
      rw [hu.letters]
      decide
  | @checksum u hu =>
      refine ⟨u.star, [u.digits], rfl, ?_⟩
      rw [hu.star]
      decide

/-- Parts of a line, as they may follow after what was seen. -/
structure IsItems (seen : Seen) (items : List ItemTree) : Prop where
  isItem : ∀ t ∈ items, t.IsItem
  ordered : seen.Ordered (items.map ItemTree.part)

theorem isItems_nil (seen : Seen) : IsItems seen [] :=
  ⟨by simp, trivial⟩

theorem isItems_cons_iff {seen : Seen} {t : ItemTree} {items : List ItemTree} :
    IsItems seen (t :: items) ↔
      t.IsItem ∧ seen.Allows t.part ∧ IsItems (seen.add t) items := by
  rw [Seen.add_eq_after]
  constructor
  · rintro ⟨hitems, hallows, hordered⟩
    exact ⟨hitems t (by simp), hallows, fun u hu => hitems u (by simp [hu]), hordered⟩
  · rintro ⟨ht, hallows, hitems, hordered⟩
    exact ⟨by simpa [ht] using hitems, hallows, hordered⟩

/-- Nothing after a part of a line carries it on but what belongs to it. -/
theorem not_continues_of_passes {t : ItemTree} {seen : Seen} {items : List ItemTree}
    (hitems : IsItems seen items) {r r' : Reader} (h : Passes r (items.flatMap ItemTree.leaves) r')
    (hend : r'.current.kind.endsLine = true) : ¬ t.Continues r.current.kind := by
  intro hcontinues
  have hkind := eq_dot_or_integer_of_continues hcontinues
  rw [h.current_eq] at hkind
  cases items with
  | nil =>
      rw [List.flatMap_nil, List.headD_nil] at hkind
      rcases hkind with hkind | hkind
      · simp [hkind, TokenKind.endsLine] at hend
      · simp [hkind, TokenKind.endsLine] at hend
  | cons u items =>
      obtain ⟨hu, hallows, -⟩ := isItems_cons_iff.mp hitems
      obtain ⟨head, rest, hleaves, -, hdot, hinteger⟩ := exists_head_of_isItem hu hallows
      simp only [List.flatMap_cons, hleaves, List.cons_append, List.headD_cons] at hkind
      exact hkind.elim hdot hinteger

theorem lineItems_eq_ok_iff {seen : Seen} {items : List ItemTree} {r r' : Reader} :
    lineItems seen r = .ok items r' ↔ IsItems seen items ∧
      Passes r (items.flatMap ItemTree.leaves) r' ∧ r'.current.kind.endsLine = true := by
  constructor
  · intro h
    fun_induction lineItems seen r generalizing items r' with
    | case1 seen r hr =>
        cases h
        exact ⟨isItems_nil seen, .nil r, hr⟩
    | case2 => cases h
    | case3 => cases h
    | case4 seen r hr t r₁ h₁ items' r₂ h₂ ih =>
        cases h
        obtain ⟨ht, hallows, -, p₁⟩ := lineItem_eq_ok_iff.mp h₁
        obtain ⟨hitems, p₂, hend⟩ := ih h₂
        exact ⟨isItems_cons_iff.mpr ⟨ht, hallows, hitems⟩, passes_append_iff.mpr ⟨r₁, p₁, p₂⟩, hend⟩
  · rintro ⟨hitems, p, hend⟩
    induction items generalizing seen r with
    | nil =>
        obtain rfl := passes_nil_iff.mp p
        rw [lineItems, if_pos hend]
    | cons t items ih =>
        obtain ⟨ht, hallows, hitems⟩ := isItems_cons_iff.mp hitems
        obtain ⟨r₁, p₁, p₂⟩ := passes_append_iff.mp p
        obtain ⟨head, rest, hleaves, hline, -⟩ := exists_head_of_isItem ht hallows
        have hstart : ¬ r.current.kind.endsLine = true := by
          simp [p₁.current_eq, hleaves, hline]
        have hitem : lineItem seen r = .ok t r₁ := lineItem_eq_ok_iff.mpr
          ⟨ht, hallows, not_continues_of_passes hitems p₂ hend, p₁⟩
        rw [lineItems, if_neg hstart]
        split
        next hitem' => simp [hitem] at hitem'
        next t' r₁' hitem' =>
          obtain ⟨rfl, rfl⟩ : t = t' ∧ r₁ = r₁' := by simpa [hitem] using hitem'
          rw [ih hitems p₂]

end Parse

namespace LineTree

/-- The line of the given parts before the given token. An empty one has no width and lies where
the token starts. -/
def before (items : List ItemTree) (next : Token) : LineTree where
  items := items
  extent :=
    let leaves := items.flatMap ItemTree.leaves
    ⟨(leaves.headD next).start, (leaves.map Token.stop).getLastD next.start⟩

/-- The lines of the grammar before the given token. -/
structure IsLine (t : LineTree) (next : Token) : Prop where
  items : Parse.IsItems Parse.Seen.none t.items
  eq_before : t = before t.items next

end LineTree

namespace Parse

open Reader

theorem extent_eq_before {items : List ItemTree} (h : IsItems Seen.none items) {r r' : Reader}
    (p : Passes r (items.flatMap ItemTree.leaves) r') :
    (⟨items, r.current.start, if items.isEmpty then r.current.start else r'.lastEnd⟩ : LineTree) =
      .before items r'.current := by
  obtain ⟨-, -, -, hlast, -⟩ := passes_iff.mp p
  cases items with
  | nil =>
      obtain rfl := passes_nil_iff.mp p
      rfl
  | cons t items =>
      obtain ⟨ht, hallows, -⟩ := isItems_cons_iff.mp h
      obtain ⟨head, rest, hleaves, -⟩ := exists_head_of_isItem ht hallows
      simp only [List.flatMap_cons, hleaves, List.cons_append, List.map_cons,
        List.getLastD_cons] at hlast
      simp only [LineTree.before, p.current_eq, hlast, hleaves, List.flatMap_cons, List.cons_append,
        List.headD_cons, List.map_cons, List.getLastD_cons, List.isEmpty_cons, Bool.false_eq_true,
        if_false]

theorem line_eq (r : Reader) :
    line r = match lineItems Seen.none r with
      | .ok items r' =>
        .ok ⟨items, r.current.start, if items.isEmpty then r.current.start else r'.lastEnd⟩ r'
      | .error e r' => .error e r' := by
  cases h : lineItems Seen.none r <;>
    simp [line, bind, EStateM.bind, get_eq, pure, EStateM.pure, h]

theorem line_eq_ok_iff {t : LineTree} {r r' : Reader} :
    line r = .ok t r' ↔
      t.IsLine r'.current ∧ Passes r t.leaves r' ∧ r'.current.kind.endsLine = true := by
  rw [line_eq]
  constructor
  · intro h
    split at h
    next items r₁ hitems =>
      cases h
      obtain ⟨hitems, p, hend⟩ := lineItems_eq_ok_iff.mp hitems
      exact ⟨⟨hitems, extent_eq_before hitems p⟩, p, hend⟩
    · cases h
  · rintro ⟨⟨hitems, heq⟩, p, hend⟩
    have hline := lineItems_eq_ok_iff.mpr ⟨hitems, p, hend⟩
    rw [hline, heq]
    exact congrArg (EStateM.Result.ok · r') (extent_eq_before hitems p)

end Parse

end NcProgram
