import NcProgram.Token.Lexeme
import Mathlib.Data.List.TakeWhile

namespace NcProgram

/-- Characters with the class that they are read as. -/
structure Lexeme where
  kind : TokenKind
  chars : List Char
  deriving DecidableEq

namespace Lexeme

/-- One or more accepted characters. -/
def IsRun (accept : Char → Bool) (cs : List Char) : Prop :=
  cs ≠ [] ∧ ∀ c ∈ cs, accept c = true

/-- An opening and a closing character on one line, the closing one for the first time. -/
def IsDelimited (opener closer : Char) (cs : List Char) : Prop :=
  ∃ inner, cs = opener :: (inner ++ [closer]) ∧
    ∀ c ∈ inner, c ≠ closer ∧ isLineBreak c = false

/-- The line ends: a return and a line feed together, or one of them. -/
def terminators : List (List Char) :=
  [['\r', '\n'], ['\n'], ['\r']]

/-- The characters can stand in a text as a lexeme of the class. -/
def HasShape : TokenKind → List Char → Prop
  | .newline, cs => cs ∈ terminators
  | .whitespace, cs => IsRun isSpace cs
  | .dot, cs => cs = ['.']
  | .star, cs => cs = ['*']
  | .minus, cs => cs = ['-']
  | .percent, cs => cs = ['%']
  | .string, cs => IsDelimited '"' '"' cs
  | .integer, cs => IsRun Char.isDigit cs
  | .letters, cs => IsRun Char.isAlpha cs
  | .inlineComment, cs => IsDelimited '(' ')' cs
  | .comment, cs => ∃ inner, cs = ';' :: inner ∧ ∀ c ∈ inner, isLineBreak c = false
  | .eof, _ => False

-- characters are finitely many, so the instances name the way to look through the text alone
instance (accept : Char → Bool) (cs : List Char) : Decidable (IsRun accept cs) :=
  have := List.decidableBAll (fun c => accept c = true) cs
  inferInstanceAs (Decidable (_ ∧ _))

theorem isDelimited_iff {opener closer : Char} {cs : List Char} :
    IsDelimited opener closer cs ↔ cs = opener :: (cs.tail.dropLast ++ [closer]) ∧
      ∀ c ∈ cs.tail.dropLast, c ≠ closer ∧ isLineBreak c = false := by
  constructor
  · rintro ⟨inner, rfl, hinner⟩
    simpa using hinner
  · rintro ⟨hcs, hinner⟩
    exact ⟨_, hcs, hinner⟩

instance (opener closer : Char) (cs : List Char) : Decidable (IsDelimited opener closer cs) :=
  have := List.decidableBAll (fun c => c ≠ closer ∧ isLineBreak c = false) cs.tail.dropLast
  decidable_of_iff _ isDelimited_iff.symm

theorem hasShape_comment_iff {cs : List Char} :
    HasShape .comment cs ↔ cs = ';' :: cs.tail ∧ ∀ c ∈ cs.tail, isLineBreak c = false := by
  constructor
  · rintro ⟨inner, rfl, hinner⟩
    exact ⟨rfl, hinner⟩
  · rintro ⟨hcs, hinner⟩
    exact ⟨_, hcs, hinner⟩

instance (kind : TokenKind) (cs : List Char) : Decidable (HasShape kind cs) :=
  match kind with
  | .newline => inferInstanceAs (Decidable (cs ∈ terminators))
  | .whitespace | .integer | .letters => inferInstanceAs (Decidable (IsRun _ cs))
  | .dot | .star | .minus | .percent => inferInstanceAs (Decidable (cs = _))
  | .string | .inlineComment => inferInstanceAs (Decidable (IsDelimited _ _ cs))
  | .comment =>
    have := List.decidableBAll (fun c => isLineBreak c = false) cs.tail
    decidable_of_iff _ hasShape_comment_iff.symm
  | .eof => inferInstanceAs (Decidable False)

/-- The text after a lexeme does not carry it on. -/
def Stops : TokenKind → List Char → List Char → Prop
  | .newline, cs, rest => cs = ['\r'] → rest.head? ≠ some '\n'
  | .whitespace, _, rest => ∀ c ∈ rest.head?, isSpace c = false
  | .integer, _, rest => ∀ c ∈ rest.head?, c.isDigit = false
  | .letters, _, rest => ∀ c ∈ rest.head?, c.isAlpha = false
  | .comment, _, rest => ∀ c ∈ rest.head?, isLineBreak c = true
  | _, _, _ => True

theorem isLineBreak_eq_true_iff {c : Char} : isLineBreak c = true ↔ c = '\n' ∨ c = '\r' := by
  simp [isLineBreak]

theorem isSpace_eq_true_iff {c : Char} : isSpace c = true ↔ c = ' ' ∨ c = '\t' := by
  simp [isSpace]

theorem isLineBreak_of_isSpace {c : Char} (h : isSpace c = true) : isLineBreak c = false := by
  rcases isSpace_eq_true_iff.mp h with rfl | rfl <;> rfl

/-- A character that starts no other class than that of the digits or the letters. -/
def IsPlain (c : Char) : Prop :=
  isLineBreak c = false ∧ isSpace c = false ∧ c ≠ ';' ∧ c ≠ '(' ∧ c ≠ '"'

theorem isPlain_of {accept : Char → Bool} {c : Char} (hc : accept c = true)
    (h : ['\n', '\r', ' ', '\t', ';', '(', '"'].all (!accept ·) = true) : IsPlain c := by
  simp only [List.all_cons, List.all_nil, Bool.and_true, Bool.and_eq_true, Bool.not_eq_true'] at h
  obtain ⟨h₁, h₂, h₃, h₄, h₅, h₆, h₇⟩ := h
  refine ⟨?_, ?_, ?_, ?_, ?_⟩
  · rw [Bool.eq_false_iff, ne_eq, isLineBreak_eq_true_iff]
    rintro (rfl | rfl) <;> simp_all
  · rw [Bool.eq_false_iff, ne_eq, isSpace_eq_true_iff]
    rintro (rfl | rfl) <;> simp_all
  all_goals
    rintro rfl
    simp_all

theorem isPlain_of_isDigit {c : Char} (h : c.isDigit = true) : IsPlain c :=
  isPlain_of h (by decide)

theorem isPlain_of_isAlpha {c : Char} (h : c.isAlpha = true) : IsPlain c :=
  isPlain_of h (by decide)

theorem isDigit_of_isAlpha {c : Char} (h : c.isAlpha = true) : c.isDigit = false := by
  have hupper : c.isUpper = true ↔ 'A'.val ≤ c.val ∧ c.val ≤ 'Z'.val := decide_eq_true_iff
  have hlower : c.isLower = true ↔ 'a'.val ≤ c.val ∧ c.val ≤ 'z'.val :=
    Bool.and_eq_true_iff.trans (and_congr decide_eq_true_iff decide_eq_true_iff)
  have hcase : c.isUpper = true ∨ c.isLower = true := Bool.or_eq_true_iff.mp h
  rw [hupper, hlower] at hcase
  simp only [Char.isDigit, Bool.and_eq_false_iff, decide_eq_false_iff_not]
  simp only [ge_iff_le, UInt32.le_iff_toNat_le] at hcase ⊢
  simp at hcase ⊢
  omega

theorem runLength_append {accept : Char → Bool} {cs rest : List Char}
    (hcs : ∀ c ∈ cs, accept c = true) (hrest : ∀ c ∈ rest.head?, accept c = false) :
    runLength accept (cs ++ rest) = cs.length := by
  have hstop : rest.takeWhile accept = [] := by
    cases rest with
    | nil => rfl
    | cons c rest => simp [hrest c rfl]
  rw [runLength, List.takeWhile_append_of_pos hcs, hstop, List.append_nil]

theorem exists_of_runLength (accept : Char → Bool) (cs : List Char) :
    ∃ run rest, cs = run ++ rest ∧ runLength accept cs = run.length ∧
      (∀ c ∈ run, accept c = true) ∧ ∀ c ∈ rest.head?, accept c = false := by
  refine ⟨cs.takeWhile accept, cs.dropWhile accept, List.takeWhile_append_dropWhile.symm, rfl,
    fun c hc => List.mem_takeWhile_imp hc, ?_⟩
  intro c hc
  simpa [Option.mem_def.mp hc] using List.head?_dropWhile_not accept cs

theorem delimitedLength?_append {opener closer : Char} {cs : List Char}
    (h : IsDelimited opener closer cs) (rest : List Char) :
    delimitedLength? closer (cs ++ rest) = some cs.length := by
  obtain ⟨inner, rfl, hinner⟩ := h
  have hrun : runLength (fun c => c ≠ closer && !isLineBreak c) (inner ++ (closer :: rest)) =
      inner.length := by
    apply runLength_append
    · intro c hc
      simpa using hinner c hc
    · simp
  simp only [List.cons_append, List.append_assoc, List.nil_append, delimitedLength?, hrun]
  simp

theorem exists_of_delimitedLength? {closer c : Char} {cs : List Char} {n : Nat}
    (h : delimitedLength? closer (c :: cs) = some n) :
    ∃ lexeme rest, c :: cs = lexeme ++ rest ∧ n = lexeme.length ∧
      IsDelimited c closer lexeme := by
  obtain ⟨inner, rest, rfl, hlength, hinner, -⟩ :=
    exists_of_runLength (fun c => c ≠ closer && !isLineBreak c) cs
  simp only [delimitedLength?, hlength, Option.ite_none_right_eq_some, Option.some.injEq,
    List.drop_left] at h
  obtain ⟨hhead, rfl⟩ := h
  obtain ⟨rest', rfl⟩ : ∃ rest', rest = closer :: rest' := by
    cases rest with
    | nil => simp at hhead
    | cons d rest' => exact ⟨rest', by simp_all⟩
  exact ⟨c :: (inner ++ [closer]), rest', by simp, by simp,
    ⟨inner, rfl, fun d hd => by simpa using hinner d hd⟩⟩

theorem HasShape.ne_nil {kind : TokenKind} {cs : List Char} (h : HasShape kind cs) : cs ≠ [] := by
  rintro rfl
  cases kind <;> simp [HasShape, IsRun, IsDelimited, terminators] at h

theorem HasShape.kind_ne_eof {kind : TokenKind} {cs : List Char} (h : HasShape kind cs) :
    kind ≠ .eof := by
  rintro rfl
  exact h

theorem IsDelimited.isLineBreak_eq_false {opener closer : Char} {cs : List Char}
    (h : IsDelimited opener closer cs) (hopener : isLineBreak opener = false)
    (hcloser : isLineBreak closer = false) : ∀ c ∈ cs, isLineBreak c = false := by
  obtain ⟨inner, rfl, hinner⟩ := h
  intro c hc
  simp only [List.mem_cons, List.mem_append, List.not_mem_nil, or_false] at hc
  rcases hc with rfl | hc | rfl
  · exact hopener
  · exact (hinner c hc).2
  · exact hcloser

theorem HasShape.isLineBreak_eq {kind : TokenKind} {cs : List Char} (h : HasShape kind cs)
    {c : Char} (hc : c ∈ cs) : isLineBreak c = decide (kind = .newline) := by
  cases kind with
  | newline =>
      simp only [HasShape, terminators, List.mem_cons, List.not_mem_nil, or_false] at h
      rcases h with rfl | rfl | rfl
      · simp only [List.mem_cons, List.not_mem_nil, or_false] at hc
        rcases hc with rfl | rfl <;> rfl
      · rw [List.mem_singleton.mp hc]
        rfl
      · rw [List.mem_singleton.mp hc]
        rfl
  | whitespace => exact isLineBreak_of_isSpace (h.2 c hc)
  | dot | star | minus | percent =>
      obtain rfl : cs = _ := h
      rw [List.mem_singleton.mp hc]
      rfl
  | string => exact IsDelimited.isLineBreak_eq_false h rfl rfl c hc
  | inlineComment => exact IsDelimited.isLineBreak_eq_false h rfl rfl c hc
  | comment =>
      obtain ⟨inner, rfl, hinner⟩ := h
      rcases List.mem_cons.mp hc with rfl | hc
      · rfl
      · exact hinner c hc
  | integer => exact (isPlain_of_isDigit (h.2 c hc)).1
  | letters => exact (isPlain_of_isAlpha (h.2 c hc)).1
  | eof => exact h.elim

theorem newlineLength_append {cs rest : List Char} (h : HasShape .newline cs)
    (hrest : Stops .newline cs rest) : newlineLength (cs ++ rest) = cs.length := by
  simp only [HasShape, terminators, List.mem_cons, List.not_mem_nil, or_false] at h
  rcases h with rfl | rfl | rfl
  · rfl
  · rfl
  · cases rest with
    | nil => rfl
    | cons c rest =>
        have hc : c ≠ '\n' := by simpa [Stops] using hrest
        unfold newlineLength
        split
        · simp_all
        · rfl

theorem first_append {kind : TokenKind} {cs rest : List Char} (h : HasShape kind cs)
    (hrest : Stops kind cs rest) : first (cs ++ rest) = .ok (kind, cs.length) := by
  obtain ⟨c, cs, rfl⟩ := List.exists_cons_of_ne_nil h.ne_nil
  cases kind with
  | newline =>
      have hc : isLineBreak c = true := by
        simp only [HasShape, terminators, List.mem_cons, List.cons.injEq, List.not_mem_nil,
          or_false] at h
        rcases h with ⟨rfl, _⟩ | ⟨rfl, _⟩ | ⟨rfl, _⟩ <;> rfl
      have hlength := newlineLength_append h hrest
      rw [List.cons_append] at hlength ⊢
      simp only [first, hc, if_true, hlength]
  | whitespace =>
      have hc := h.2 c (by simp)
      have hlength := runLength_append h.2 hrest
      rw [List.cons_append] at hlength ⊢
      simp only [first, isLineBreak_of_isSpace hc, hc, Bool.false_eq_true, if_false, if_true, hlength]
  | dot | star | minus | percent =>
      obtain ⟨rfl, rfl⟩ : c = _ ∧ cs = [] := by simpa [HasShape] using h
      rfl
  | string =>
      have hlength := delimitedLength?_append h rest
      obtain ⟨inner, heq, -⟩ := h
      obtain rfl : c = '"' := (List.cons.inj heq).1
      rw [List.cons_append] at hlength ⊢
      simp only [first, hlength]
      rfl
  | inlineComment =>
      have hlength := delimitedLength?_append h rest
      obtain ⟨inner, heq, -⟩ := h
      obtain rfl : c = '(' := (List.cons.inj heq).1
      rw [List.cons_append] at hlength ⊢
      simp only [first, hlength]
      rfl
  | integer =>
      have hc := h.2 c (by simp)
      obtain ⟨h₁, h₂, h₃, h₄, h₅⟩ := isPlain_of_isDigit hc
      have hlength := runLength_append h.2 hrest
      rw [List.cons_append] at hlength ⊢
      simp only [first, h₁, h₂, h₃, h₄, h₅, hc, Bool.false_eq_true, if_false, if_true, hlength]
  | letters =>
      have hc := h.2 c (by simp)
      obtain ⟨h₁, h₂, h₃, h₄, h₅⟩ := isPlain_of_isAlpha hc
      have hlength := runLength_append h.2 hrest
      rw [List.cons_append] at hlength ⊢
      simp only [first, h₁, h₂, h₃, h₄, h₅, isDigit_of_isAlpha hc, hc, Bool.false_eq_true,
        if_false, if_true, hlength]
  | comment =>
      obtain ⟨inner, heq, hinner⟩ := h
      obtain ⟨rfl, rfl⟩ := List.cons.inj heq
      have hlength : runLength (!isLineBreak ·) ((';' :: cs) ++ rest) = (';' :: cs).length := by
        apply runLength_append
        · intro d hd
          rcases List.mem_cons.mp hd with rfl | hd
          · rfl
          · simp [hinner d hd]
        · intro d hd
          simp [hrest d hd]
      rw [List.cons_append] at hlength ⊢
      simp only [first, hlength]
      rfl
  | eof => exact h.elim

theorem exists_of_newlineLength {c : Char} (hc : isLineBreak c = true) (cs : List Char) :
    ∃ lexeme rest, c :: cs = lexeme ++ rest ∧ newlineLength (c :: cs) = lexeme.length ∧
      HasShape .newline lexeme ∧ Stops .newline lexeme rest := by
  rcases isLineBreak_eq_true_iff.mp hc with rfl | rfl
  · exact ⟨['\n'], cs, rfl, rfl, by simp [HasShape, terminators], by simp [Stops]⟩
  · by_cases hcs : cs.head? = some '\n'
    · obtain ⟨cs, rfl⟩ : ∃ rest, cs = '\n' :: rest := List.head?_eq_some_iff.mp hcs
      exact ⟨['\r', '\n'], cs, rfl, rfl, by simp [HasShape, terminators], by simp [Stops]⟩
    · have hshape : HasShape .newline ['\r'] := by simp [HasShape, terminators]
      have hstops : Stops .newline ['\r'] cs := fun _ => hcs
      exact ⟨['\r'], cs, rfl, newlineLength_append hshape hstops, hshape, hstops⟩

theorem exists_of_isRun {accept : Char → Bool} {c : Char} (hc : accept c = true) (cs : List Char) :
    ∃ lexeme rest, c :: cs = lexeme ++ rest ∧ runLength accept (c :: cs) = lexeme.length ∧
      IsRun accept lexeme ∧ ∀ d ∈ rest.head?, accept d = false := by
  obtain ⟨lexeme, rest, heq, hlength, hrun, hrest⟩ := exists_of_runLength accept (c :: cs)
  refine ⟨lexeme, rest, heq, hlength, ⟨?_, hrun⟩, hrest⟩
  rintro rfl
  have hpos := runLength_cons_pos hc cs
  simp [hlength] at hpos

theorem hasShape_of_punctuation? {c : Char} {kind : TokenKind} (h : punctuation? c = some kind)
    (rest : List Char) : HasShape kind [c] ∧ Stops kind [c] rest := by
  unfold punctuation? at h
  split at h
  case h_5 => cases h
  all_goals
    cases h
    exact ⟨rfl, trivial⟩

theorem exists_of_first {kind : TokenKind} {cs : List Char} {n : Nat}
    (h : first cs = .ok (kind, n)) :
    ∃ lexeme rest, cs = lexeme ++ rest ∧ n = lexeme.length ∧ HasShape kind lexeme ∧
      Stops kind lexeme rest := by
  cases cs with
  | nil => simp [first] at h
  | cons c cs =>
      simp only [first] at h
      split at h
      next hc =>
        obtain ⟨rfl, rfl⟩ := by simpa using h
        exact exists_of_newlineLength hc cs
      split at h
      next hc =>
        obtain ⟨rfl, rfl⟩ := by simpa using h
        exact exists_of_isRun hc cs
      split at h
      next hc =>
        subst hc
        obtain ⟨rfl, rfl⟩ := by simpa using h
        obtain ⟨inner, rest, rfl, hlength, hinner, hrest⟩ :=
          exists_of_runLength (!isLineBreak ·) cs
        have hcomment : HasShape .comment (';' :: inner) :=
          ⟨inner, rfl, fun c hc => by simpa using hinner c hc⟩
        have hstops : Stops .comment (';' :: inner) rest := fun c hc => by simpa using hrest c hc
        refine ⟨';' :: inner, rest, rfl, ?_, hcomment, hstops⟩
        simpa [runLength, isLineBreak] using hlength
      split at h
      next hc =>
        subst hc
        split at h
        next hlength =>
          obtain ⟨rfl, rfl⟩ := by simpa using h
          obtain ⟨lexeme, rest, heq, hn, hshape⟩ := exists_of_delimitedLength? hlength
          exact ⟨lexeme, rest, heq, hn, hshape, trivial⟩
        · simp at h
      split at h
      next hc =>
        subst hc
        split at h
        next hlength =>
          obtain ⟨rfl, rfl⟩ := by simpa using h
          obtain ⟨lexeme, rest, heq, hn, hshape⟩ := exists_of_delimitedLength? hlength
          exact ⟨lexeme, rest, heq, hn, hshape, trivial⟩
        · simp at h
      split at h
      next hc =>
        obtain ⟨rfl, rfl⟩ := by simpa using h
        exact exists_of_isRun hc cs
      split at h
      next hc =>
        obtain ⟨rfl, rfl⟩ := by simpa using h
        exact exists_of_isRun hc cs
      split at h
      next found hfound =>
        obtain ⟨rfl, rfl⟩ := by simpa using h
        obtain ⟨hshape, hstops⟩ := hasShape_of_punctuation? hfound cs
        exact ⟨[c], cs, rfl, rfl, hshape, hstops⟩
      · simp at h

end Lexeme

end NcProgram
