import NcProgram.Proofs.Lexeme.Failure
import NcProgram.Proofs.Tokenizing

namespace NcProgram

open Lexeme

namespace Lexeme

/-- The closing character is not on the rest of the line. -/
def StaysOpen (closer : Char) (rest : List Char) : Prop :=
  closer ∉ rest.takeWhile (!isLineBreak ·)

instance (closer : Char) (rest : List Char) : Decidable (StaysOpen closer rest) :=
  inferInstanceAs (Decidable (_ ∉ _))

/-- No lexeme starts with the character. -/
def IsStrange (c : Char) : Prop :=
  ∀ kind cs, ¬ HasShape kind (c :: cs)

/-- Why no lexeme starts at a character in front of the rest of a text. -/
inductive StartsNone : Char → List Char → Complaint → Prop where
  | strange {c : Char} {rest : List Char} :
      IsStrange c → StartsNone c rest (.unexpectedCharacter c)
  | inlineComment {rest : List Char} :
      StaysOpen ')' rest → StartsNone '(' rest .unterminatedInlineComment
  | string {rest : List Char} :
      StaysOpen '"' rest → StartsNone '"' rest .unterminatedString

theorem delimitedLength?_eq_none_iff {closer : Char} (hcloser : isLineBreak closer = false)
    (c : Char) (rest : List Char) :
    delimitedLength? closer (c :: rest) = none ↔ StaysOpen closer rest := by
  constructor
  · intro hnone
    obtain ⟨run, tail, rfl, hlength, hrun, htail⟩ :=
      exists_of_runLength (fun d => d ≠ closer && !isLineBreak d) rest
    have hopen : closer ∉ run := fun hmem => by simpa using hrun closer hmem
    have hbreak : ∀ d ∈ run, (!isLineBreak d) = true := fun d hd => by
      simpa using (Bool.and_eq_true_iff.mp (hrun d hd)).2
    rw [StaysOpen, List.takeWhile_append_of_pos hbreak, List.mem_append]
    rintro (hmem | hmem)
    · exact hopen hmem
    · cases tail with
      | nil => cases hmem
      | cons d tail =>
          have hd : d ≠ closer := by
            rintro rfl
            simp only [delimitedLength?, hlength, List.drop_left] at hnone
            simp at hnone
          have hline : isLineBreak d = true := by simpa [hd] using htail d rfl
          simp [hline] at hmem
  · intro hopen
    by_contra hsome
    obtain ⟨n, hn⟩ := Option.ne_none_iff_exists'.mp hsome
    obtain ⟨lexeme, tail, heq, -, inner, rfl, hinner⟩ := exists_of_delimitedLength? hn
    obtain rfl : rest = inner ++ [closer] ++ tail := (List.cons.inj heq).2
    have hbreak : ∀ d ∈ inner, (!isLineBreak d) = true := fun d hd => by simp [(hinner d hd).2]
    apply hopen
    rw [List.append_assoc, List.takeWhile_append_of_pos hbreak]
    simp [hcloser]

theorem isStrange_of_first {c : Char} (hbreak : isLineBreak c = false) (hspace : isSpace c = false)
    (hcomment : c ≠ ';') (hinline : c ≠ '(') (hstring : c ≠ '"') (hdigit : c.isDigit = false)
    (halpha : c.isAlpha = false) (hpunctuation : punctuation? c = none) : IsStrange c := by
  intro kind cs hshape
  obtain ⟨h₁, h₂, h₃, h₄⟩ := class_of_head hshape
  cases kind with
  | newline => simp [hbreak] at h₁
  | whitespace => simp [hspace] at h₂
  | integer => simp [hdigit] at h₃
  | letters => simp [halpha] at h₄
  | dot | star | minus | percent =>
      obtain ⟨rfl, -⟩ : c = _ ∧ cs = [] := by simpa [HasShape] using hshape
      cases hpunctuation
  | string =>
      obtain ⟨inner, heq, -⟩ := hshape
      exact hstring (List.cons.inj heq).1
  | inlineComment =>
      obtain ⟨inner, heq, -⟩ := hshape
      exact hinline (List.cons.inj heq).1
  | comment =>
      obtain ⟨inner, heq, -⟩ := hshape
      exact hcomment (List.cons.inj heq).1
  | eof => exact hshape

theorem startsNone_of_first {c : Char} {rest : List Char} {complaint : Complaint}
    (h : first (c :: rest) = .error complaint) : StartsNone c rest complaint := by
  -- each class of characters but the delimited ones has a lexeme for every rest
  rw [first] at h
  split at h
  · cases h
  rename_i hbreak
  split at h
  · cases h
  rename_i hspace
  split at h
  · cases h
  rename_i hcomment
  split at h
  next hinline =>
    subst hinline
    split at h
    · cases h
    next hnone =>
      cases h
      exact .inlineComment ((delimitedLength?_eq_none_iff rfl _ _).mp hnone)
  rename_i hinline
  split at h
  next hstring =>
    subst hstring
    split at h
    · cases h
    next hnone =>
      cases h
      exact .string ((delimitedLength?_eq_none_iff rfl _ _).mp hnone)
  rename_i hstring
  split at h
  · cases h
  rename_i hdigit
  split at h
  · cases h
  rename_i halpha
  split at h
  · cases h
  next hpunctuation =>
    cases h
    exact .strange (isStrange_of_first (by simpa using hbreak) (by simpa using hspace) hcomment
      hinline hstring (by simpa using hdigit) (by simpa using halpha) hpunctuation)

theorem StartsNone.unique {c : Char} {rest : List Char} {complaint complaint' : Complaint}
    (h : StartsNone c rest complaint) (h' : StartsNone c rest complaint') :
    complaint = complaint' := by
  have hinline : ¬ IsStrange '(' := fun h => h .inlineComment [')'] ⟨[], rfl, nofun⟩
  have hstring : ¬ IsStrange '"' := fun h => h .string ['"'] ⟨[], rfl, nofun⟩
  cases h with
  | strange hc =>
      cases h' with
      | strange => rfl
      | inlineComment => exact absurd hc hinline
      | string => exact absurd hc hstring
  | inlineComment =>
      cases h' with
      | strange hc => exact absurd hc hinline
      | inlineComment => rfl
  | string =>
      cases h' with
      | strange hc => exact absurd hc hstring
      | string => rfl

theorem first_eq_error_iff {c : Char} {rest : List Char} {complaint : Complaint} :
    first (c :: rest) = .error complaint ↔ StartsNone c rest complaint := by
  refine ⟨startsNone_of_first, fun h => ?_⟩
  cases hfirst : first (c :: rest) with
  | error complaint' => rw [(startsNone_of_first hfirst).unique h]
  | ok found =>
      obtain ⟨kind, n⟩ := found
      obtain ⟨lexeme, tail, heq, -, hshape, -⟩ := exists_of_first hfirst
      obtain ⟨d, ds, rfl⟩ := List.exists_cons_of_ne_nil hshape.ne_nil
      obtain ⟨rfl, rfl⟩ := List.cons.inj heq
      cases h with
      | strange hc => exact absurd hshape (hc kind ds)
      | inlineComment hopen =>
          have hnone := (delimitedLength?_eq_none_iff (by decide) '(' (ds ++ tail)).mpr hopen
          simp [first, hnone, isLineBreak, isSpace] at hfirst
      | string hopen =>
          have hnone := (delimitedLength?_eq_none_iff (by decide) '"' (ds ++ tail)).mpr hopen
          simp [first, hnone, isLineBreak, isSpace] at hfirst

end Lexeme

/-- The scan comes to the place behind the text: the first tokens of the stream cover it. -/
def Stream.Reaches (s : Stream) (before : List Char) : Prop :=
  ∃ ts, ts <+: s.tokens ∧ Token.join ts = String.ofList before

/-- The mistake is told at the character behind the text, where no lexeme starts. The tokens in front
of it are those of the text by itself, and it stands where these end. -/
structure ProgramError.IsStuckAt (e : ProgramError) (source : String) (before : List Char) (c : Char)
    (after : List Char) : Prop where
  text : source.toList = before ++ c :: after
  startsNone : StartsNone c after e.complaint
  kinds : ∀ t ∈ (Stream.ofSource source).tokens, t.kind ≠ .eof
  cut : ∃ last, tokenize (String.ofList before) = .ok ((Stream.ofSource source).tokens ++ [last]) ∧
    last.kind = .eof ∧ e.place = some ⟨last.line, last.column⟩
  category : e.category = .lexical
  token : e.token = none
  span : e.span = .ofSize (Text.utf8Length before) c.utf8Size

theorem ProgramError.IsStuckAt.join_tokens {e : ProgramError} {source : String} {before : List Char}
    {c : Char} {after : List Char} (h : e.IsStuckAt source before c after) :
    Token.join (Stream.ofSource source).tokens = String.ofList before := by
  obtain ⟨last, hcut, -⟩ := h.cut
  have hcover := tokens_cover_text hcut
  obtain ⟨front, last', heq, -, hempty, -⟩ := hcover.ends
  obtain ⟨-, hlast⟩ := List.append_inj' heq rfl
  obtain rfl := List.singleton_inj.mp hlast
  have htext := hcover.text
  rwa [Token.join_append, Token.join_singleton, hempty, String.append_empty] at htext

namespace Stream

theorem exists_isStuckAt {source : String} {e : ProgramError}
    (h : (ofSource source).failure = some e) : ∃ before c after, e.IsStuckAt source before c after := by
  obtain ⟨ls, c, after, complaint, hls, htext, htokens, hfirst, rfl⟩ := exists_stuck h
  have htokens : (ofSource source).tokens = placed origin ls := htokens
  have hoffset : (origin.afterAll ls).offset = Text.utf8Length (text ls) := by
    rw [offset_afterAll]
    exact Nat.zero_add _
  refine ⟨text ls, c, after, htext, first_eq_error_iff.mp hfirst, ?_, ?_, rfl, rfl, ?_⟩
  · rw [htokens]
    exact fun t => kind_ne_eof_of_mem_placed hls.shapes
  · rw [htokens]
    exact ⟨_, tokenize_eq_ok_iff.mpr ⟨ls, hls, String.toList_ofList, rfl⟩, rfl, rfl⟩
  · rw [← hoffset]
    rfl

theorem failure_ne_none_of_startsNone {m : Cursor} {ts : List Token} (hts : ts <+: (ofCursor m).tokens)
    {c : Char} {after : List Char} {complaint : Complaint}
    (hahead : m.ahead = (Token.join ts).toList ++ c :: after) (hnone : StartsNone c after complaint) :
    (ofCursor m).tokens = ts ∧ (ofCursor m).failure ≠ none := by
  fun_induction ofCursor m generalizing ts with
  | case1 m hm => simp [hm] at hahead
  | case2 m hm t next hscan ih =>
      obtain ⟨l, hshape, hstops, hl, rfl⟩ := Cursor.exists_lexeme_of_scan hscan
      rcases List.prefix_cons_iff.mp hts with rfl | ⟨us, rfl, hus⟩
      · have hok := first_append hshape hstops
        have herror := first_eq_error_iff.mpr hnone
        have hahead : m.ahead = c :: after := hahead
        rw [← hl, hahead, herror] at hok
        cases hok
      · have hnext : next.ahead = (Token.join us).toList ++ c :: after := by
          have htext : (Token.join (l.token m.place :: us)).toList =
              l.chars ++ (Token.join us).toList := by
            rw [← List.singleton_append, Token.join_append, Token.join_singleton,
              String.toList_append, Lexeme.token, Token.ofText, String.toList_ofList]
          rw [htext, hl, List.append_assoc] at hahead
          exact List.append_cancel_left hahead
        obtain ⟨htokens, hfailure⟩ := ih hus hnext
        exact ⟨congrArg (List.cons _) htokens, hfailure⟩
  | case3 m hm e hscan => exact ⟨(List.prefix_nil.mp hts).symm, Option.some_ne_none e⟩

end Stream

/-- A lexical mistake is told at the first character that the scan comes to and at which no lexeme
starts. -/
theorem lexical_mistakes_are_located (source : String) :
    (∀ e, tokenize source = .error e → ∃ before c after, e.IsStuckAt source before c after) ∧
      ∀ before c after complaint, source.toList = before ++ c :: after →
        (Stream.ofSource source).Reaches before → StartsNone c after complaint →
        ∃ e, tokenize source = .error e ∧ e.IsStuckAt source before c after := by
  refine ⟨fun e he => Stream.exists_isStuckAt (tokenize_eq_error_iff.mp he), ?_⟩
  rintro before c after complaint htext ⟨ts, hts, hjoin⟩ hnone
  have hbefore : (Token.join ts).toList = before := by rw [hjoin, String.toList_ofList]
  have hahead : source.toList = (Token.join ts).toList ++ c :: after := by rw [hbefore, htext]
  obtain ⟨htokens, hfailure⟩ : (Stream.ofSource source).tokens = ts ∧
      (Stream.ofSource source).failure ≠ none :=
    Stream.failure_ne_none_of_startsNone hts hahead hnone
  obtain ⟨e, he⟩ := Option.ne_none_iff_exists'.mp hfailure
  obtain ⟨before', c', after', hstuck⟩ := Stream.exists_isStuckAt he
  -- the tokens cover the text in front of either place, so the two places are the same
  have hcover := hstuck.join_tokens
  rw [htokens, hjoin] at hcover
  obtain rfl : before = before' := String.ofList_injective hcover
  obtain ⟨rfl, rfl⟩ := List.cons.inj (List.append_cancel_left (htext.symm.trans hstuck.text))
  exact ⟨e, tokenize_eq_error_iff.mpr he, hstuck⟩

theorem lexical_mistakes_are_located_wide :
    let e : ProgramError := ⟨.lexical, .unexpectedCharacter 'Ö', .ofSize 8 2, some ⟨2, 4⟩, none⟩
    (∃ before c after, e.IsStuckAt ";é\r\nG1 Ö" before c after) ∧
      (Stream.ofSource ";é\r\nG1 (Ö").Reaches ";é\r\nG1 ".toList ∧ StaysOpen ')' ['Ö'] ∧
      ∃ e, tokenize ";é\r\nG1 (Ö" = .error e ∧
        e.IsStuckAt ";é\r\nG1 (Ö" ";é\r\nG1 ".toList '(' ['Ö'] := by
  intro e
  have hfails : tokenize ";é\r\nG1 Ö" = .error e := by decide +kernel
  have hreaches : (Stream.ofSource ";é\r\nG1 (Ö").Reaches ";é\r\nG1 ".toList :=
    ⟨_, List.prefix_refl _, by decide +kernel⟩
  have hopen : StaysOpen ')' ['Ö'] := by decide
  exact ⟨(lexical_mistakes_are_located _).1 e hfails, hreaches, hopen,
    (lexical_mistakes_are_located _).2 _ _ _ _ (by decide) hreaches (.inlineComment hopen)⟩

end NcProgram
