import NcProgram.Proofs.Lexeme.Place
import NcProgram.Proofs.Tree.Whole

namespace NcProgram

open Lexeme

theorem tokenize_eq_ok_iff_ofSource {source : String} {ts : List Token} :
    tokenize source = .ok ts ↔ Stream.ofSource source = .ofTokens ts := by
  unfold tokenize Stream.toTokens
  obtain ⟨tokens, failure⟩ := Stream.ofSource source
  cases failure <;> simp [Stream.ofTokens]

theorem tokenize_eq_error_iff {source : String} {e : ProgramError} :
    tokenize source = .error e ↔ (Stream.ofSource source).failure = some e := by
  unfold tokenize Stream.toTokens
  cases (Stream.ofSource source).failure <;> simp

theorem tokenize_eq_ok_iff {source : String} {ts : List Token} : tokenize source = .ok ts ↔
    ∃ ls, IsSequence ls ∧ source.toList = text ls ∧
      ts = placed Stream.origin ls ++ [(Stream.origin.afterAll ls).endToken] := by
  constructor
  · intro h
    have hfailure : (Stream.ofSource source).failure = none := by
      rw [tokenize_eq_ok_iff_ofSource.mp h]
      rfl
    obtain ⟨ls, hls, htext⟩ := Stream.exists_sequence hfailure
    rw [tokenize, Stream.ofSource_eq hls htext] at h
    exact ⟨ls, hls, htext, (Except.ok.inj h).symm⟩
  · rintro ⟨ls, hls, htext, rfl⟩
    rw [tokenize, Stream.ofSource_eq hls htext]
    rfl

namespace Token

/-- The texts of tokens, in order. -/
def join (ts : List Token) : String :=
  String.join (ts.map Token.text)

/-- The token stands directly behind the text. -/
structure IsBehind (before : String) (t : Token) : Prop where
  start : t.start = (Text.utf8Length before.toList : Nat)
  stop : t.stop = (Text.utf8Length (before ++ t.text).toList : Nat)
  line : t.line = (1 + Text.lineEnds before.toList : Nat)
  column : t.column = (1 + (Text.lastRow before.toList).length : Nat)

/-- The tokens cover the text without a gap, each at the place that the text before it says, and the
end of the text is the last of them. -/
structure Cover (source : String) (ts : List Token) : Prop where
  ends : ∃ front last, ts = front ++ [last] ∧ last.kind = .eof ∧ last.text = "" ∧
    ∀ t ∈ front, t.kind ≠ .eof ∧ t.text ≠ ""
  text : join ts = source
  behind : ∀ before t after, ts = before ++ t :: after → t.IsBehind (join before)
  adjacent : ∀ before t u after, ts = before ++ t :: u :: after → t.stop = u.start
  size : ∀ last ∈ ts.getLast?, last.start = (Text.utf8Length source.toList : Nat)

/-- The class and the characters of a token. -/
def lexeme (t : Token) : Lexeme :=
  ⟨t.kind, t.text.toList⟩

theorem join_append (ts us : List Token) : join (ts ++ us) = join ts ++ join us := by
  rw [join, List.map_append, String.join_append, join, join]

theorem join_singleton (t : Token) : join [t] = t.text := by
  rw [join, List.map_singleton, String.join_cons, String.join_nil, String.append_empty]

end Token

namespace Lexeme

theorem join_placed (m : Mark) (ls : List Lexeme) :
    Token.join (placed m ls) = String.ofList (text ls) := by
  induction ls generalizing m with
  | nil => rfl
  | cons l ls ih =>
      rw [placed_cons, ← List.singleton_append, Token.join_append, Token.join_singleton, ih,
        text_cons, String.ofList_append]
      rfl

theorem map_lexeme_placed (m : Mark) (ls : List Lexeme) :
    (placed m ls).map Token.lexeme = ls := by
  induction ls generalizing m with
  | nil => rfl
  | cons l ls ih =>
      rw [placed_cons, List.map_cons, ih, Token.lexeme, token, Token.ofText, String.toList_ofList]

theorem text_ne_empty_of_mem_placed {m : Mark} {ls : List Lexeme}
    (h : ∀ l ∈ ls, HasShape l.kind l.chars) {t : Token} (ht : t ∈ placed m ls) : t.text ≠ "" := by
  have hmem : t.lexeme ∈ ls := by
    rw [← map_lexeme_placed m ls]
    exact List.mem_map_of_mem ht
  intro hempty
  apply (h _ hmem).ne_nil
  rw [Token.lexeme, hempty]
  rfl

theorem isBehind_ofText {ls : List Lexeme} (h : IsSequence ls) (kind : TokenKind) (text : String) :
    let m := Stream.origin.afterAll ls
    (Token.ofText kind text m.offset m.line m.column).IsBehind
      (String.ofList (Lexeme.text ls)) := by
  have hoffset := offset_afterAll Stream.origin ls
  have hline := line_afterAll h Stream.origin
  have hcolumn := column_afterAll h.shapes
  intro m
  rw [show Stream.origin.offset = 0 from rfl, Nat.zero_add] at hoffset
  constructor
  · rw [String.toList_ofList, ← hoffset]
    rfl
  · rw [String.toList_append, String.toList_ofList, Text.utf8Length_append, ← hoffset]
    exact (Int.natCast_add ..).symm
  · rw [String.toList_ofList, show 1 = Stream.origin.line from rfl, ← hline]
    rfl
  · rw [String.toList_ofList, ← hcolumn]
    rfl

theorem exists_of_tokens_eq_append {m : Mark} {ls : List Lexeme} {before after : List Token}
    {t : Token} (h : placed m ls ++ [(m.afterAll ls).endToken] = before ++ t :: after) :
    ∃ ls₁ ls₂, ls = ls₁ ++ ls₂ ∧ placed m ls₁ = before ∧
      t = .ofText t.kind t.text (m.afterAll ls₁).offset (m.afterAll ls₁).line
        (m.afterAll ls₁).column := by
  induction ls generalizing m before with
  | nil =>
      cases before with
      | nil =>
          obtain rfl : m.endToken = t := (List.cons.inj h).1
          exact ⟨[], [], rfl, rfl, rfl⟩
      | cons u before => simp at h
  | cons l ls ih =>
      cases before with
      | nil =>
          obtain rfl : l.token m = t := (List.cons.inj h).1
          exact ⟨[], l :: ls, rfl, rfl, rfl⟩
      | cons u before =>
          obtain ⟨hhead, htail⟩ := List.cons.inj h
          obtain ⟨ls₁, ls₂, rfl, rfl, ht⟩ := ih (m := m.after l) htail
          exact ⟨l :: ls₁, ls₂, rfl, by rw [placed_cons, hhead], ht⟩

end Lexeme

theorem tokens_cover_text {source : String} {ts : List Token} (h : tokenize source = .ok ts) :
    Token.Cover source ts := by
  obtain ⟨ls, hls, htext, rfl⟩ := tokenize_eq_ok_iff.mp h
  have hjoin : Token.join (placed Stream.origin ls) = source := by
    rw [join_placed, ← htext, String.ofList_toList]
  have hbehind : ∀ before t after,
      placed Stream.origin ls ++ [(Stream.origin.afterAll ls).endToken] = before ++ t :: after →
        t.IsBehind (Token.join before) := by
    intro before t after heq
    obtain ⟨ls₁, ls₂, rfl, rfl, ht⟩ := exists_of_tokens_eq_append heq
    rw [join_placed, ht]
    exact isBehind_ofText (isSequence_append_iff.mp hls).1 t.kind t.text
  refine ⟨⟨_, _, rfl, rfl, rfl, ?_⟩, ?_, hbehind, ?_, ?_⟩
  · intro t ht
    exact ⟨kind_ne_eof_of_mem_placed hls.shapes ht, text_ne_empty_of_mem_placed hls.shapes ht⟩
  · rw [Token.join_append, hjoin, Token.join_singleton]
    exact String.append_empty
  · intro before t u after heq
    have ht := (hbehind before t _ heq).stop
    have hu := (hbehind (before ++ [t]) u after (by simpa using heq)).start
    rw [Token.join_append, Token.join_singleton] at hu
    rw [ht, hu]
  · intro last hlast
    rw [List.getLast?_concat, Option.mem_some_iff] at hlast
    subst hlast
    rw [← hjoin]
    exact (hbehind _ _ [] rfl).start

theorem tokens_cover_text_after_returns :
    ∃ ts, tokenize "(é)\r\n;ä\rX7" = .ok ts ∧ Token.Cover "(é)\r\n;ä\rX7" ts ∧
      ∃ t, ts[5]? = some t ∧ t.text = "7" ∧ t.start = 11 ∧ t.line = 3 ∧ t.column = 2 := by
  have hsequence : IsSequence [⟨.inlineComment, ['(', 'é', ')']⟩, ⟨.newline, ['\r', '\n']⟩,
      ⟨.comment, [';', 'ä']⟩, ⟨.newline, ['\r']⟩, ⟨.letters, ['X']⟩, ⟨.integer, ['7']⟩] := by
    refine ⟨by decide, ?_⟩
    simp [Apart]
  have htokens := tokenize_eq_ok_iff.mpr ⟨_, hsequence,
    show "(é)\r\n;ä\rX7".toList = _ by decide, rfl⟩
  have hcover := tokens_cover_text htokens
  have hseven := hcover.behind [_, _, _, _, _] _ [_] rfl
  exact ⟨_, htokens, hcover, _, rfl, rfl, hseven.start, hseven.line, hseven.column⟩

namespace Lexeme

/-- Side by side the lexemes would be read as one, or the first one would reach over the second. -/
inductive RunsInto : Lexeme → Lexeme → Prop where
  | blanks (cs ds : List Char) : RunsInto ⟨.whitespace, cs⟩ ⟨.whitespace, ds⟩
  | digits (cs ds : List Char) : RunsInto ⟨.integer, cs⟩ ⟨.integer, ds⟩
  | letters (cs ds : List Char) : RunsInto ⟨.letters, cs⟩ ⟨.letters, ds⟩
  | comment (cs : List Char) {next : Lexeme} :
      next.kind ≠ .newline → RunsInto ⟨.comment, cs⟩ next
  | lineEnd : RunsInto ⟨.newline, ['\r']⟩ ⟨.newline, ['\n']⟩

theorem apart_iff {a b : Lexeme} (hb : HasShape b.kind b.chars) : Apart a b ↔ ¬ RunsInto a b := by
  constructor
  · intro hapart hruns
    cases hruns with
    | blanks | digits | letters => exact hapart rfl
    | comment cs hnext => exact hnext hapart
    | lineEnd => exact hapart rfl rfl
  · intro hruns
    obtain ⟨kind, cs⟩ := a
    obtain ⟨next, ds⟩ := b
    cases kind with
    | newline =>
        rintro rfl rfl
        obtain rfl : next = .newline := of_decide_eq_true (class_of_head hb).1.symm
        exact hruns .lineEnd
    | whitespace =>
        rintro rfl
        exact hruns (.blanks cs ds)
    | integer =>
        rintro rfl
        exact hruns (.digits cs ds)
    | letters =>
        rintro rfl
        exact hruns (.letters cs ds)
    | comment =>
        by_contra hnext
        exact hruns (.comment cs hnext)
    | dot | star | minus | percent | string | inlineComment | eof => trivial

theorem isChain_apart_iff {ls : List Lexeme} (h : ∀ l ∈ ls, HasShape l.kind l.chars) :
    ls.IsChain Apart ↔ ls.IsChain fun a b => ¬ RunsInto a b := by
  induction ls with
  | nil => simp
  | cons l ls ih =>
      obtain ⟨-, hls⟩ := List.forall_mem_cons.mp h
      rw [List.isChain_cons, List.isChain_cons, ih hls]
      refine and_congr_left fun _ => forall₂_congr fun next hnext => ?_
      exact apart_iff (hls next (List.mem_of_mem_head? hnext))

end Lexeme

/-- Lexemes are what their text falls into exactly when each is one of its class and none runs into
the next one. -/
theorem tokenize_text_iff (ls : List Lexeme) :
    (∃ ts, tokenize (String.ofList (text ls)) = .ok ts ∧
      (ts.takeWhile (·.kind ≠ .eof)).map Token.lexeme = ls) ↔
    (∀ l ∈ ls, HasShape l.kind l.chars) ∧ ls.IsChain fun a b => ¬ RunsInto a b := by
  have hbefore {ls : List Lexeme} (hls : IsSequence ls) :
      ((placed Stream.origin ls ++ [(Stream.origin.afterAll ls).endToken]).takeWhile
        (·.kind ≠ .eof)).map Token.lexeme = ls := by
    rw [Reader.takeWhile_before_end (fun t => kind_ne_eof_of_mem_placed hls.shapes)
      (by simp [Mark.endToken, Token.ofText]), map_lexeme_placed]
  constructor
  · rintro ⟨ts, hts, hlexemes⟩
    obtain ⟨ls', hls, -, rfl⟩ := tokenize_eq_ok_iff.mp hts
    rw [hbefore hls] at hlexemes
    subst hlexemes
    exact ⟨hls.shapes, (isChain_apart_iff hls.shapes).mp hls.apart⟩
  · rintro ⟨hshapes, hruns⟩
    have hls : IsSequence ls := ⟨hshapes, (isChain_apart_iff hshapes).mpr hruns⟩
    exact ⟨_, tokenize_eq_ok_iff.mpr ⟨ls, hls, String.toList_ofList, rfl⟩, hbefore hls⟩

end NcProgram
