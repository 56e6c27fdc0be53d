import NcProgram.Highlight
import NcProgram.Proofs.Node.Printing
import NcProgram.Proofs.Text.Lines
import NcProgram.Proofs.Tokenizing

/-!
Colours against the syntax of a line. The pieces of a text put together give the text again, and in a
line that is read each colour shows what the parts of the line are written with, although a token is
coloured by its class and the token before it alone.
-/

namespace NcProgram

open Lexeme

namespace Highlight

def join (fs : List Fragment) : String :=
  String.join (fs.map Fragment.text)

/-- What is shown in the colours of the given groups. -/
def shownAs (gs : List HighlightGroup) (fs : List Fragment) : String :=
  join (fs.filter fun f => (gs.map HighlightGroup.style).contains f.group.style)

/-- The pieces of each line of a text, by the number of the line; put together with line feeds they
give the text. -/
structure Shows (text : String) (lines : List (List Fragment)) : Prop where
  count : lines.length = text.toList.count '\n' + 1
  numbered : ∀ (i : Nat) (h : i < lines.length), ofLineNumber text i = .ok lines[i]
  text : String.intercalate "\n" (lines.map join) = text

end Highlight

open Highlight

def Field.isString (f : Field) : Bool :=
  match f.value with
  | .string _ => true
  | _ => false

/-- A comment of either kind. -/
def Item.comment? : Item → Option Trivia
  | trivia t => if t.kind = .comment ∨ t.kind = .inlineComment then some t else none
  | _ => none

namespace Highlight

/-- The colours of comments, letters, strings and numbers show what these are written with. -/
structure ShowsParts (comments : List Trivia) (fields : List Field) (fs : List Fragment) : Prop where
  comments : shownAs [.comment] fs = String.join (comments.map Trivia.text)
  letters : shownAs [.command, .word] fs = String.join (fields.map Field.letters)
  strings : shownAs [.string] fs = String.join ((fields.filter Field.isString).flatMap Field.raw)
  numbers : shownAs [.number] fs = String.join ((fields.filter (!·.isString)).flatMap Field.raw)

end Highlight

/-- Each colour shows the parts of the line that it stands for, in order. -/
structure Line.IsShownBy (fs : List Fragment) (l : Line Item) : Prop where
  parts : ShowsParts (l.items.filterMap Item.comment?) l.fields fs
  checksum : l.checksum.elim (.ok "") (fun c => (Node.item (.checksum c)).source) =
    .ok (shownAs [.checksum] fs)

theorem HighlightGroup.style_injective : Function.Injective style := by
  intro g h
  cases g <;> cases h <;> decide

namespace Highlight

@[simp] theorem shownAs_nil (gs : List HighlightGroup) : shownAs gs [] = "" := rfl

@[simp] theorem shownAs_cons (gs : List HighlightGroup) (f : Fragment) (fs : List Fragment) :
    shownAs gs (f :: fs) = (if f.group ∈ gs then f.text else "") ++ shownAs gs fs := by
  simp only [shownAs, List.filter_cons, List.contains_eq_mem, decide_eq_true_eq,
    List.mem_map_of_injective HighlightGroup.style_injective]
  split
  · rw [join, List.map_cons, String.join_cons, join]
  · rw [String.empty_append]

@[simp] theorem shownAs_append (gs : List HighlightGroup) (fs fs' : List Fragment) :
    shownAs gs (fs ++ fs') = shownAs gs fs ++ shownAs gs fs' := by
  simp [shownAs, join]

theorem ShowsParts.append {cs cs' : List Trivia} {xs xs' : List Field}
    {fs fs' : List Fragment} (h : ShowsParts cs xs fs) (h' : ShowsParts cs' xs' fs') :
    ShowsParts (cs ++ cs') (xs ++ xs') (fs ++ fs') where
  comments := by simp [h.comments, h'.comments]
  letters := by simp [h.letters, h'.letters]
  strings := by simp [h.strings, h'.strings]
  numbers := by simp [h.numbers, h'.numbers]

/-- The pieces of lexemes that follow a token of some class. -/
def ofLexemes (before : Option TokenKind) : List Lexeme → List Fragment
  | [] => []
  | l :: ls => ⟨HighlightGroup.ofToken before (l.token Stream.origin), String.ofList l.chars⟩ ::
      ofLexemes (some l.kind) ls

theorem join_ofLexemes (before : Option TokenKind) (ls : List Lexeme) :
    join (ofLexemes before ls) = String.ofList (text ls) := by
  induction ls generalizing before with
  | nil => rfl
  | cons l ls ih =>
      rw [ofLexemes, join, List.map_cons, String.join_cons, text_cons, String.ofList_append,
        ← ih (some l.kind), join]

theorem ofTokens_placed {ls : List Lexeme} (h : ∀ l ∈ ls, HasShape l.kind l.chars)
    (before : Option TokenKind) (m : Mark) :
    ofTokens before (placed m ls ++ [(m.afterAll ls).endToken]) = ofLexemes before ls := by
  induction ls generalizing before m with
  | nil => rfl
  | cons l ls ih =>
      obtain ⟨hl, hls⟩ := List.forall_mem_cons.mp h
      have hshown : ¬ ((l.token m).kind = .eof ∨ (l.token m).text.isEmpty = true) := by
        rintro (hkind | hempty)
        · exact hl.kind_ne_eof hkind
        · exact hl.ne_nil (by simpa [token, Token.ofText] using hempty)
      rw [placed_cons, afterAll_cons, List.cons_append, ofTokens, ih hls, ofLexemes]
      simp only [Bool.or_eq_true, decide_eq_true_eq, if_neg hshown]
      rfl

theorem ofLine_of_sequence {source : String} {ls : List Lexeme} (h : IsSequence ls)
    (hsource : source.toList = text ls) :
    ofLine source = if ls = [] then empty else ofLexemes none ls := by
  cases ls with
  | nil =>
      obtain rfl : source = "" := String.toList_inj.mp (by simpa using hsource)
      rfl
  | cons l ls =>
      have hne : ¬ source.isEmpty = true := by
        rw [String.isEmpty_iff, ← String.toList_inj, hsource]
        simp [(h.shapes l (by simp)).ne_nil]
      simp only [ofLine, if_neg hne, Stream.ofSource_eq h hsource, ofTokens_placed h.shapes]
      rfl

/-- From a lexical mistake on, a text is flagged; what is in front is counted by the column of the
mistake. -/
theorem ofLine_of_failure {source : String} {e : ProgramError}
    (h : (Stream.ofSource source).failure = some e) :
    ofLine source =
      let good := (e.place.elim 1 Place.column - 1).toNat
      [⟨.plain, String.ofList (source.toList.take good)⟩,
        ⟨.mistake, String.ofList (source.toList.drop good)⟩] := by
  have hne : ¬ source.isEmpty = true := by
    rw [String.isEmpty_iff]
    rintro rfl
    rw [Stream.ofSource_eq isSequence_nil (by rfl)] at h
    cases h
  simp only [ofLine, if_neg hne, h]

theorem join_ofLine (source : String) : join (ofLine source) = source := by
  cases htokens : tokenize source with
  | error e =>
      rw [ofLine_of_failure (tokenize_eq_error_iff.mp htokens), ← String.toList_inj]
      simp [join]
  | ok ts =>
      obtain ⟨ls, hls, hsource, -⟩ := tokenize_eq_ok_iff.mp htokens
      rw [ofLine_of_sequence hls hsource]
      split
      next hempty =>
        rw [← String.toList_inj, hsource, hempty]
        rfl
      next => rw [join_ofLexemes, ← hsource, String.ofList_toList]

theorem placeOfIndex_natCast (size : Nat) (tooSmall : Fault) (i : Nat) :
    placeOfIndex size tooSmall i = .ok i := by
  have hmin : ¬ (i : Int) < minIndex := by
    rw [minIndex]
    omega
  have hneg : ¬ (i : Int) < 0 := by omega
  simp only [placeOfIndex, if_neg hmin, if_neg hneg, Int.toNat_natCast]

theorem exists_shows (source : String) : ∃ lines, Shows source lines := by
  have hcount := Text.length_splitLines source.toList
  have hsource := Text.joinLines_splitLines source.toList
  refine ⟨(Text.splitLines source.toList).map fun row => ofLine (String.ofList row), ?_, ?_, ?_⟩
  · rw [List.length_map, hcount]
  · intro i h
    rw [List.length_map] at h
    simp only [ofLineNumber, placeOfIndex_natCast, Except.map, List.getElem?_eq_getElem h,
      List.getElem_map]
  · rw [Text.joinLines_eq_intercalate] at hsource
    rw [← String.toList_inj, String.toList_intercalate]
    simpa [Function.comp_def, join_ofLine] using hsource

end Highlight

namespace Phrase

/-- The piece of letters, which may name a command. -/
def letterFragment (letters : List Char) : Fragment :=
  ⟨if HighlightGroup.commandLetters.contains (String.ofList letters) then .command else .word,
    String.ofList letters⟩

/-- The pieces of a phrase. Digits have the colour of their number or of the star in front of them. -/
def fragments : Phrase → List Fragment
  | trivia kind chars => [⟨if kind = .comment ∨ kind = .inlineComment then .comment else .plain,
      String.ofList chars⟩]
  | number letters numeral =>
    letterFragment letters :: numeral.lexemes.map fun l => ⟨.number, String.ofList l.chars⟩
  | literal letters chars => [letterFragment letters, ⟨.string, String.ofList chars⟩]
  | checksum digits => [⟨.checksum, "*"⟩, ⟨.checksum, String.ofList digits⟩]

theorem exists_ofLexemes_numeral {ns : List Lexeme}
    (h : ∀ l ∈ ns, l.kind = .minus ∨ l.kind = .integer ∨ l.kind = .dot) {before : Option TokenKind}
    (hbefore : before ≠ some .star) : ∃ last, ∀ ls, ofLexemes before (ns ++ ls) =
      (ns.map fun l => ⟨.number, String.ofList l.chars⟩) ++ ofLexemes last ls := by
  induction ns generalizing before with
  | nil => exact ⟨before, fun ls => rfl⟩
  | cons l ns ih =>
      obtain ⟨hl, hns⟩ := List.forall_mem_cons.mp h
      have hgroup : HighlightGroup.ofToken before (l.token Stream.origin) = .number := by
        rcases hl with hl | hl | hl <;>
          simp [HighlightGroup.ofToken, token, Token.ofText, hl, hbefore]
      have hstar : some l.kind ≠ some .star := by
        rcases hl with hl | hl | hl <;> simp [hl]
      obtain ⟨last, hlast⟩ := ih hns hstar
      refine ⟨last, fun ls => ?_⟩
      rw [List.cons_append, ofLexemes, hgroup, hlast, List.map_cons, List.cons_append]

/-- A phrase has its own pieces behind any token: it starts with no digits. -/
theorem exists_ofLexemes_append (p : Phrase) (before : Option TokenKind) : ∃ last, ∀ ls,
    ofLexemes before (p.lexemes ++ ls) = p.fragments ++ ofLexemes last ls := by
  cases p with
  | trivia kind chars =>
      refine ⟨some kind.tokenKind, fun ls => ?_⟩
      cases kind <;> rfl
  | literal letters chars => exact ⟨some .string, fun ls => rfl⟩
  | checksum digits => exact ⟨some .integer, fun ls => rfl⟩
  | number letters numeral =>
      have hletters : some TokenKind.letters ≠ some .star := by simp
      obtain ⟨last, hlast⟩ :=
        exists_ofLexemes_numeral (fun l hl => numeral.kind_of_mem_lexemes hl) hletters
      refine ⟨last, fun ls => ?_⟩
      rw [lexemes, List.cons_append, ofLexemes, hlast]
      rfl

theorem ofLexemes_allLexemes (before : Option TokenKind) (ps : List Phrase) :
    ofLexemes before (allLexemes ps) = ps.flatMap fragments := by
  induction ps generalizing before with
  | nil => rfl
  | cons p ps ih =>
      obtain ⟨last, hlast⟩ := p.exists_ofLexemes_append before
      rw [allLexemes_cons, hlast, ih, List.flatMap_cons]

theorem letterFragment_group (letters : List Char) :
    (letterFragment letters).group = .command ∨ (letterFragment letters).group = .word := by
  unfold letterFragment
  split
  · exact .inl rfl
  · exact .inr rfl

theorem shownAs_numeral (gs : List HighlightGroup) (ns : List Lexeme) :
    shownAs gs (ns.map fun l => ⟨.number, String.ofList l.chars⟩) =
      if .number ∈ gs then String.ofList (text ns) else "" := by
  induction ns with
  | nil => simp
  | cons l ns ih =>
      rw [List.map_cons, shownAs_cons, ih, text_cons, String.ofList_append]
      split <;> simp

theorem showsParts_field {letters : List Char} {f : Field} {fs : List Fragment}
    (hletters : f.letters = String.ofList letters)
    (hstrings : shownAs [.string] fs = if f.isString then String.join f.raw else "")
    (hnumbers : shownAs [.number] fs = if f.isString then "" else String.join f.raw)
    (hcomments : shownAs [.comment] fs = "") (hothers : shownAs [.command, .word] fs = "") :
    ShowsParts [] [f] (letterFragment letters :: fs) := by
  have hgroup := letterFragment_group letters
  have htext : (letterFragment letters).text = String.ofList letters := rfl
  constructor
  · rcases hgroup with h | h <;> simp [h, hcomments]
  · rcases hgroup with h | h <;> simp [h, hothers, htext, hletters]
  · rcases hgroup with h | h <;> cases hstring : f.isString <;> simp [h, hstrings, hstring]
  · rcases hgroup with h | h <;> cases hstring : f.isString <;> simp [h, hnumbers, hstring]

theorem isString_number (letters : List Char) (n : Numeral) (raw : List String) (s : Span) :
    (Field.mk (String.ofList letters) n.value raw s).isString = false := by
  unfold Field.isString
  split
  next t ht => exact absurd ht (n.value_ne_string t)
  next => rfl

theorem showsParts_item (p : Phrase) (o : Nat) :
    ShowsParts (p.item o).comment?.toList (p.item o).field?.toList p.fragments := by
  cases p with
  | trivia kind chars =>
      constructor <;> cases kind <;> simp [item, fragments, Item.comment?, Item.field?]
  | checksum digits => constructor <;> simp [item, fragments, Item.comment?, Item.field?]
  | literal letters chars =>
      refine showsParts_field rfl ?_ ?_ ?_ ?_ <;> simp [Field.isString]
  | number letters numeral =>
      have hnumber := isString_number letters numeral numeral.raw
        (.ofSize o (number letters numeral).size)
      refine showsParts_field rfl ?_ ?_ ?_ ?_ <;> rw [shownAs_numeral]
      all_goals simp [hnumber, numeral.join_raw]

theorem showsParts_items (o : Nat) (ps : List Phrase) :
    ShowsParts ((items o ps).filterMap Item.comment?) ((items o ps).filterMap Item.field?)
      (ps.flatMap fragments) := by
  have hcons {α : Type} (g : Item → Option α) (i : Item) (is : List Item) :
      (i :: is).filterMap g = (g i).toList ++ is.filterMap g := by
    cases h : g i <;> simp [h]
  induction ps generalizing o with
  | nil => exact ⟨rfl, rfl, rfl, rfl⟩
  | cons p ps ih =>
      rw [items_cons, hcons, hcons, List.flatMap_cons]
      exact (showsParts_item p o).append (ih (o + p.size))

theorem shownAs_checksum_fragments (p : Phrase) : shownAs [.checksum] p.fragments =
    if p.part = .checksum then String.ofList p.chars else "" := by
  cases p with
  | trivia kind chars => cases kind <;> simp [fragments, part]
  | checksum digits =>
      rw [chars_checksum, ← String.toList_inj]
      simp [fragments, part]
  | literal letters chars =>
      rcases letterFragment_group letters with h | h <;> simp [fragments, part, h]
  | number letters numeral =>
      rcases letterFragment_group letters with h | h <;>
        simp [fragments, part, h, shownAs_numeral]

theorem shownAs_checksum_eq_empty {ps : List Phrase} (h : .checksum ∉ ps.map part) :
    shownAs [.checksum] (ps.flatMap fragments) = "" := by
  induction ps with
  | nil => rfl
  | cons p ps ih =>
      obtain ⟨hp, hps⟩ := List.ne_and_not_mem_of_not_mem_cons h
      rw [List.flatMap_cons, shownAs_append, shownAs_checksum_fragments, if_neg hp.symm, ih hps,
        String.empty_append]

theorem shownAs_checksum {ps : List Phrase} (hshapes : ∀ p ∈ ps, p.HasShapes)
    (hread : ∀ p ∈ ps, p.IsReadable) (hcount : (ps.map part).count .checksum ≤ 1) (o : Nat) :
    ((items o ps).findSome? Item.checksum?).elim (.ok "")
      (fun c => (Node.item (.checksum c)).source) =
      .ok (shownAs [.checksum] (ps.flatMap fragments)) := by
  induction ps generalizing o with
  | nil => rfl
  | cons p ps ih =>
      obtain ⟨hp, hps⟩ := List.forall_mem_cons.mp hshapes
      obtain ⟨hpread, hpsread⟩ := List.forall_mem_cons.mp hread
      rw [List.map_cons, List.count_cons] at hcount
      rw [items_cons, List.flatMap_cons, shownAs_append, shownAs_checksum_fragments]
      by_cases hpart : p.part = .checksum
      · have hrest : .checksum ∉ ps.map part := by
          rw [← List.count_eq_zero]
          simp only [hpart, beq_self_eq_true, if_true] at hcount
          omega
        cases p with
        | checksum digits =>
            rw [if_pos hpart, shownAs_checksum_eq_empty hrest, String.append_empty]
            exact source_node hp hpread o
        | trivia | number | literal => cases hpart
      · have hnone : (p.item o).checksum? = none := by
          cases p with
          | checksum digits => exact absurd rfl hpart
          | trivia | number | literal => rfl
        rw [List.findSome?_cons, hnone, if_neg hpart, String.empty_append]
        exact ih hps hpsread (Nat.le_trans (Nat.le_add_right _ _) hcount) _

theorem isShownBy_line {ps : List Phrase} (h : IsLine ps) (hread : ∀ p ∈ ps, p.IsReadable) (o : Nat) :
    (line o ps).IsShownBy (ps.flatMap fragments) := by
  have hcount := Parse.Seen.count_checksum_le h.ordered
  exact ⟨showsParts_items o ps, shownAs_checksum h.shapes hread hcount o⟩

end Phrase

/-- The pieces of a line that is read show its parts, and those of the lines of any text give the
text. -/
theorem highlighting_agrees :
    (∀ text, ∃ lines, Shows text lines) ∧
      ∀ source l, parseLine source = .ok l → l.IsShownBy (ofLine source) := by
  refine ⟨exists_shows, fun source l hl => ?_⟩
  obtain ⟨ps, hps, hread, hsource, rfl⟩ := parseLine_eq_ok_iff.mp hl
  have hshown := Phrase.isShownBy_line hps hread 0
  rw [ofLine_of_sequence hps.isSequence hsource, Phrase.ofLexemes_allLexemes]
  split
  next hempty =>
    obtain rfl := hps.eq_nil_of_text (by rw [hempty, text_nil])
    exact ⟨⟨rfl, rfl, rfl, rfl⟩, rfl⟩
  next => exact hshown

theorem highlighting_agrees_with_checksum :
    (∃ lines, Shows "G1\r@\n\nX" lines) ∧ ∃ l, parseLine "g1X-.5 O\"b\"(c)*071;d" = .ok l ∧
      l.IsShownBy (ofLine "g1X-.5 O\"b\"(c)*071;d") := by
  obtain ⟨l, hl⟩ : ∃ l, parseLine "g1X-.5 O\"b\"(c)*071;d" = .ok l :=
    ⟨_, parseLine_eq_ok_iff.mpr ⟨[.number ['g'] (.whole false ['1']),
      .number ['X'] (.fraction true ['5']), .trivia .whitespace [' '],
      .literal ['O'] ['"', 'b', '"'], .trivia .inlineComment ['(', 'c', ')'],
      .checksum ['0', '7', '1'], .trivia .comment [';', 'd']], by decide, by decide, by decide, rfl⟩⟩
  exact ⟨highlighting_agrees.1 _, l, hl, highlighting_agrees.2 _ l hl⟩

end NcProgram
