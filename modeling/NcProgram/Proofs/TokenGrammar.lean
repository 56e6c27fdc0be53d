import NcProgram.Proofs.Tree.Document
import Mathlib.Computability.Language
import Mathlib.Order.CompletePartialOrder

namespace NcProgram

open Computability

namespace TokenGrammar

def optional (L : Language TokenKind) : Language TokenKind :=
  1 + L

def symbol (k : TokenKind) : Language TokenKind :=
  {[k]}

def trivia : Language TokenKind :=
  symbol .whitespace + symbol .inlineComment

def checksum : Language TokenKind :=
  symbol .star * symbol .integer

def field : Language TokenKind :=
  symbol .letters * symbol .integer +
    symbol .letters * (symbol .minus * symbol .integer) +
    symbol .letters * (optional (symbol .minus) *
      (symbol .integer * (symbol .dot * optional (symbol .integer)))) +
    symbol .letters * (optional (symbol .minus) * (symbol .dot * symbol .integer)) +
    symbol .letters * symbol .string

def comment : Language TokenKind :=
  symbol .comment * trivia∗

/-- What a line holds in front of its comments. -/
def body : Language TokenKind :=
  trivia∗ * ((field * trivia∗)∗ * optional (checksum * trivia∗))

/-- A line whose comments are words of the given language. -/
def line (comments : Language TokenKind) : Language TokenKind :=
  body * comments

def lines (comments : Language TokenKind) : Language TokenKind :=
  (line comments * symbol .newline)∗ * line comments

def rule (comments : Language TokenKind) : Rule → Language TokenKind
  | .file => optional (symbol .percent) * (lines comments * optional (symbol .percent))
  | .snippet => lines comments
  | .line => line comments

section

variable {L M : Language TokenKind} {ts : List Token}

theorem map_kind_mem_mul_iff : ts.map Token.kind ∈ L * M ↔
    ∃ us vs, ts = us ++ vs ∧ us.map Token.kind ∈ L ∧ vs.map Token.kind ∈ M := by
  rw [Language.mem_mul]
  constructor
  · rintro ⟨_, hu, _, hv, heq⟩
    obtain ⟨us, vs, rfl, rfl, rfl⟩ := List.map_eq_append_iff.mp heq.symm
    exact ⟨us, vs, rfl, hu, hv⟩
  · rintro ⟨us, vs, rfl, hu, hv⟩
    exact ⟨_, hu, _, hv, List.map_append.symm⟩

theorem mem_symbol (k : TokenKind) : [k] ∈ symbol k :=
  rfl

theorem map_kind_mem_symbol_iff {k : TokenKind} :
    ts.map Token.kind ∈ symbol k ↔ ∃ t, ts = [t] ∧ t.kind = k := by
  rw [show ts.map Token.kind ∈ symbol k ↔ ts.map Token.kind = [k] from Iff.rfl,
    List.map_eq_singleton_iff]

theorem mem_optional_iff {w : List TokenKind} : w ∈ optional L ↔ w = [] ∨ w ∈ L := by
  rw [optional, Language.mem_add, Language.mem_one]

theorem map_kind_mem_optional_symbol_iff {k : TokenKind} : ts.map Token.kind ∈ optional (symbol k) ↔
    ∃ found : Option Token, ts = found.toList ∧ ∀ t ∈ found, t.kind = k := by
  rw [mem_optional_iff, List.map_eq_nil_iff, map_kind_mem_symbol_iff]
  constructor
  · rintro (rfl | ⟨t, rfl, ht⟩)
    · exact ⟨none, rfl, by simp⟩
    · exact ⟨some t, rfl, by simpa using ht⟩
  · rintro ⟨_ | t, rfl, ht⟩
    · exact .inl rfl
    · exact .inr ⟨t, rfl, ht t rfl⟩

end

theorem isNumber_iff {ts : List Token} : (∃ p : NumberParts, p.IsNumber ∧ p.leaves = ts) ↔
    ts.map Token.kind ∈ symbol .integer + symbol .minus * symbol .integer +
      optional (symbol .minus) * (symbol .integer * (symbol .dot * optional (symbol .integer))) +
      optional (symbol .minus) * (symbol .dot * symbol .integer) := by
  simp only [Language.mem_add, map_kind_mem_mul_iff, map_kind_mem_symbol_iff,
    map_kind_mem_optional_symbol_iff]
  constructor
  · rintro ⟨_, hp, rfl⟩
    cases hp with
    | @whole minus digits hminus hdigits =>
        cases minus with
        | none => exact .inl (.inl (.inl ⟨digits, rfl, hdigits⟩))
        | some t =>
            exact .inl (.inl (.inr ⟨[t], [digits], rfl, ⟨t, rfl, hminus t rfl⟩,
              digits, rfl, hdigits⟩))
    | @decimal minus digits dot fraction hminus hdigits hdot hfraction =>
        refine .inl (.inr ⟨minus.toList, digits :: dot :: fraction.toList, ?_, ⟨minus, rfl, hminus⟩,
          [digits], dot :: fraction.toList, rfl, ⟨digits, rfl, hdigits⟩, [dot], fraction.toList, rfl,
          ⟨dot, rfl, hdot⟩, fraction, rfl, hfraction⟩)
        simp [NumberParts.leaves]
    | @fraction minus dot digits hminus hdot hdigits =>
        refine .inr ⟨minus.toList, [dot, digits], ?_, ⟨minus, rfl, hminus⟩, [dot], [digits], rfl,
          ⟨dot, rfl, hdot⟩, digits, rfl, hdigits⟩
        simp [NumberParts.leaves]
  · rintro (((⟨digits, rfl, hdigits⟩ | ⟨_, _, rfl, ⟨minus, rfl, hminus⟩, digits, rfl, hdigits⟩) |
      ⟨_, _, rfl, ⟨minus, rfl, hminus⟩, _, _, rfl, ⟨digits, rfl, hdigits⟩, _, _, rfl,
        ⟨dot, rfl, hdot⟩, fraction, rfl, hfraction⟩) |
      ⟨_, _, rfl, ⟨minus, rfl, hminus⟩, _, _, rfl, ⟨dot, rfl, hdot⟩, digits, rfl, hdigits⟩)
    · exact ⟨⟨none, some digits, none, none⟩, .whole (by simp) hdigits, rfl⟩
    · exact ⟨⟨some minus, some digits, none, none⟩, .whole (by simpa using hminus) hdigits, rfl⟩
    · exact ⟨_, .decimal hminus hdigits hdot hfraction, by simp [NumberParts.leaves]⟩
    · exact ⟨_, .fraction hminus hdot hdigits, by simp [NumberParts.leaves]⟩

/-- The classes of the tokens of a part of a line. -/
def partWords : Part → Language TokenKind
  | .trivia kind => symbol kind.tokenKind
  | .field => field
  | .checksum => checksum

theorem field_eq : field = symbol .letters * (symbol .integer + symbol .minus * symbol .integer +
    optional (symbol .minus) * (symbol .integer * (symbol .dot * optional (symbol .integer))) +
    optional (symbol .minus) * (symbol .dot * symbol .integer) + symbol .string) := by
  simp only [field, mul_add]

theorem mem_partWords_iff {a : Part} {ts : List Token} : ts.map Token.kind ∈ partWords a ↔
    ∃ t : ItemTree, t.IsItem ∧ t.part = a ∧ t.leaves = ts := by
  constructor
  · intro h
    cases a with
    | trivia kind =>
        obtain ⟨t, rfl, ht⟩ := map_kind_mem_symbol_iff.mp h
        exact ⟨.trivia kind t, .trivia ht, rfl, rfl⟩
    | field =>
        rw [partWords, field_eq, map_kind_mem_mul_iff] at h
        obtain ⟨_, us, rfl, hfirst, hcontent⟩ := h
        obtain ⟨letters, rfl, hletters⟩ := map_kind_mem_symbol_iff.mp hfirst
        rw [Language.mem_add, ← isNumber_iff, map_kind_mem_symbol_iff] at hcontent
        rcases hcontent with ⟨p, hp, rfl⟩ | ⟨t, rfl, ht⟩
        · exact ⟨.field (.ofParts letters (.number p)), .field ⟨hletters, .number hp, rfl⟩, rfl, rfl⟩
        · exact ⟨.field (.ofParts letters (.literal t)), .field ⟨hletters, .literal ht, rfl⟩, rfl, rfl⟩
    | checksum =>
        obtain ⟨_, _, rfl, hfirst, hsecond⟩ := map_kind_mem_mul_iff.mp h
        obtain ⟨star, rfl, hstar⟩ := map_kind_mem_symbol_iff.mp hfirst
        obtain ⟨digits, rfl, hdigits⟩ := map_kind_mem_symbol_iff.mp hsecond
        exact ⟨.checksum ⟨star, digits, star.start, digits.stop⟩, .checksum ⟨hstar, hdigits, rfl⟩,
          rfl, rfl⟩
  · rintro ⟨t, ht, rfl, rfl⟩
    cases ht with
    | @trivia kind t hkind => exact map_kind_mem_symbol_iff.mpr ⟨t, rfl, hkind⟩
    | @field t ht =>
        rw [ItemTree.part, partWords, field_eq]
        refine map_kind_mem_mul_iff.mpr ⟨[t.letters], t.content.leaves, rfl,
          map_kind_mem_symbol_iff.mpr ⟨_, rfl, ht.letters⟩, ?_⟩
        rw [Language.mem_add, ← isNumber_iff, map_kind_mem_symbol_iff]
        obtain ⟨letters, content, extent⟩ := t
        cases ht.content with
        | number hp => exact .inl ⟨_, hp, rfl⟩
        | literal hliteral => exact .inr ⟨_, rfl, hliteral⟩
    | @checksum t ht =>
        exact map_kind_mem_mul_iff.mpr ⟨[t.star], [t.digits], rfl,
          map_kind_mem_symbol_iff.mpr ⟨_, rfl, ht.star⟩,
          map_kind_mem_symbol_iff.mpr ⟨_, rfl, ht.digits⟩⟩

/-- How a line may go on after what was seen. As it is read, it may hold any number of comments. -/
def rest (s : Parse.Seen) : Language TokenKind :=
  if s.checksum || s.comment then trivia∗ * comment∗ else line comment∗

theorem rest_of_seen {s : Parse.Seen} (h : (s.checksum || s.comment) = true) :
    rest s = trivia∗ * comment∗ :=
  if_pos h

theorem rest_of_unseen {s : Parse.Seen} (hchecksum : s.checksum = false)
    (hcomment : s.comment = false) : rest s = line comment∗ :=
  if_neg (by simp [hchecksum, hcomment])

theorem trivia_mul_rest_le (s : Parse.Seen) : trivia * rest s ≤ rest s := by
  rw [rest]
  split
  · rw [← mul_assoc]
    exact mul_le_mul_left mul_kstar_le_kstar _
  · rw [line, body, ← mul_assoc, ← mul_assoc]
    exact mul_le_mul_left (mul_le_mul_left mul_kstar_le_kstar _) _

theorem comment_mul_rest_le : symbol .comment * (trivia∗ * comment∗) ≤ comment∗ := by
  rw [← mul_assoc]
  exact mul_kstar_le_kstar

theorem one_le_optional (L : Language TokenKind) : 1 ≤ optional L :=
  le_self_add

theorem one_le_body : 1 ≤ body :=
  one_le_mul one_le_kstar (one_le_mul one_le_kstar (one_le_optional _))

theorem field_mul_line_le (comments : Language TokenKind) :
    field * line comments ≤ line comments := by
  rw [line, ← mul_assoc]
  refine mul_le_mul_left ?_ _
  calc field * body
      = field * trivia∗ * (field * trivia∗)∗ * optional (checksum * trivia∗) := by
        simp only [body, mul_assoc]
    _ ≤ (field * trivia∗)∗ * optional (checksum * trivia∗) :=
        mul_le_mul_left mul_kstar_le_kstar _
    _ ≤ body := le_mul_of_one_le_left' one_le_kstar

theorem checksum_mul_le_line (comments : Language TokenKind) :
    checksum * (trivia∗ * comments) ≤ line comments := by
  rw [line, ← mul_assoc]
  refine mul_le_mul_left ?_ _
  calc checksum * trivia∗ ≤ optional (checksum * trivia∗) := le_add_self
    _ ≤ (field * trivia∗)∗ * optional (checksum * trivia∗) := le_mul_of_one_le_left' one_le_kstar
    _ ≤ body := le_mul_of_one_le_left' one_le_kstar

theorem partWords_mul_rest_le {s : Parse.Seen} {a : Part} (h : s.Allows a) :
    partWords a * rest (s.after a) ≤ rest s := by
  cases a with
  | trivia kind =>
      cases kind with
      | newline => exact absurd rfl h
      | whitespace => exact (mul_le_mul_left le_self_add _).trans (trivia_mul_rest_le s)
      | inlineComment => exact (mul_le_mul_left le_add_self _).trans (trivia_mul_rest_le s)
      | comment =>
          rw [rest_of_seen (s := s.after (.trivia .comment)) (by simp [Parse.Seen.after]), rest]
          refine comment_mul_rest_le.trans ?_
          split
          · exact le_mul_of_one_le_left' one_le_kstar
          · exact le_mul_of_one_le_left' one_le_body
  | field =>
      rw [show s.after .field = s from rfl, rest_of_unseen h.1 h.2]
      exact field_mul_line_le _
  | checksum =>
      rw [rest_of_seen (s := s.after .checksum) (by simp [Parse.Seen.after]),
        rest_of_unseen h.1 h.2]
      exact checksum_mul_le_line _

theorem one_le_rest (s : Parse.Seen) : 1 ≤ rest s := by
  rw [rest]
  split
  · exact one_le_mul one_le_kstar one_le_kstar
  · exact one_le_mul one_le_body one_le_kstar

theorem mem_rest_of_isItems {s : Parse.Seen} {items : List ItemTree} (h : Parse.IsItems s items) :
    (items.flatMap ItemTree.leaves).map Token.kind ∈ rest s := by
  induction items generalizing s with
  | nil => exact one_le_rest s rfl
  | cons t items ih =>
      obtain ⟨ht, hallows, hitems⟩ := Parse.isItems_cons_iff.mp h
      refine partWords_mul_rest_le hallows ?_
      rw [List.flatMap_cons, List.map_append]
      refine Language.append_mem_mul (mem_partWords_iff.mpr ⟨t, ht, rfl, rfl⟩) ?_
      exact ih (Parse.Seen.add_eq_after s t ▸ hitems)

/-- The words all of whose tokens have the property. -/
def havingTokens (P : List Token → Prop) : Language TokenKind :=
  {w | ∀ ts, ts.map Token.kind = w → P ts}

theorem mul_havingTokens_le {L : Language TokenKind} {P Q : List Token → Prop}
    (h : ∀ us vs, us.map Token.kind ∈ L → P vs → Q (us ++ vs)) :
    L * havingTokens P ≤ havingTokens Q := by
  intro w hw ts hts
  subst hts
  obtain ⟨us, vs, rfl, hus, hvs⟩ := map_kind_mem_mul_iff.mp hw
  exact h us vs hus (hvs vs rfl)

/-- The words that are read as parts of a line behind what was seen. -/
def items (s : Parse.Seen) : Language TokenKind :=
  havingTokens fun ts => ∃ items, Parse.IsItems s items ∧ items.flatMap ItemTree.leaves = ts

theorem one_le_items (s : Parse.Seen) : 1 ≤ items s := by
  rintro w rfl ts hts
  exact ⟨[], Parse.isItems_nil s, (List.map_eq_nil_iff.mp hts).symm⟩

theorem partWords_mul_items_le {s : Parse.Seen} {a : Part} (h : s.Allows a) :
    partWords a * items (s.after a) ≤ items s := by
  refine mul_havingTokens_le ?_
  rintro us _ hus ⟨items, hitems, rfl⟩
  obtain ⟨t, ht, rfl, rfl⟩ := mem_partWords_iff.mp hus
  rw [← Parse.Seen.add_eq_after] at hitems
  exact ⟨t :: items, Parse.isItems_cons_iff.mpr ⟨ht, h, hitems⟩, rfl⟩

theorem kstar_trivia_mul_items_le (s : Parse.Seen) : trivia∗ * items s ≤ items s := by
  refine kstar_mul_le_self ?_
  have hallows (kind : TriviaKind) (h : kind ≠ .newline) : s.Allows (.trivia kind) := h
  rw [trivia, add_mul]
  exact add_le (partWords_mul_items_le (hallows .whitespace (by decide)))
    (partWords_mul_items_le (hallows .inlineComment (by decide)))

theorem comment_mul_items_le (s : Parse.Seen) :
    comment * items (s.after (.trivia .comment)) ≤ items s := by
  rw [comment, mul_assoc]
  exact (mul_le_mul_right (kstar_trivia_mul_items_le _) _).trans
    (partWords_mul_items_le (a := .trivia .comment) (by simp [Parse.Seen.Allows]))

theorem kstar_comment_le_items (s : Parse.Seen) : comment∗ ≤ items s := by
  have hseen : comment∗ ≤ items (s.after (.trivia .comment)) :=
    kstar_le_of_mul_le_right (one_le_items _) (comment_mul_items_le (s.after (.trivia .comment)))
  rw [← one_add_mul_kstar]
  exact add_le (one_le_items s)
    ((mul_le_mul_right hseen comment).trans (comment_mul_items_le s))

theorem rest_le_items (s : Parse.Seen) : rest s ≤ items s := by
  have hcomments (s : Parse.Seen) : trivia∗ * comment∗ ≤ items s :=
    (mul_le_mul_right (kstar_comment_le_items s) _).trans (kstar_trivia_mul_items_le s)
  by_cases h : (s.checksum || s.comment) = true
  · exact (rest_of_seen h).trans_le (hcomments s)
  obtain ⟨hchecksum, hcomment⟩ : s.checksum = false ∧ s.comment = false := by simpa using h
  rw [rest_of_unseen hchecksum hcomment, line, body, mul_assoc, mul_assoc]
  refine (mul_le_mul_right ?_ _).trans (kstar_trivia_mul_items_le s)
  refine kstar_mul_le ?_ ?_
  · rw [optional, add_mul, one_mul, mul_assoc]
    exact add_le (kstar_comment_le_items s) ((mul_le_mul_right (hcomments _) _).trans
      (partWords_mul_items_le (a := .checksum) ⟨hchecksum, hcomment⟩))
  · rw [mul_assoc]
    exact (mul_le_mul_right (kstar_trivia_mul_items_le s) _).trans
      (partWords_mul_items_le (a := .field) ⟨hchecksum, hcomment⟩)

theorem mem_rest_iff {s : Parse.Seen} {ts : List Token} : ts.map Token.kind ∈ rest s ↔
    ∃ items, Parse.IsItems s items ∧ items.flatMap ItemTree.leaves = ts := by
  constructor
  · exact fun h => rest_le_items s h ts rfl
  · rintro ⟨items, hitems, rfl⟩
    exact mem_rest_of_isItems hitems

theorem mem_line_iff {ts : List Token} (next : Token) : ts.map Token.kind ∈ line comment∗ ↔
    ∃ t : LineTree, t.IsLine next ∧ t.leaves = ts := by
  refine (mem_rest_iff (s := .none)).trans ⟨?_, ?_⟩
  · rintro ⟨items, hitems, rfl⟩
    exact ⟨.before items next, ⟨hitems, rfl⟩, rfl⟩
  · rintro ⟨t, ht, rfl⟩
    exact ⟨t.items, ht.items, rfl⟩

theorem terminated_mul_lines_le (comments : Language TokenKind) :
    line comments * symbol .newline * lines comments ≤ lines comments := by
  rw [lines, ← mul_assoc]
  exact mul_le_mul_left mul_kstar_le_kstar _

theorem line_le_lines (comments : Language TokenKind) : line comments ≤ lines comments :=
  le_mul_of_one_le_left' one_le_kstar

theorem mem_lines_iff {ts : List Token} (next : Token) : ts.map Token.kind ∈ lines comment∗ ↔
    ∃ pairs, ∃ last : LineTree, Parse.ArePairs pairs ∧ last.IsLine next ∧
      pairs.flatMap (fun p => p.1.leaves ++ [p.2]) ++ last.leaves = ts := by
  constructor
  · intro h
    suffices hle : lines comment∗ ≤ havingTokens fun ts =>
        ∃ pairs, ∃ last : LineTree, Parse.ArePairs pairs ∧ last.IsLine next ∧
          pairs.flatMap (fun p => p.1.leaves ++ [p.2]) ++ last.leaves = ts from
      hle h ts rfl
    refine kstar_mul_le ?_ (mul_havingTokens_le ?_)
    · rintro w hw ts rfl
      obtain ⟨last, hlast, rfl⟩ := (mem_line_iff next).mp hw
      exact ⟨[], last, by simp [Parse.ArePairs], hlast, rfl⟩
    · rintro us _ hus ⟨pairs, last, hpairs, hlast, rfl⟩
      obtain ⟨us, vs, rfl, hline, hnewline⟩ := map_kind_mem_mul_iff.mp hus
      obtain ⟨terminator, rfl, hkind⟩ := map_kind_mem_symbol_iff.mp hnewline
      obtain ⟨t, ht, rfl⟩ := (mem_line_iff terminator).mp hline
      refine ⟨(t, terminator) :: pairs, last, ?_, hlast, by simp⟩
      exact List.forall_mem_cons.mpr ⟨⟨ht, hkind⟩, hpairs⟩
  · rintro ⟨pairs, last, hpairs, hlast, rfl⟩
    induction pairs with
    | nil => exact line_le_lines _ ((mem_line_iff next).mpr ⟨last, hlast, rfl⟩)
    | cons p pairs ih =>
        obtain ⟨⟨hline, hkind⟩, hpairs⟩ := List.forall_mem_cons.mp hpairs
        refine terminated_mul_lines_le _ ?_
        rw [List.flatMap_cons, List.append_assoc, List.map_append]
        refine Language.append_mem_mul ?_ (ih hpairs)
        exact map_kind_mem_mul_iff.mpr ⟨p.1.leaves, [p.2], rfl,
          (mem_line_iff p.2).mpr ⟨p.1, hline, rfl⟩, map_kind_mem_symbol_iff.mpr ⟨p.2, rfl, hkind⟩⟩

end TokenGrammar

end NcProgram
