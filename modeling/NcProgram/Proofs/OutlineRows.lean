import NcProgram.Proofs.Node.Outline
import NcProgram.Proofs.Text.Lines
import Mathlib.Data.List.Forall2

namespace NcProgram

open Lexeme

/-- A fraction in lowest terms, one of whose two numbers takes more decimal digits than a number may
have. The denominator is not looked at when it is one. -/
def Field.HasLongFraction (f : Field) : Prop :=
  ∃ q, f.value = .rational q ∧ (Text.maxDigits < (Nat.toDigits 10 q.num.natAbs).length ∨
    q.den ≠ 1 ∧ Text.maxDigits < (Nat.toDigits 10 q.den).length)

/-- Some field of what was read has a fraction with too many digits. -/
def Parsed.HasLongFraction (p : Parsed) : Prop :=
  ∃ depth f, (depth, .item (.field f)) ∈ p.nodes ∧ f.HasLongFraction

/-- The row of a node at its depth. -/
structure Outlined.IsRow (n : Nat × Outlined) (row : String) : Prop where
  isOneLine : Text.IsOneLine row
  shown : ∃ rest, n.2.row = .ok (n.2.label ++ " " ++ rest) ∧
    row = String.ofList (List.replicate (2 * n.1) ' ') ++ (n.2.label ++ " " ++ rest)

/-- The outline has a row for each node, in order, and nothing else; with a fraction that has too many
digits there is no outline. -/
structure Parsed.IsDrawn (p : Parsed) : Prop where
  raises : ∀ f, p.toNode.outline defaultIndent = .error f ↔ p.HasLongFraction ∧ f = .numberTooLong
  rows : ¬ p.HasLongFraction → ∃ rows text, p.toNode.outline defaultIndent = .ok text ∧
    text = String.join (rows.map (· ++ "\n")) ∧ List.Forall₂ Outlined.IsRow p.nodes rows ∧
    Text.splitLines text.toList = rows.map String.toList ++ [[]]

theorem isTooLongToWrite_iff {n : Nat} :
    Text.isTooLongToWrite n = true ↔ Text.maxDigits < (Nat.toDigits 10 n).length := by
  have hpow (w : Nat) : Nat.pow 10 w ≤ n ↔ ¬ n < 10 ^ w := Nat.not_lt.symm
  rw [Text.isTooLongToWrite, decide_eq_true_iff, hpow,
    ← Nat.length_toDigits_le_iff (by decide) (by decide), Nat.not_le]

theorem Field.isTooLong_iff {f : Field} : f.isTooLong = true ↔ f.HasLongFraction := by
  obtain ⟨letters, value, raw, span⟩ := f
  cases value with
  | rational q =>
      simp [isTooLong, isTooLongFraction, HasLongFraction, isTooLongToWrite_iff]
  | integer n => simp [isTooLong, HasLongFraction]
  | string s => simp [isTooLong, HasLongFraction]

theorem Parsed.any_isTooLong_iff {p : Parsed} :
    (p.nodes.any fun n => n.2.isTooLong) = true ↔ p.HasLongFraction := by
  rw [List.any_eq_true]
  constructor
  · rintro ⟨⟨depth, n⟩, hmem, hlong⟩
    obtain ⟨f, rfl⟩ : ∃ f, n = .item (.field f) := by
      cases n with
      | document d => cases hlong
      | line l => cases hlong
      | item i =>
        cases i with
        | field f => exact ⟨f, rfl⟩
        | checksum c => cases hlong
        | trivia t => cases hlong
    exact ⟨depth, f, hmem, Field.isTooLong_iff.mp hlong⟩
  · rintro ⟨depth, f, hmem, hlong⟩
    exact ⟨_, hmem, Field.isTooLong_iff.mpr hlong⟩

theorem isOneLine_integerText {n : Int} {s : String} (h : integerText n = .ok s) :
    Text.IsOneLine s := by
  unfold integerText at h
  split at h
  · cases h
  · obtain rfl := Except.ok.inj h
    exact Text.isOneLine_toString_int n

theorem isOneLine_rationalText {q : Rat} {s : String} (h : rationalText q = .ok s) :
    Text.IsOneLine s := by
  obtain ⟨num, hnum, h⟩ := except_bind_eq_ok_iff.mp h
  split at h
  · obtain rfl := Except.ok.inj h
    exact isOneLine_integerText hnum
  · obtain ⟨den, hden, h⟩ := except_bind_eq_ok_iff.mp h
    obtain rfl := Except.ok.inj h
    have hslash : Text.IsOneLine "/" := by decide
    simp [isOneLine_integerText hnum, isOneLine_integerText hden, hslash]

/-- What the row of a field shows as it stands has no line feed. -/
structure Field.IsOneLine (f : Field) : Prop where
  letters : Text.IsOneLine f.letters
  value : ∀ s, f.value = .string s → Text.IsOneLine s

theorem Field.IsOneLine.text {f : Field} (h : f.IsOneLine) {s : String} (hs : f.value.text = .ok s) :
    Text.IsOneLine s := by
  cases hvalue : f.value with
  | integer n =>
      rw [hvalue] at hs
      exact isOneLine_integerText hs
  | rational q =>
      rw [hvalue] at hs
      exact isOneLine_rationalText hs
  | string t =>
      rw [hvalue] at hs
      obtain rfl := Except.ok.inj hs
      exact h.value t hvalue

@[simp] theorem Value.isOneLine_kind (v : Value) : Text.IsOneLine v.kind := by
  cases v <;> simp +decide [kind]

@[simp] theorem TriviaKind.isOneLine_label (k : TriviaKind) : Text.IsOneLine k.label := by
  cases k <;> decide +kernel

@[simp] theorem DocumentKind.isOneLine_name (k : DocumentKind) : Text.IsOneLine k.name := by
  cases k <;> simp +decide [name]

@[simp] theorem DocumentKind.isOneLine_flags (k : DocumentKind) : Text.IsOneLine k.flags := by
  unfold flags
  split_ifs <;> decide

theorem DocumentKind.exists_flags_eq (k : DocumentKind) : ∃ rest, k.flags ++ " @" = " " ++ rest := by
  refine ⟨String.ofList (k.flags ++ " @").toList.tail, ?_⟩
  unfold flags
  split_ifs <;> decide

namespace Outlined

/-- The row starts with the label of its node and has no line feed. -/
structure IsOwnRow (n : Outlined) (row : String) : Prop where
  isOneLine : Text.IsOneLine row
  labelled : ∃ rest, row = n.label ++ " " ++ rest

theorem isOwnRow_document (d : Document Item) :
    (document d).IsOwnRow (documentRow d.kind d.span) := by
  obtain ⟨rest, hrest⟩ := d.kind.exists_flags_eq
  refine ⟨by simp +decide [documentRow], rest ++ d.span.render, ?_⟩
  have hwords := congrArg (· ++ d.span.render) hrest
  simp only [String.append_assoc] at hwords
  simp only [documentRow, label, String.append_assoc, hwords]

theorem isOwnRow_line (l : Line Item) : (line l).IsOwnRow (lineRow l.span) :=
  ⟨by simp +decide [lineRow], "@" ++ l.span.render, by simp [lineRow, label, ← String.append_assoc]⟩

theorem isOwnRow_field {f : Field} (h : f.IsOneLine) {row : String} (hrow : f.row = .ok row) :
    (item (.field f)).IsOwnRow row := by
  obtain ⟨value, hvalue, hrow⟩ := except_bind_eq_ok_iff.mp hrow
  obtain rfl := Except.ok.inj hrow
  exact ⟨by simp +decide [h.letters, h.text hvalue],
    f.letters ++ " " ++ f.value.kind ++ " " ++ value ++ " @" ++ f.span.render,
    by simp [label, String.append_assoc]⟩

theorem isOwnRow_checksum {c : Checksum} {row : String} (hrow : c.row = .ok row) :
    (item (.checksum c)).IsOwnRow row := by
  obtain ⟨value, hvalue, hrow⟩ := except_bind_eq_ok_iff.mp hrow
  obtain rfl := Except.ok.inj hrow
  exact ⟨by simp +decide [isOneLine_integerText hvalue], value ++ " @" ++ c.span.render,
    by simp [label, String.append_assoc]⟩

theorem isOwnRow_trivia {t : Trivia} {row : String} (hrow : t.row = .ok row) :
    (item (.trivia t)).IsOwnRow row := by
  obtain ⟨span, hspan, hrow⟩ := except_bind_eq_ok_iff.mp hrow
  obtain rfl := Except.ok.inj hrow
  exact ⟨by simp +decide, Text.quoted t.text ++ " @" ++ span.render,
    by simp [label, String.append_assoc]⟩

/-- If the node has a row, that row is as it should be. -/
def HasOwnRow (n : Outlined) : Prop :=
  ∀ row, n.row = .ok row → n.IsOwnRow row

end Outlined

open Outlined

theorem isOneLine_unquoted {s : String} (h : Text.IsOneLine s) : Text.IsOneLine (unquoted s) := by
  rw [unquoted, Text.isOneLine_ofList]
  exact fun hfeed => h (List.mem_of_mem_tail (List.mem_of_mem_dropLast hfeed))

namespace Phrase

theorem isOneLine_of_hasShape {kind : TokenKind} {cs : List Char} (h : HasShape kind cs)
    (hkind : kind ≠ .newline) : Text.IsOneLine (String.ofList cs) := by
  rw [Text.isOneLine_ofList]
  intro hfeed
  simpa [isLineBreak, hkind] using h.isLineBreak_eq hfeed

theorem hasOwnRow_item {p : Phrase} (h : p.HasShapes) (o : Nat) :
    (Outlined.item (p.item o)).HasOwnRow := by
  cases p with
  | trivia kind chars => exact fun _ => isOwnRow_trivia
  | checksum digits => exact fun _ => isOwnRow_checksum
  | number letters numeral =>
      have hletters : HasShape .letters letters := h ⟨.letters, letters⟩ (by simp [lexemes])
      have hline : Field.IsOneLine ⟨String.ofList letters, numeral.value, numeral.raw,
          .ofSize o (number letters numeral).size⟩ :=
        ⟨isOneLine_of_hasShape hletters TokenKind.noConfusion,
          fun s hs => absurd hs (Numeral.value_ne_string numeral s)⟩
      intro row hrow
      exact isOwnRow_field hline hrow
  | literal letters chars =>
      have hletters : HasShape .letters letters := h ⟨.letters, letters⟩ (by simp [lexemes])
      have hchars : HasShape .string chars := h ⟨.string, chars⟩ (by simp [lexemes])
      have hline : Field.IsOneLine ⟨String.ofList letters, .string (unquoted (String.ofList chars)),
          [String.ofList chars], .ofSize o (literal letters chars).size⟩ := by
        refine ⟨isOneLine_of_hasShape hletters TokenKind.noConfusion, fun s hs => ?_⟩
        obtain rfl := Value.string.inj hs
        exact isOneLine_unquoted (isOneLine_of_hasShape hchars TokenKind.noConfusion)
      intro row hrow
      exact isOwnRow_field hline hrow

theorem hasOwnRow_nodes {ps : List Phrase} (h : ∀ p ∈ ps, p.HasShapes) (o depth : Nat) :
    ∀ n ∈ (line o ps).nodes depth, n.2.HasOwnRow := by
  refine Line.forall_mem_nodes HasOwnRow ?_ ?_ depth
  · rintro _ ⟨⟩
    exact isOwnRow_line _
  · exact forall_mem_items (fun p hp => hasOwnRow_item (h p hp)) o

end Phrase

theorem Script.hasOwnRow_nodes {s : Script} (h : s.IsScript) (kind : DocumentKind) :
    ∀ n ∈ (s.document kind).nodes, n.2.HasOwnRow := by
  have hsource : (String.ofList s.chars).toList = s.chars := String.toList_ofList
  refine Document.forall_mem_nodes HasOwnRow ?_ ?_ ?_
  · rintro _ ⟨⟩
    exact isOwnRow_document _
  · intro p hp
    obtain ⟨row, hrow, before, -, -, rfl⟩ := exists_of_mem_lines hsource p hp
    exact ⟨Phrase.hasOwnRow_nodes (h.rows row hrow).line.shapes _ 1, fun _ => isOwnRow_trivia⟩
  · intro l hl
    obtain rfl := Line.eq_of_mem_unlessBlank hl
    exact Phrase.hasOwnRow_nodes h.last.shapes _ 1

theorem forall₂_of_mapM {α β : Type} {g : α → Except Fault β} {P : α → β → Prop} {xs : List α}
    {ys : List β} (h : xs.mapM g = .ok ys) (hP : ∀ x ∈ xs, ∀ y, g x = .ok y → P x y) :
    List.Forall₂ P xs ys := by
  induction xs generalizing ys with
  | nil =>
      obtain rfl := Except.ok.inj h
      exact .nil
  | cons x xs ih =>
      obtain ⟨hx, hxs⟩ := List.forall_mem_cons.mp hP
      rw [List.mapM_cons, except_bind_eq_ok_iff] at h
      obtain ⟨y, hy, h⟩ := h
      obtain ⟨rest, hrest, h⟩ := except_bind_eq_ok_iff.mp h
      obtain rfl := Except.ok.inj h
      exact .cons (hx y hy) (ih hrest hxs)

theorem join_replicate_defaultIndent (depth : Nat) :
    String.join (List.replicate depth defaultIndent) = String.ofList (List.replicate (2 * depth) ' ') := by
  induction depth with
  | zero => rfl
  | succ depth ih =>
      rw [List.replicate_succ, String.join_cons, ih, ← String.toList_inj]
      simp [defaultIndent, Nat.mul_succ, List.replicate_succ]

theorem Outlined.HasOwnRow.isRow {n : Nat × Outlined} (h : n.2.HasOwnRow) {row : String}
    (hrow : indentedRow defaultIndent n = .ok row) : IsRow n row := by
  obtain ⟨own, hown, rfl⟩ := except_map_eq_ok_iff.mp hrow
  obtain ⟨hline, rest, rfl⟩ := h own hown
  rw [indented, join_replicate_defaultIndent]
  refine ⟨?_, rest, hown, rfl⟩
  simpa [List.mem_replicate] using hline

theorem Parsed.isDrawn {p : Parsed} (houtlined : ∀ n ∈ p.nodes, n.2.IsOutlined)
    (hrows : ∀ n ∈ p.nodes, n.2.HasOwnRow) : p.IsDrawn := by
  have hfault := p.fault?_outline houtlined defaultIndent
  constructor
  · intro f
    rw [← fault?_eq_some_iff, hfault, longFault?_eq_some_iff, any_isTooLong_iff]
  · intro hshort
    rw [← any_isTooLong_iff, Bool.not_eq_true] at hshort
    rw [hshort] at hfault
    obtain ⟨text, htext⟩ := fault?_eq_none_iff.mp hfault
    obtain ⟨rows, hmap, h⟩ := except_bind_eq_ok_iff.mp htext
    rw [rows_eq] at hmap
    obtain rfl := Except.ok.inj h
    have hdrawn := forall₂_of_mapM hmap fun n hn _ => (hrows n hn).isRow
    have hlines : ∀ row ∈ rows, Text.IsOneLine row :=
      ((List.forall₂_and_left rows p.nodes).mp
        (hdrawn.imp (fun _ _ h => ⟨h.isOneLine, h⟩)).flip).1
    refine ⟨rows, _, htext, rfl, hdrawn, ?_⟩
    rw [← Text.splitLines_flatMap_feed (List.forall_mem_map.mpr hlines)]
    simp [String.toList_join, List.flatMap_map]

theorem Script.isDrawn {s : Script} (h : s.IsScript) (hread : s.IsReadable) (kind : DocumentKind) :
    (Parsed.document (s.document kind)).IsDrawn := by
  obtain ⟨hlines, hlast⟩ := isOutlined_lines h hread kind
  exact Parsed.isDrawn (Document.isOutlined_nodes hlines hlast) (hasOwnRow_nodes h kind)

/-- What is read is drawn with one row for each node, unless a fraction in it needs too many digits. -/
theorem outline_has_row_per_node (source : String) :
    (∀ d, parseFile source = .ok d → (Parsed.document d).IsDrawn) ∧
      (∀ d, parseSnippet source = .ok d → (Parsed.document d).IsDrawn) ∧
      ∀ l, parseLine source = .ok l → (Parsed.line l).IsDrawn := by
  refine ⟨?_, ?_, ?_⟩
  · intro d hd
    obtain ⟨s, hs, hread, -, rfl⟩ := parseFile_eq_ok_iff.mp hd
    exact Script.isDrawn hs hread _
  · intro d hd
    obtain ⟨s, hs, hread, -, -, -, rfl⟩ := parseSnippet_eq_ok_iff.mp hd
    exact Script.isDrawn hs hread _
  · intro l hl
    obtain ⟨ps, hps, hread, -, rfl⟩ := parseLine_eq_ok_iff.mp hl
    exact Parsed.isDrawn ((Phrase.isOutlined_line hps.shapes hread 0).nodes 0)
      (Phrase.hasOwnRow_nodes hps.shapes 0 0)

theorem outline_has_row_per_node_nested :
    (∃ d, parseFile "%G1X.5*071\n(é)\t%" = .ok d ∧ (Parsed.document d).IsDrawn) ∧
      (∃ d, parseSnippet "O\"a\"\r\n;b" = .ok d ∧ (Parsed.document d).IsDrawn) ∧
      ∃ l, parseLine "X-1. (b)" = .ok l ∧ (Parsed.line l).IsDrawn := by
  obtain ⟨d, hd⟩ : ∃ d, parseFile "%G1X.5*071\n(é)\t%" = .ok d :=
    ⟨_, parseFile_eq_ok_iff.mpr ⟨⟨true, [⟨[.number ['G'] (.whole false ['1']),
      .number ['X'] (.fraction false ['5']), .checksum ['0', '7', '1']], ['\n']⟩],
      [.trivia .inlineComment ['(', 'é', ')'], .trivia .whitespace ['\t']], true⟩, by decide, by decide,
      by decide, rfl⟩⟩
  obtain ⟨e, he⟩ : ∃ e, parseSnippet "O\"a\"\r\n;b" = .ok e :=
    ⟨_, parseSnippet_eq_ok_iff.mpr ⟨⟨false, [⟨[.literal ['O'] ['"', 'a', '"']], ['\r', '\n']⟩],
      [.trivia .comment [';', 'b']], false⟩, by decide, by decide, by decide, rfl, rfl, rfl⟩⟩
  obtain ⟨l, hl⟩ : ∃ l, parseLine "X-1. (b)" = .ok l :=
    ⟨_, parseLine_eq_ok_iff.mpr ⟨[.number ['X'] (.decimal true ['1'] []),
      .trivia .whitespace [' '], .trivia .inlineComment ['(', 'b', ')']], by decide, by decide,
      by decide, rfl⟩⟩
  exact ⟨⟨d, hd, (outline_has_row_per_node _).1 d hd⟩,
    ⟨e, he, (outline_has_row_per_node _).2.1 e he⟩, ⟨l, hl, (outline_has_row_per_node _).2.2 l hl⟩⟩

end NcProgram
