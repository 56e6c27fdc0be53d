import NcProgram.Proofs.Script

namespace NcProgram

open Lexeme

/-- A line of text and the line end behind it. -/
structure TextRow where
  text : String
  ending : String

namespace TextRow

def IsUnbroken (text : String) : Prop :=
  ∀ c ∈ text.toList, c ≠ '\r' ∧ c ≠ '\n'

instance (text : String) : Decidable (IsUnbroken text) :=
  List.decidableBAll _ text.toList

structure IsRow (row : TextRow) : Prop where
  text : IsUnbroken row.text
  ending : row.ending = "\r\n" ∨ row.ending = "\n" ∨ row.ending = "\r"

instance (row : TextRow) : Decidable row.IsRow :=
  decidable_of_iff (IsUnbroken row.text ∧
    (row.ending = "\r\n" ∨ row.ending = "\n" ∨ row.ending = "\r"))
    ⟨fun h => ⟨h.1, h.2⟩, fun h => ⟨h.text, h.ending⟩⟩

/-- The line ends of the rows do not run together. -/
def Apart (row next : TextRow) : Prop :=
  ¬ (row.ending = "\r" ∧ next.text = "" ∧ next.ending = "\n")

instance (row next : TextRow) : Decidable (row.Apart next) :=
  inferInstanceAs (Decidable (¬ _))

def join (rows : List TextRow) : String :=
  String.join (rows.map fun row => row.text ++ row.ending)

def offset (rows : List TextRow) (i : Nat) : Nat :=
  Text.utf8Length (join (rows.take i)).toList

theorem join_cons (row : TextRow) (rows : List TextRow) :
    join (row :: rows) = row.text ++ (row.ending ++ join rows) := by
  rw [join, List.map_cons, String.join_cons, String.append_assoc]
  rfl

theorem isLineBreak_eq_false {text : String} (h : IsUnbroken text) :
    ∀ c ∈ text.toList, isLineBreak c = false := by
  intro c hc
  obtain ⟨hreturn, hlineFeed⟩ := h c hc
  rw [Bool.eq_false_iff, ne_eq, isLineBreak_eq_true_iff]
  exact fun hbreak => hbreak.elim hlineFeed hreturn

theorem isUnbroken_ofList {cs : List Char} (h : ∀ c ∈ cs, isLineBreak c = false) :
    IsUnbroken (String.ofList cs) := by
  intro c hc
  have hbreak := h c (by rwa [String.toList_ofList] at hc)
  constructor <;> rintro rfl <;> cases hbreak

theorem isRow_ofList {cs ending : List Char} (h : ∀ c ∈ cs, isLineBreak c = false)
    (hending : HasShape .newline ending) :
    (TextRow.mk (String.ofList cs) (String.ofList ending)).IsRow := by
  refine ⟨isUnbroken_ofList h, ?_⟩
  have hending : ending ∈ terminators := hending
  simp only [terminators, List.mem_cons, List.not_mem_nil, or_false] at hending
  rcases hending with rfl | rfl | rfl
  · exact .inl rfl
  · exact .inr (.inl rfl)
  · exact .inr (.inr rfl)

theorem eq_of_append_break {front front' back back' : List Char}
    (h : front ++ back = front' ++ back') (hfront : ∀ c ∈ front, isLineBreak c = false)
    (hfront' : ∀ c ∈ front', isLineBreak c = false) (hback : ∀ c ∈ back.head?, isLineBreak c = true)
    (hback' : ∀ c ∈ back'.head?, isLineBreak c = true) : front = front' ∧ back = back' := by
  have hlength {front back : List Char} (hfront : ∀ c ∈ front, isLineBreak c = false)
      (hback : ∀ c ∈ back.head?, isLineBreak c = true) :
      runLength (!isLineBreak ·) (front ++ back) = front.length := by
    apply runLength_append
    · intro c hc
      rw [hfront c hc]
      rfl
    · intro c hc
      rw [hback c hc]
      rfl
  apply List.append_inj h
  rw [← hlength hfront hback, h, hlength hfront' hback']

theorem head_ending {row : TextRow} (h : row.IsRow) (rest : List Char) :
    ∀ c ∈ (row.ending.toList ++ rest).head?, isLineBreak c = true := by
  rcases h.ending with hending | hending | hending
  all_goals
    rw [hending]
    rintro c ⟨⟩
    rfl

theorem head_ne_lineFeed {row : TextRow} {rows : List TextRow} {last : String}
    (hrows : ∀ row ∈ rows, row.IsRow) (hlast : IsUnbroken last)
    (hapart : (row :: rows).IsChain Apart) (hending : row.ending = "\r") :
    (join rows ++ last).toList.head? ≠ some '\n' := by
  have htext {text : String} (htext : IsUnbroken text) (hne : text ≠ "") (rest : List Char) :
      (text.toList ++ rest).head? ≠ some '\n' := by
    obtain ⟨c, cs, hcs⟩ := List.exists_cons_of_ne_nil (mt String.toList_eq_nil_iff.mp hne)
    have hc := (htext c (by simp [hcs])).2
    simpa [hcs] using hc
  cases rows with
  | nil =>
      by_cases hnil : last = ""
      · simp [hnil, join]
      · simpa [join] using htext hlast hnil []
  | cons next rows =>
      obtain ⟨hnext, hrows⟩ := List.forall_mem_cons.mp hrows
      rw [join_cons, String.append_assoc, String.toList_append]
      by_cases hnil : next.text = ""
      · have hlineFeed : next.ending ≠ "\n" := fun h =>
          (List.isChain_cons_cons.mp hapart).1 ⟨hending, hnil, h⟩
        rcases hnext.ending with h | h | h
        · simp [hnil, h]
        · exact absurd h hlineFeed
        · simp [hnil, h]
      · exact htext hnext.text hnil _

theorem eq_of_ending_append {row row' : TextRow} (h : row.IsRow) (h' : row'.IsRow)
    {rest rest' : List Char} (heq : row.ending.toList ++ rest = row'.ending.toList ++ rest')
    (hrest : row.ending = "\r" → rest.head? ≠ some '\n')
    (hrest' : row'.ending = "\r" → rest'.head? ≠ some '\n') :
    row.ending = row'.ending ∧ rest = rest' := by
  rcases h.ending with hending | hending | hending <;>
    rcases h'.ending with hending' | hending' | hending' <;>
    rw [hending, hending'] at heq ⊢
  · exact ⟨rfl, List.append_cancel_left heq⟩
  · cases heq
  · cases heq
    exact absurd rfl (hrest' hending')
  · cases heq
  · exact ⟨rfl, List.append_cancel_left heq⟩
  · cases heq
  · cases heq
    exact absurd rfl (hrest hending)
  · cases heq
  · exact ⟨rfl, List.append_cancel_left heq⟩

theorem toList_join_cons (row : TextRow) (rows : List TextRow) (last : String) :
    (join (row :: rows) ++ last).toList =
      row.text.toList ++ (row.ending.toList ++ (join rows ++ last).toList) := by
  simp [join_cons]

theorem join_cons_ne {row : TextRow} (hrow : row.IsRow) {rows : List TextRow} {last text : String}
    (htext : IsUnbroken text) : join (row :: rows) ++ last ≠ text := by
  intro h
  have hlist := congrArg String.toList h
  rw [toList_join_cons, ← List.append_nil text.toList] at hlist
  have hnil := (eq_of_append_break hlist (isLineBreak_eq_false hrow.text)
    (isLineBreak_eq_false htext) (head_ending hrow _) (by simp)).2
  rcases hrow.ending with hending | hending | hending <;> simp [hending] at hnil

/-- A text falls into rows whose line ends do not run together in one way only. -/
theorem eq_of_join_append {rows rows' : List TextRow} {last last' : String}
    (hrows : ∀ row ∈ rows, row.IsRow) (hrows' : ∀ row ∈ rows', row.IsRow)
    (hlast : IsUnbroken last) (hlast' : IsUnbroken last') (hapart : rows.IsChain Apart)
    (hapart' : rows'.IsChain Apart) (h : join rows ++ last = join rows' ++ last') :
    rows = rows' ∧ last = last' := by
  induction rows generalizing rows' with
  | nil =>
      cases rows' with
      | nil => exact ⟨rfl, by simpa [join] using h⟩
      | cons row' rows' =>
          rw [join, List.map_nil, String.join_nil, String.empty_append] at h
          exact absurd h.symm (join_cons_ne (hrows' row' (by simp)) hlast)
  | cons row rows ih =>
      cases rows' with
      | nil =>
          rw [join, join, List.map_nil, String.join_nil, String.empty_append] at h
          exact absurd h (join_cons_ne (hrows row (by simp)) hlast')
      | cons row' rows' =>
          obtain ⟨hrow, hrows⟩ := List.forall_mem_cons.mp hrows
          obtain ⟨hrow', hrows'⟩ := List.forall_mem_cons.mp hrows'
          have hlist := congrArg String.toList h
          rw [toList_join_cons, toList_join_cons] at hlist
          obtain ⟨htext, hlist⟩ := eq_of_append_break hlist (isLineBreak_eq_false hrow.text)
            (isLineBreak_eq_false hrow'.text) (head_ending hrow _) (head_ending hrow' _)
          obtain ⟨hending, hlist⟩ := eq_of_ending_append hrow hrow' hlist
            (head_ne_lineFeed hrows hlast hapart) (head_ne_lineFeed hrows' hlast' hapart')
          obtain ⟨rfl, rfl⟩ := ih hrows hrows' hapart.tail hapart'.tail
            (String.toList_inj.mp hlist)
          obtain ⟨text, ending⟩ := row
          obtain ⟨text', ending'⟩ := row'
          obtain rfl := String.toList_inj.mp htext
          obtain rfl : ending = ending' := hending
          exact ⟨rfl, rfl⟩

end TextRow

namespace Row

def toText (row : Row) : TextRow :=
  ⟨String.ofList (text (Phrase.allLexemes row.phrases)), String.ofList row.ending⟩

theorem isUnbroken_text {ps : List Phrase} (h : Phrase.IsLine ps) :
    TextRow.IsUnbroken (String.ofList (text (Phrase.allLexemes ps))) :=
  TextRow.isUnbroken_ofList (Phrase.isLineBreak_eq_false h)

theorem isRow_toText {row : Row} (h : row.IsRow) : row.toText.IsRow :=
  TextRow.isRow_ofList (Phrase.isLineBreak_eq_false h.line) h.ending

theorem apart_toText_iff {row next : Row} (h : next.IsRow) :
    TextRow.Apart row.toText next.toText ↔ Apart row next := by
  have hending (row : Row) (s : String) : row.toText.ending = s ↔ row.ending = s.toList := by
    rw [← String.toList_inj, toText, String.toList_ofList]
  have htext : next.toText.text = "" ↔ next.phrases = [] := by
    rw [← String.toList_inj, toText, String.toList_ofList]
    constructor
    · exact h.line.eq_nil_of_text
    · intro hnil
      rw [hnil]
      rfl
  rw [TextRow.Apart, hending, htext, hending, Apart, not_and, not_and]
  rfl

theorem isChain_toText_iff {rows : List Row} (h : ∀ row ∈ rows, row.IsRow) :
    (rows.map toText).IsChain TextRow.Apart ↔ rows.IsChain Apart := by
  induction rows with
  | nil => simp
  | cons row rows ih =>
      obtain ⟨-, hrows⟩ := List.forall_mem_cons.mp h
      rw [List.map_cons, List.isChain_cons, List.isChain_cons, ih hrows]
      refine and_congr_left fun _ => ?_
      cases rows with
      | nil => simp
      | cons next rows => simpa using apart_toText_iff (hrows next (by simp))

theorem join_toText (rows : List Row) :
    TextRow.join (rows.map toText) = String.ofList (text (allLexemes rows)) := by
  induction rows with
  | nil => rfl
  | cons row rows ih =>
      rw [List.map_cons, TextRow.join_cons, ih, allLexemes_cons, lexemes, toText]
      simp

end Row

end NcProgram
