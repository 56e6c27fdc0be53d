import NcProgram.Proofs.Excerpt
import NcProgram.Proofs.TextRow

/-!
The line at an offset. Every offset of a text lies in one of its physical lines, and the line there is
told with its number and its bounds, unless the offset cuts the line's terminator in two.
-/

namespace NcProgram

open Lexeme

namespace Text

theorem splitAtByte_of_le {n : Nat} {cs : List Char} (h : n ≤ utf8Length cs) (ds : List Char) :
    splitAtByte n (cs ++ ds) = ((splitAtByte n cs).1, (splitAtByte n cs).2 ++ ds) := by
  induction cs generalizing n with
  | nil =>
      obtain rfl : n = 0 := Nat.le_zero.mp h
      exact splitAtByte_utf8Length_append [] ds
  | cons c cs ih =>
      rw [List.cons_append, splitAtByte, splitAtByte]
      split
      next hc =>
        rw [utf8Length_cons] at h
        rw [ih (by omega)]
      next => rfl

theorem splitAtByte_of_ge {n : Nat} {cs : List Char} (h : utf8Length cs ≤ n) (ds : List Char) :
    splitAtByte n (cs ++ ds) =
      (cs ++ (splitAtByte (n - utf8Length cs) ds).1, (splitAtByte (n - utf8Length cs) ds).2) := by
  induction cs generalizing n with
  | nil => rfl
  | cons c cs ih =>
      rw [utf8Length_cons] at h
      rw [List.cons_append, splitAtByte, if_pos (by omega), ih (by omega), utf8Length_cons,
        Nat.sub_add_eq]
      rfl

theorem splitAtByte_min (n : Nat) (cs : List Char) :
    splitAtByte (min n (utf8Length cs)) cs = splitAtByte n cs := by
  by_cases h : n ≤ utf8Length cs
  · rw [Nat.min_eq_left h]
  · have hge := Nat.le_of_not_le h
    have hall := splitAtByte_of_ge hge []
    have hend := splitAtByte_utf8Length_append cs []
    rw [List.append_nil] at hall hend
    rw [Nat.min_eq_right hge, hall, hend]
    simp [splitAtByte]

end Text

/-- The line at an offset depends only on the characters that lie wholly in front of it. -/
theorem LineBounds.ofOffset_of_splitAtByte {source before after : List Char} {p : Int}
    (h : Text.splitAtByte p.toNat source = (before, after)) :
    ofOffset source p = ofOffset (before ++ after) (Text.utf8Length before) := by
  rw [ofOffset, h, ofOffset, Int.toNat_natCast, Text.splitAtByte_utf8Length_append]

namespace TextRow

/-- The physical lines of a text, each with its terminator. The last one has none. -/
structure AreLinesOf (lines : List TextRow) (source : String) : Prop where
  last : ∃ rows last, lines = rows ++ [⟨last, ""⟩] ∧ IsUnbroken last ∧ ∀ row ∈ rows, row.IsRow
  apart : lines.IsChain Apart
  text : join lines = source

/-- The line holds the byte. The end of the text belongs to the last line. -/
def Holds (lines : List TextRow) (i q : Nat) : Prop :=
  offset lines i ≤ q ∧ (q < offset lines (i + 1) ∨ i + 1 = lines.length ∧ q = offset lines (i + 1))

/-- The line ends with a return and a line feed, and the byte is the line feed. -/
def IsCutAt (lines : List TextRow) (i q : Nat) : Prop :=
  ∃ row, lines[i]? = some row ∧ row.ending = "\r\n" ∧
    q = offset lines i + Text.utf8Length row.text.toList + 1

/-- The byte that an offset stands for: one before the text is its start, one behind it its end. -/
def byteAt (source : String) (p : Int) : Nat :=
  min p.toNat (Text.utf8Length source.toList)

/-- Every offset lies in exactly one of the lines and is told the number and the bounds of that one,
its terminator left out. Only the line feed behind a return is told the next number and an empty
line there. Where this does not happen, lines have the same number just when they have the same
bounds. -/
structure AreTold (lines : List TextRow) (source : String) : Prop where
  held : ∀ p : Int, ∃! i, Holds lines i (byteAt source p)
  bounds : ∀ (p : Int) i row, lines[i]? = some row → Holds lines i (byteAt source p) →
    ¬ IsCutAt lines i (byteAt source p) → LineBounds.ofOffset source.toList p =
      ⟨i + 1, offset lines i, offset lines i + Text.utf8Length row.text.toList⟩
  cut : ∀ (p : Int) i, IsCutAt lines i (byteAt source p) →
    LineBounds.ofOffset source.toList p = ⟨i + 2, byteAt source p, byteAt source p⟩
  number_iff : ∀ p p' : Int, (∀ i, ¬ IsCutAt lines i (byteAt source p)) →
    (∀ i, ¬ IsCutAt lines i (byteAt source p')) →
    let bounds := LineBounds.ofOffset source.toList p
    let bounds' := LineBounds.ofOffset source.toList p'
    (bounds.number = bounds'.number ↔ bounds.start = bounds'.start ∧ bounds.stop = bounds'.stop)

theorem splitAtByte_byteAt (source : String) (p : Int) :
    Text.splitAtByte (byteAt source p) source.toList = Text.splitAtByte p.toNat source.toList :=
  Text.splitAtByte_min p.toNat source.toList

theorem join_append (lines lines' : List TextRow) :
    join (lines ++ lines') = join lines ++ join lines' := by
  rw [join, List.map_append, String.join_append, join, join]

theorem join_concat_last (rows : List TextRow) (last : String) :
    join (rows ++ [⟨last, ""⟩]) = join rows ++ last := by
  rw [join_append, join_cons]
  simp [join]

theorem toList_join_append_cons (front : List TextRow) (row : TextRow) (back : List TextRow) :
    (join (front ++ row :: back)).toList = (join front).toList ++
      (row.text.toList ++ (row.ending.toList ++ (join back).toList)) := by
  simp [join_append, join_cons]

variable {lines front back : List TextRow} {row : TextRow} {source : String}

theorem IsRow.ending_eq_return (h : row.IsRow) (cs : List Char)
    (hreturn : (cs ++ row.ending.toList).getLast? = some '\r') : row.ending = "\r" := by
  rcases h.ending with hending | hending | hending
  · simp [hending] at hreturn
  · simp [hending] at hreturn
  · exact hending

theorem IsRow.isLineBreak_getLast? (h : row.IsRow) (cs : List Char) :
    ∀ c ∈ (cs ++ row.ending.toList).getLast?, isLineBreak c = true := by
  rcases h.ending with hending | hending | hending
  all_goals
    rintro c hc
    simp only [hending] at hc
    simp at hc
    subst hc
    rfl

theorem lineEnds_row (h : row.IsRow) :
    Text.lineEnds (row.text.toList ++ row.ending.toList) = 1 := by
  have hunbroken := isLineBreak_eq_false h.text
  rw [Text.lineEnds_append, Text.lineEnds_of_unbroken hunbroken]
  · rcases h.ending with hending | hending | hending <;> rw [hending] <;> rfl
  · intro hlast
    simpa [isLineBreak] using hunbroken '\r' (List.mem_of_getLast? hlast)

theorem lineEnds_join {rows : List TextRow} (hrows : ∀ row ∈ rows, row.IsRow)
    (hapart : rows.IsChain Apart) : Text.lineEnds (join rows).toList = rows.length := by
  induction rows with
  | nil => rfl
  | cons row rows ih =>
      obtain ⟨hrow, hrest⟩ := List.forall_mem_cons.mp hrows
      have happend : (join (row :: rows)).toList =
          row.text.toList ++ row.ending.toList ++ (join rows).toList := by
        simp [join_cons]
      rw [happend, Text.lineEnds_append, lineEnds_row hrow, ih hrest hapart.tail, List.length_cons,
        Nat.add_comm]
      intro hreturn
      have hhead : (join rows ++ "").toList.head? ≠ some '\n' :=
        head_ne_lineFeed hrest nofun hapart (hrow.ending_eq_return _ hreturn)
      rwa [String.append_empty] at hhead

namespace AreLinesOf

theorem isRow (h : AreLinesOf (front ++ row :: back) source) :
    (∀ r ∈ front, r.IsRow) ∧ IsUnbroken row.text ∧
      (row.IsRow ∧ back ≠ [] ∨ row.ending = "" ∧ back = []) := by
  obtain ⟨rows, last, hlines, hlast, hrows⟩ := h.last
  rcases List.eq_nil_or_concat' back with rfl | ⟨middle, final, rfl⟩
  · obtain ⟨rfl, hrow⟩ := List.append_inj' hlines rfl
    obtain rfl := List.singleton_inj.mp hrow
    exact ⟨hrows, hlast, .inr ⟨rfl, rfl⟩⟩
  · rw [← List.cons_append, ← List.append_assoc] at hlines
    obtain ⟨rfl, -⟩ := List.append_inj' hlines rfl
    have hrow := hrows row (by simp)
    exact ⟨fun r hr => hrows r (by simp [hr]), hrow.text, .inl ⟨hrow, by simp⟩⟩

theorem toList_eq (h : AreLinesOf (front ++ row :: back) source) : source.toList =
    (join front).toList ++ (row.text.toList ++ (row.ending.toList ++ (join back).toList)) := by
  rw [← h.text, toList_join_append_cons]

theorem whole (h : AreLinesOf (front ++ back) source)
    (hreturn : (TextRow.join front).toList.getLast? = some '\r') :
    (TextRow.join back).toList.head? ≠ some '\n' := by
  rcases List.eq_nil_or_concat' front with rfl | ⟨above, row, rfl⟩
  · cases hreturn
  obtain ⟨rows, last, hlines, hlast, hrows⟩ := h.last
  rcases List.eq_nil_or_concat' back with rfl | ⟨below, final, rfl⟩
  · simp [join]
  · rw [← List.append_assoc] at hlines
    obtain ⟨rfl, hfinal⟩ := List.append_inj' hlines rfl
    obtain rfl := List.singleton_inj.mp hfinal
    have hending : row.ending = "\r" := by
      apply (hrows row (by simp)).ending_eq_return ((join above).toList ++ row.text.toList)
      rw [← hreturn, toList_join_append_cons]
      simp [join]
    have hapart : (row :: below).IsChain Apart :=
      h.apart.infix ⟨above, [⟨last, ""⟩], by simp⟩
    rw [join_concat_last]
    exact head_ne_lineFeed (fun r hr => hrows r (by simp [hr])) hlast hapart hending

theorem lineEnds_eq (h : AreLinesOf (front ++ row :: back) source) :
    Text.lineEnds (join front).toList = front.length :=
  lineEnds_join h.isRow.1 h.apart.left_of_append

theorem isLine (h : AreLinesOf (front ++ row :: back) source) {before after : List Char}
    (htext : before ++ after = row.text.toList) :
    (Excerpt.mk (join front).toList before [] after
      (row.ending.toList ++ (join back).toList)).IsLine := by
  obtain ⟨hfront, hunbroken, hending⟩ := h.isRow
  refine ⟨?_, ?_, ?_, ?_⟩
  · simp only [Excerpt.row, List.append_nil, htext]
    exact isLineBreak_eq_false hunbroken
  · rcases List.eq_nil_or_concat' front with rfl | ⟨above, row', rfl⟩
    · intro c hc
      cases hc
    · have hlast := (hfront row' (by simp)).isLineBreak_getLast?
        ((join above).toList ++ row'.text.toList)
      rw [toList_join_append_cons]
      simpa [join] using hlast
  · rcases hending with ⟨hrow, -⟩ | ⟨hempty, rfl⟩
    · exact head_ending hrow _
    · simp [hempty, join]
  · intro hreturn
    have hwhole := h.whole hreturn
    simpa [Excerpt.row, htext, join_cons] using hwhole

theorem ofOffset_of_le (h : AreLinesOf (front ++ row :: back) source) {p : Int}
    (hstart : Text.utf8Length (join front).toList ≤ byteAt source p)
    (hstop : byteAt source p ≤
      Text.utf8Length (join front).toList + Text.utf8Length row.text.toList) :
    LineBounds.ofOffset source.toList p = ⟨front.length + 1, Text.utf8Length (join front).toList,
      Text.utf8Length (join front).toList + Text.utf8Length row.text.toList⟩ := by
  obtain ⟨before, after, hsplit⟩ : ∃ before after, Text.splitAtByte
      (byteAt source p - Text.utf8Length (join front).toList) row.text.toList = (before, after) :=
    ⟨_, _, rfl⟩
  have htext : before ++ after = row.text.toList := by
    have happend := Text.splitAtByte_append
      (byteAt source p - Text.utf8Length (join front).toList) row.text.toList
    rwa [hsplit] at happend
  have hline := h.isLine htext
  have hcut : Text.splitAtByte p.toNat source.toList = ((join front).toList ++ before,
      after ++ (row.ending.toList ++ (join back).toList)) := by
    rw [← splitAtByte_byteAt, h.toList_eq, Text.splitAtByte_of_ge hstart,
      Text.splitAtByte_of_le (by omega), hsplit]
  have hbounds := Excerpt.bounds_eq hline
  simp only [Excerpt.text, Excerpt.row, Excerpt.number, List.append_nil, htext, h.lineEnds_eq,
    Text.utf8Length_append] at hbounds
  rw [LineBounds.ofOffset_of_splitAtByte hcut, ← hbounds, ← htext]
  simp

/-- Between a return and its line feed, the next number and an empty line are told. -/
theorem ofOffset_of_cut (h : AreLinesOf (front ++ row :: back) source)
    (hending : row.ending = "\r\n") {p : Int} (hp : byteAt source p =
      Text.utf8Length (join front).toList + Text.utf8Length row.text.toList + 1) :
    LineBounds.ofOffset source.toList p =
      ⟨front.length + 2, byteAt source p, byteAt source p⟩ := by
  let before := (join front).toList ++ (row.text.toList ++ ['\r'])
  have hsource : source.toList = before ++ '\n' :: (join back).toList := by
    rw [h.toList_eq, hending]
    simp [before]
  have hbyte : byteAt source p = Text.utf8Length before := by
    rw [hp]
    simp [before, Nat.add_assoc, Char.utf8Size]
  have hcut : Text.splitAtByte p.toNat source.toList = (before, '\n' :: (join back).toList) := by
    rw [← splitAtByte_byteAt, hbyte, hsource, Text.splitAtByte_utf8Length_append]
  have hlines : Text.lineEnds before = front.length + 1 := by
    have hrow : (TextRow.mk row.text "\r").IsRow := ⟨h.isRow.2.1, .inr (.inr rfl)⟩
    have hends : Text.lineEnds (row.text.toList ++ ['\r']) = 1 := by simpa using lineEnds_row hrow
    rw [Text.lineEnds_append, h.lineEnds_eq, hends]
    intro hreturn
    have hwhole := h.whole hreturn
    rw [join_cons, hending] at hwhole
    cases htext : row.text.toList with
    | nil => simp
    | cons c cs => simpa [htext] using hwhole
  have hupper : Text.upperRows before = before := by
    have hconcat : before = ((join front).toList ++ row.text.toList) ++ ['\r'] := by
      simp [before]
    rw [hconcat, Text.upperRows_concat]
    rfl
  rw [LineBounds.ofOffset_of_splitAtByte hcut, LineBounds.ofOffset_utf8Length, hlines, hupper, hbyte]
  simp [isLineBreak, Nat.add_left_comm]

end AreLinesOf

theorem AreLinesOf.cons (h : AreLinesOf lines source) (hrow : row.IsRow)
    (hapart : row.ending = "\r" → source.toList.head? ≠ some '\n') :
    AreLinesOf (row :: lines) (row.text ++ (row.ending ++ source)) := by
  obtain ⟨rows, last, hlines, hlast, hrows⟩ := h.last
  refine ⟨⟨row :: rows, last, congrArg _ hlines, hlast, List.forall_mem_cons.mpr ⟨hrow, hrows⟩⟩, ?_,
    by rw [join_cons, h.text]⟩
  rw [List.isChain_cons]
  refine ⟨?_, h.apart⟩
  rintro next hnext ⟨hreturn, htext, hfeed⟩
  obtain ⟨rest, rfl⟩ := List.head?_eq_some_iff.mp hnext
  apply hapart hreturn
  rw [← h.text, join_cons, htext, hfeed]
  simp

theorem exists_areLinesOf (source : String) : ∃ lines, AreLinesOf lines source := by
  obtain ⟨cs, rfl⟩ : ∃ cs, String.ofList cs = source := ⟨_, String.ofList_toList⟩
  induction hn : cs.length using Nat.strong_induction_on generalizing cs with
  | h n ih =>
      obtain ⟨run, rest, rfl, -, hrun, hrest⟩ := exists_of_runLength (!isLineBreak ·) cs
      have hrun : ∀ c ∈ run, isLineBreak c = false := fun c hc => by simpa using hrun c hc
      cases rest with
      | nil =>
          rw [List.append_nil]
          exact ⟨[⟨String.ofList run, ""⟩], ⟨[], _, rfl, isUnbroken_ofList hrun, nofun⟩, .singleton _,
            by simp [join]⟩
      | cons c rest =>
          obtain ⟨ending, below, heq, -, hshape, hstops⟩ :=
            exists_of_newlineLength (c := c) (by simpa using hrest c rfl) rest
          rw [heq] at hn ⊢
          have hpos := List.length_pos_iff.mpr hshape.ne_nil
          obtain ⟨lines, hlines⟩ := ih below.length (by simp at hn; omega) below rfl
          have hcons := hlines.cons (isRow_ofList hrun hshape) fun hreturn => by
            rw [String.toList_ofList]
            exact hstops (by simpa using congrArg String.toList hreturn)
          rw [String.ofList_append, String.ofList_append]
          exact ⟨_, hcons⟩

theorem offset_append (front back : List TextRow) :
    offset (front ++ back) front.length = Text.utf8Length (join front).toList := by
  rw [offset, List.take_left]

theorem offset_succ (lines : List TextRow) (i : Nat) :
    offset lines (i + 1) = offset lines i + Text.utf8Length (join lines[i]?.toList).toList := by
  rw [offset, List.take_add_one, join_append, String.toList_append, Text.utf8Length_append, offset]

theorem offset_mono (lines : List TextRow) : Monotone (offset lines) :=
  monotone_nat_of_le_succ fun i => by
    rw [offset_succ]
    exact Nat.le_add_right _ _

theorem offset_length (lines : List TextRow) :
    offset lines lines.length = Text.utf8Length (join lines).toList := by
  rw [offset, List.take_length]

theorem exists_split {i : Nat} (h : lines[i]? = some row) :
    ∃ front back, lines = front ++ row :: back ∧ front.length = i := by
  obtain ⟨hi, rfl⟩ := List.getElem?_eq_some_iff.mp h
  refine ⟨lines.take i, lines.drop (i + 1), ?_, List.length_take_of_le (Nat.le_of_lt hi)⟩
  rw [← List.drop_eq_getElem_cons hi, List.take_append_drop]

theorem exists_lt_offset {q n : Nat} (h : q < offset lines n) :
    ∃ i < n, offset lines i ≤ q ∧ q < offset lines (i + 1) := by
  induction n with
  | zero => simp [offset, join] at h
  | succ n ih =>
      by_cases hq : q < offset lines n
      · obtain ⟨i, hi, hholds⟩ := ih hq
        exact ⟨i, Nat.lt_succ_of_lt hi, hholds⟩
      · exact ⟨n, Nat.lt_succ_self n, Nat.le_of_not_lt hq, h⟩

theorem Holds.lt_length {i q : Nat} (h : Holds lines i q) : i < lines.length := by
  by_contra hi
  have hge := Nat.le_of_not_lt hi
  obtain ⟨hstart, hstop | ⟨hlength, -⟩⟩ := h
  · rw [offset, List.take_of_length_le hge] at hstart
    rw [offset, List.take_of_length_le (Nat.le_succ_of_le hge)] at hstop
    omega
  · omega

theorem Holds.unique {i j q : Nat} (hi : Holds lines i q) (hj : Holds lines j q) : i = j := by
  have hlt {i j : Nat} (hi : Holds lines i q) (hj : Holds lines j q) : ¬ i < j := by
    intro hij
    have hmono := offset_mono lines (Nat.succ_le_of_lt hij)
    have hlength := hj.lt_length
    have hstart := hj.1
    obtain ⟨-, hstop | ⟨hlast, -⟩⟩ := hi
    · exact absurd (Nat.le_trans hmono hstart) (Nat.not_le.mpr hstop)
    · omega
  have hij := hlt hi hj
  have hji := hlt hj hi
  omega

namespace AreLinesOf

theorem offset_length_eq (h : AreLinesOf lines source) :
    offset lines lines.length = Text.utf8Length source.toList := by
  rw [offset_length, h.text]

theorem exists_holds (h : AreLinesOf lines source) {q : Nat}
    (hq : q ≤ Text.utf8Length source.toList) : ∃ i, Holds lines i q := by
  rw [← h.offset_length_eq] at hq
  rcases Nat.lt_or_eq_of_le hq with hlt | rfl
  · obtain ⟨i, -, hstart, hstop⟩ := exists_lt_offset hlt
    exact ⟨i, hstart, .inl hstop⟩
  · obtain ⟨rows, last, rfl, -⟩ := h.last
    refine ⟨rows.length, offset_mono _ (by simp), .inr ⟨by simp, by simp⟩⟩

theorem offset_lt (h : AreLinesOf lines source) {i j : Nat} (hij : i < j) (hj : j < lines.length) :
    offset lines i < offset lines j := by
  obtain ⟨row, hrow⟩ : ∃ row, lines[i]? = some row :=
    ⟨_, List.getElem?_eq_getElem (Nat.lt_trans hij hj)⟩
  obtain ⟨front, back, rfl, hlength⟩ := exists_split hrow
  have hending : row.IsRow := by
    refine (h.isRow.2.2.resolve_right fun hlast => ?_).1
    simp [hlast.2] at hj
    omega
  have hsize : 0 < Text.utf8Length (join [row]).toList := by
    rcases hending.ending with hending | hending | hending <;>
      simp [join, hending, Char.utf8Size_pos]
  have hmono := offset_mono (front ++ row :: back) (Nat.succ_le_of_lt hij)
  have hnext := offset_succ (front ++ row :: back) i
  rw [hrow, Option.toList_some] at hnext
  rw [Nat.succ_eq_add_one] at hmono
  omega

theorem bounds_of_holds (h : AreLinesOf lines source) {p : Int} {i : Nat}
    (hrow : lines[i]? = some row) (hholds : Holds lines i (byteAt source p))
    (hcut : ¬ IsCutAt lines i (byteAt source p)) : LineBounds.ofOffset source.toList p =
      ⟨i + 1, offset lines i, offset lines i + Text.utf8Length row.text.toList⟩ := by
  obtain ⟨front, back, rfl, rfl⟩ := exists_split hrow
  have hnext : offset (front ++ row :: back) (front.length + 1) =
      offset (front ++ row :: back) front.length +
        (Text.utf8Length row.text.toList + Text.utf8Length row.ending.toList) := by
    rw [offset_succ, hrow]
    simp [join]
  have hcut : row.ending = "\r\n" → byteAt source p ≠
      offset (front ++ row :: back) front.length + Text.utf8Length row.text.toList + 1 :=
    fun hending heq => hcut ⟨row, hrow, hending, heq⟩
  obtain ⟨hstart, hstop⟩ := hholds
  rw [hnext] at hstop
  rw [offset_append] at hstart hstop hcut ⊢
  apply h.ofOffset_of_le hstart
  rcases h.isRow.2.2 with ⟨hisRow, hback⟩ | ⟨hempty, -⟩
  · have hlt := hstop.resolve_right fun hlast => hback (by simpa using hlast.1)
    rcases hisRow.ending with hending | hending | hending
    · have hsize : Text.utf8Length row.ending.toList = 2 := by rw [hending]; decide
      have hne := hcut hending
      omega
    · have hsize : Text.utf8Length row.ending.toList = 1 := by rw [hending]; decide
      omega
    · have hsize : Text.utf8Length row.ending.toList = 1 := by rw [hending]; decide
      omega
  · have hsize : Text.utf8Length row.ending.toList = 0 := by rw [hempty]; decide
    omega

theorem ofOffset_of_isCutAt (h : AreLinesOf lines source) {p : Int} {i : Nat}
    (hcut : IsCutAt lines i (byteAt source p)) :
    LineBounds.ofOffset source.toList p = ⟨i + 2, byteAt source p, byteAt source p⟩ := by
  obtain ⟨row, hrow, hending, hp⟩ := hcut
  obtain ⟨front, back, rfl, rfl⟩ := exists_split hrow
  rw [offset_append] at hp
  exact h.ofOffset_of_cut hending hp

theorem areTold (h : AreLinesOf lines source) : AreTold lines source := by
  have hholds (p : Int) : ∃ i, Holds lines i (byteAt source p) :=
    h.exists_holds (Nat.min_le_right _ _)
  have hbounds {p : Int} (hcut : ∀ i, ¬ IsCutAt lines i (byteAt source p)) : ∃ i row,
      lines[i]? = some row ∧ LineBounds.ofOffset source.toList p =
        ⟨i + 1, offset lines i, offset lines i + Text.utf8Length row.text.toList⟩ := by
    obtain ⟨i, hi⟩ := hholds p
    have hrow := List.getElem?_eq_getElem hi.lt_length
    exact ⟨i, _, hrow, h.bounds_of_holds hrow hi (hcut i)⟩
  refine ⟨fun p => ?_, fun p i row => h.bounds_of_holds, fun p i => h.ofOffset_of_isCutAt,
    fun p p' hcut hcut' => ?_⟩
  · obtain ⟨i, hi⟩ := hholds p
    exact ⟨i, hi, fun j hj => hj.unique hi⟩
  · obtain ⟨i, row, hrow, heq⟩ := hbounds hcut
    obtain ⟨j, row', hrow', heq'⟩ := hbounds hcut'
    have hlength {i : Nat} {row : TextRow} (hrow : lines[i]? = some row) : i < lines.length :=
      (List.getElem?_eq_some_iff.mp hrow).1
    simp only [heq, heq']
    constructor
    · intro hnumber
      obtain rfl : i = j := Nat.succ.inj hnumber
      obtain rfl := Option.some.inj (hrow.symm.trans hrow')
      exact ⟨rfl, rfl⟩
    · rintro ⟨hstart, -⟩
      rcases Nat.lt_trichotomy i j with hij | rfl | hij
      · exact absurd hstart (Nat.ne_of_lt (h.offset_lt hij (hlength hrow')))
      · rfl
      · exact absurd hstart.symm (Nat.ne_of_lt (h.offset_lt hij (hlength hrow)))

end AreLinesOf

end TextRow

open TextRow

/-- Whatever the text and the offset, the line that holds it is told with its number and its bounds,
except at the line feed behind a return. -/
theorem offsets_tell_lines (source : String) :
    (∃ lines, AreLinesOf lines source) ∧
      ∀ lines, AreLinesOf lines source → AreTold lines source :=
  ⟨exists_areLinesOf source, fun _ h => h.areTold⟩

theorem offsets_tell_lines_wide :
    let lines : List TextRow := [⟨"é", "\r\n"⟩, ⟨"", "\r"⟩, ⟨"b", ""⟩]
    AreLinesOf lines "é\r\n\rb" ∧ AreTold lines "é\r\n\rb" := by
  intro lines
  have hlines : AreLinesOf lines "é\r\n\rb" :=
    ⟨⟨[⟨"é", "\r\n"⟩, ⟨"", "\r"⟩], "b", rfl, by decide, by decide⟩, by decide, by decide⟩
  exact ⟨hlines, (offsets_tell_lines _).2 lines hlines⟩

/-- The line feed behind a return belongs to the line that it ends, but the next number is told there,
which is that of other bounds too. -/
theorem line_feed_behind_return :
    let lines : List TextRow := [⟨"a", "\r\n"⟩, ⟨"b", ""⟩]
    let source := "a\r\nb"
    AreLinesOf lines source ∧ Holds lines 0 (byteAt source 2) ∧
      LineBounds.ofOffset source.toList 2 ≠ ⟨1, 0, 1⟩ ∧
      (LineBounds.ofOffset source.toList 2).number =
        (LineBounds.ofOffset source.toList 3).number ∧
      (LineBounds.ofOffset source.toList 2).start ≠
        (LineBounds.ofOffset source.toList 3).start := by
  intro lines source
  have hlines : AreLinesOf lines source :=
    ⟨⟨[⟨"a", "\r\n"⟩], "b", rfl, by decide, by decide⟩, by decide, by decide⟩
  exact ⟨hlines, ⟨by decide, .inl (by decide)⟩, by decide, by decide, by decide⟩

end NcProgram
