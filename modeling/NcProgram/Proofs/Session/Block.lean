import NcProgram.Proofs.Session
import NcProgram.Proofs.Text.Lines
import NcProgram.Session.Buffer

namespace NcProgram.Session

/-- A line of a block without the backslash that may be typed behind it. -/
structure BlockLine where
  text : String
  continued : Bool

namespace BlockLine

def typed (l : BlockLine) : List Char :=
  l.text.toList ++ if l.continued then ['\\'] else []

/-- The line is typed, and then the enter key is pressed. -/
def keys (l : BlockLine) : List Key :=
  [.insert (String.ofList l.typed), .enter]

end BlockLine

/-- A line that shows something, and that holds nothing but what is read of it. -/
structure IsPlainLine (text : String) : Prop where
  shown : Text.trim text ≠ ""
  feed : '\n' ∉ text.toList
  backslash : '\\' ∉ text.toList
  visible : ∀ c ∈ text.toList, isInvisible c = false

instance (text : String) : Decidable (IsPlainLine text) :=
  decidable_of_iff (Text.trim text ≠ "" ∧ '\n' ∉ text.toList ∧ '\\' ∉ text.toList ∧
      text.toList.all (!isInvisible ·) = true)
    ⟨fun ⟨hshown, hfeed, hbackslash, hvisible⟩ =>
      ⟨hshown, hfeed, hbackslash, by simpa using hvisible⟩,
      fun h => ⟨h.shown, h.feed, h.backslash, by simpa using h.visible⟩⟩

theorem IsPlainLine.find?_ne_none {text : String} (h : IsPlainLine text) :
    text.toList.find? (!Text.isBlank ·) ≠ none := by
  intro hnone
  rw [← Text.head?_trimChars, List.head?_eq_none_iff] at hnone
  exact h.shown (congrArg String.ofList hnone)

namespace BlockLine

variable {l : BlockLine}

theorem feed_not_mem_typed (h : IsPlainLine l.text) : '\n' ∉ l.typed := by
  rw [typed, List.mem_append]
  rintro (hmem | hmem)
  · exact h.feed hmem
  · split at hmem <;> simp at hmem

theorem feed_not_mem_of_mem_map {lines : List BlockLine} (h : ∀ l ∈ lines, IsPlainLine l.text) :
    ∀ cs ∈ lines.map typed, '\n' ∉ cs := by
  intro cs hcs
  obtain ⟨l, hl, rfl⟩ := List.mem_map.mp hcs
  exact feed_not_mem_typed (h l hl)

theorem typed_not_blank (h : IsPlainLine l.text) : ¬ l.typed.all Text.isBlank = true := by
  intro hblank
  rw [typed, List.all_append, Bool.and_eq_true, all_isBlank_iff] at hblank
  exact h.find?_ne_none hblank.1

theorem getLast?_typed (h : l.continued = true) : l.typed.getLast? = some '\\' := by
  rw [typed, h]
  exact List.getLast?_concat

end BlockLine

namespace Buffer

variable {b : Buffer}

/-- The buffer after keys in a row. -/
def pressAll (b : Buffer) (keys : List Key) : Buffer :=
  keys.foldl press b

theorem pressAll_append (b : Buffer) (front back : List Key) :
    b.pressAll (front ++ back) = (b.pressAll front).pressAll back :=
  List.foldl_append

theorem insert_text (h : b.text.length ≤ b.cursor) (cs : List Char) :
    (b.insert cs).text = b.text ++ cs := by
  simp [insert, List.take_of_length_le h, List.drop_of_length_le h]

theorem enter_of_shown_line {lines : List (List Char)} {line : List Char}
    (htext : b.text = lines.flatMap (· ++ ['\n']) ++ line)
    (hlines : ∀ l ∈ lines, '\n' ∉ l) (hline : '\n' ∉ line)
    (hshown : ¬ line.all Text.isBlank = true)
    (hmore : lines = [] → line.getLast? = some '\\') : b.enter = b.insert ['\n'] := by
  have hsplit : Text.splitLines b.text = lines ++ [line] := by
    rw [htext, Text.splitLines_flatMap_feed_append hlines, Text.splitLines_eq_self hline]
  have hlong : ¬ ((lines ++ [line]).length = 1 ∧ b.text.getLast? ≠ some '\\') := by
    rintro ⟨hlength, hlast⟩
    have hnil : lines = [] := List.eq_nil_of_length_eq_zero (by simpa using hlength)
    apply hlast
    rw [htext, hnil]
    exact hmore hnil
  rw [enter]
  simp only [hsplit]
  rw [if_neg hlong, List.getLastD_concat, if_neg hshown]

/-- The lines stand in the buffer, each ended by a line feed, and the cursor behind them. -/
structure HasTyped (b : Buffer) (lines : List BlockLine) : Prop where
  text : b.text = (lines.map BlockLine.typed).flatMap (· ++ ['\n'])
  cursor : b.text.length ≤ b.cursor

theorem HasTyped.line {lines : List BlockLine} {l : BlockLine} (h : b.HasTyped lines)
    (hplain : ∀ l' ∈ lines ++ [l], IsPlainLine l'.text)
    (hfirst : lines = [] → l.continued = true) :
    (b.pressAll l.keys).HasTyped (lines ++ [l]) ∧
      (b.pressAll l.keys).accepted = b.accepted := by
  have hl : IsPlainLine l.text := hplain l (by simp)
  have hlines : ∀ cs ∈ lines.map BlockLine.typed, '\n' ∉ cs :=
    BlockLine.feed_not_mem_of_mem_map fun l' hl' => hplain l' (List.mem_append_left _ hl')
  have htext : (b.insert l.typed).text =
      (lines.map BlockLine.typed).flatMap (· ++ ['\n']) ++ l.typed := by
    rw [insert_text h.cursor, h.text]
  have hcursor : (b.insert l.typed).text.length ≤ (b.insert l.typed).cursor := by
    have hcursor := h.cursor
    rw [insert_text h.cursor, List.length_append]
    exact Nat.add_le_add_right hcursor _
  have henter : (b.insert l.typed).enter = (b.insert l.typed).insert ['\n'] :=
    enter_of_shown_line htext hlines (BlockLine.feed_not_mem_typed hl)
      (BlockLine.typed_not_blank hl) fun hnil =>
        BlockLine.getLast?_typed (hfirst (List.map_eq_nil_iff.mp hnil))
  have hkeys : b.pressAll l.keys = (b.insert l.typed).insert ['\n'] := by
    rw [← henter]
    exact congrArg (fun cs => (b.insert cs).enter) String.toList_ofList
  rw [hkeys]
  refine ⟨⟨?_, ?_⟩, rfl⟩
  · rw [insert_text hcursor, htext]
    simp
  · rw [insert_text hcursor, List.length_append]
    exact Nat.add_le_add_right hcursor _

theorem HasTyped.lines {front lines : List BlockLine} (h : b.HasTyped front)
    (hplain : ∀ l ∈ front ++ lines, IsPlainLine l.text)
    (hfirst : ∀ l ∈ (front ++ lines).head?, l.continued = true) :
    (b.pressAll (lines.flatMap BlockLine.keys)).HasTyped (front ++ lines) ∧
      (b.pressAll (lines.flatMap BlockLine.keys)).accepted = b.accepted := by
  -- the lines typed so far are in front of those that are left
  induction lines generalizing b front with
  | nil =>
      rw [List.append_nil]
      exact ⟨h, rfl⟩
  | cons l lines ih =>
      rw [List.append_cons] at hplain hfirst ⊢
      have hfront : ∀ l' ∈ front ++ [l], IsPlainLine l'.text := fun l' hl' =>
        hplain l' (List.mem_append_left _ hl')
      obtain ⟨htyped, haccepted⟩ := h.line hfront fun hnil => hfirst l (by simp [hnil])
      obtain ⟨htyped, haccepted'⟩ := ih htyped hplain hfirst
      rw [List.flatMap_cons, pressAll_append]
      exact ⟨htyped, haccepted'.trans haccepted⟩

/-- The text is accepted at the last of the keys, and nothing before. -/
structure Accepts (b : Buffer) (keys : List Key) (text : String) : Prop where
  waits : ∀ front, front <+: keys → front ≠ keys → (b.pressAll front).accepted = b.accepted
  accepts : (b.pressAll keys).accepted = b.accepted ++ [text]

end Buffer

namespace BlockLine

variable {l : BlockLine}

end BlockLine

end NcProgram.Session
