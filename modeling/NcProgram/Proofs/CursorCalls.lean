import NcProgram.Token.Cursor

namespace NcProgram.Cursor

variable {source : List Char} {c d : Cursor}

/-- The cursor after calls in a row, whatever they answer. -/
def performAll (c : Cursor) (calls : List Call) : Cursor :=
  calls.foldl (fun c call => (c.perform call).2) c

/-- The second cursor comes from the first by setting marks, moving ahead and starting new lines. -/
inductive Reaches (c : Cursor) : Cursor → Prop where
  | stay : Reaches c c
  | mark {d : Cursor} : Reaches c d → Reaches c d.marked
  | move {d : Cursor} (n : Nat) : Reaches c d → Reaches c (d.move n)
  | lineFeed {d : Cursor} : Reaches c d → Reaches c d.lineFeed

theorem Reaches.trans {e : Cursor} (h : Reaches c d) (h' : Reaches d e) : Reaches c e := by
  induction h' with
  | stay => exact h
  | mark _ ih => exact ih.mark
  | move n _ ih => exact ih.move n
  | lineFeed _ ih => exact ih.lineFeed

theorem Reaches.take (h : Reaches c d) (kind : TokenKind) (n : Nat) :
    Reaches c (d.take kind n).2 := by
  unfold Cursor.take
  dsimp only
  split
  · exact (h.move n).lineFeed
  · exact h.move n

theorem reaches_takeDelimited {kind : TokenKind} {closer : Char} {complaint : Complaint}
    (c : Cursor) : Reaches c (answer c (c.takeDelimited kind closer complaint)).2 := by
  unfold takeDelimited
  split
  · exact Reaches.stay.take kind _
  · exact .stay

theorem reaches_scan (c : Cursor) : Reaches c (answer c.marked c.scan).2 := by
  unfold scan
  split
  next kind n hn => exact Reaches.stay.mark.take kind n
  next => exact .mark .stay

theorem reaches_perform (c : Cursor) (call : Call) : Reaches c (c.perform call).2 := by
  cases call with
  | peek distance => exact .stay
  | advance count =>
      rw [perform]
      split
      · exact .stay
      · exact .move _ .stay
  | mark => exact .mark .stay
  | make kind text => exact .stay
  | scan => exact reaches_scan c
  | newline | whitespace | comment => exact Reaches.stay.take _ _
  | inlineComment | string => exact reaches_takeDelimited c
  | delimited closer =>
      rw [perform]
      split
      · exact .move _ .stay
      · exact .stay
  | run kind accept => exact .move _ .stay
  | mistake text => exact .stay

theorem reaches_performAll (c : Cursor) (calls : List Call) : Reaches c (c.performAll calls) := by
  induction calls generalizing c with
  | nil => exact .stay
  | cons call calls ih => exact (reaches_perform c call).trans (ih (c.perform call).2)

theorem text_move (n : Nat) (c : Cursor) : (c.move n).text = c.text := by
  simp [move, text]

theorem position_move (n : Nat) (c : Cursor) :
    (c.move n).position = c.position + (c.ahead.take n).length := by
  simp [move, position, Nat.add_comm]

theorem position_le_length_text (c : Cursor) : c.position ≤ c.text.length := by
  simp [text, position]

theorem take_position (c : Cursor) : c.text.take c.position = c.behind.reverse := by
  rw [text, position, ← List.length_reverse, List.take_left]

/-- The cursor stands in the text, with the byte offset of its place, and its mark has the byte
offset of a place that is no further on. -/
structure StandsIn (source : List Char) (c : Cursor) : Prop where
  text : c.text = source
  position_le : c.position ≤ source.length
  offset : c.offset = Text.utf8Length (source.take c.position)
  mark_le : c.mark.offset ≤ c.offset
  mark : ∃ j ≤ c.position, c.mark.offset = Text.utf8Length (source.take j)

theorem standsIn_ofText (source : List Char) : StandsIn source (ofText source) :=
  ⟨rfl, Nat.zero_le _, rfl, Nat.le_refl 0, 0, Nat.le_refl 0, rfl⟩

theorem StandsIn.marked (h : StandsIn source c) : StandsIn source c.marked :=
  ⟨h.text, h.position_le, h.offset, Nat.le_refl _, c.position, Nat.le_refl _, h.offset⟩

theorem StandsIn.move (h : StandsIn source c) (n : Nat) : StandsIn source (c.move n) := by
  have htext : (c.move n).text = source := (text_move n c).trans h.text
  have hposition : c.position ≤ (c.move n).position := by
    rw [position_move]
    exact Nat.le_add_right _ _
  have hbehind : c.offset = Text.utf8Length c.behind.reverse := by
    rw [h.offset, ← h.text, take_position]
  obtain ⟨j, hj, hmark⟩ := h.mark
  refine ⟨htext, ?_, ?_, ?_, j, Nat.le_trans hj hposition, hmark⟩
  · rw [← htext]
    exact position_le_length_text _
  · rw [← htext, take_position]
    simp [Cursor.move, hbehind]
  · exact Nat.le_trans h.mark_le (Nat.le_add_right _ _)

theorem StandsIn.lineFeed (h : StandsIn source c) : StandsIn source c.lineFeed :=
  ⟨h.text, h.position_le, h.offset, h.mark_le, h.mark⟩

theorem StandsIn.of_reaches (h : StandsIn source c) (hd : Reaches c d) : StandsIn source d := by
  induction hd with
  | stay => exact h
  | mark _ ih => exact ih.marked
  | move n _ ih => exact ih.move n
  | lineFeed _ ih => exact ih.lineFeed

theorem Reaches.position_le (h : Reaches c d) : c.position ≤ d.position := by
  induction h with
  | stay => exact Nat.le_refl _
  | mark _ ih => exact ih
  | move n _ ih =>
      rw [position_move]
      exact Nat.le_trans ih (Nat.le_add_right _ _)
  | lineFeed _ ih => exact ih

/-- The place of the second cursor is that of the first, wherever their marks are. -/
structure IsSamePlace (c d : Cursor) : Prop where
  position : d.position = c.position
  offset : d.offset = c.offset
  line : d.line = c.line
  column : d.column = c.column

theorem IsSamePlace.of_eq (h : d = c) : IsSamePlace c d :=
  h ▸ ⟨rfl, rfl, rfl, rfl⟩

theorem answer_of_error {result : Except ProgramError (Token × Cursor)} {f : Fault}
    (h : (answer d result).1 = .error f) : (answer d result).2 = d := by
  cases result with
  | error e => rfl
  | ok result => cases h

theorem isSamePlace_of_error {call : Call} {f : Fault} (h : (c.perform call).1 = .error f) :
    IsSamePlace c (c.perform call).2 := by
  cases call with
  | peek distance => exact .of_eq rfl
  | advance count =>
      rw [perform] at h ⊢
      split at h
      next hcount =>
        rw [if_pos hcount]
        exact .of_eq rfl
      next => cases h
  | mark | make kind text | run kind accept | mistake text => cases h
  | newline | whitespace | comment => cases h
  | scan =>
      have hplace : (c.perform .scan).2 = c.marked := answer_of_error h
      rw [hplace]
      exact ⟨rfl, rfl, rfl, rfl⟩
  | inlineComment | string => exact .of_eq (answer_of_error h)
  | delimited closer =>
      rw [perform] at h
      split at h
      · cases h
      · cases h

/-- The call leaves the cursor in its text and takes it forward, or fails and leaves its place. -/
structure Serves (source : List Char) (c : Cursor) (call : Call) : Prop where
  stands : StandsIn source (c.perform call).2
  forward : c.position ≤ (c.perform call).2.position
  atomic : ∀ f, (c.perform call).1 = .error f → IsSamePlace c (c.perform call).2

/-- After any calls a cursor stands at a boundary of its text, with the byte offset of that place,
and every further call leaves it so. -/
theorem calls_keep_offsets (source : String) (calls : List Call) :
    StandsIn source.toList ((ofText source.toList).performAll calls) ∧
      ∀ call, Serves source.toList ((ofText source.toList).performAll calls) call := by
  have hstands := (standsIn_ofText source.toList).of_reaches (reaches_performAll _ calls)
  refine ⟨hstands, fun call => ?_⟩
  have hreaches := reaches_perform ((ofText source.toList).performAll calls) call
  exact ⟨hstands.of_reaches hreaches, hreaches.position_le, fun _ => isSamePlace_of_error⟩

end NcProgram.Cursor
