import NcProgram.Fault

/-!
Lexemes: how far the first token of a text reaches, and of which class it is. The first character
decides the class; runs take as much as they can, and delimited texts end at their closing
character on the same line.
-/

namespace NcProgram.Lexeme

/-- Either of the characters that end a line. -/
def isLineBreak (c : Char) : Bool :=
  c = '\n' || c = '\r'

/-- The blanks that may stand inside a line. -/
def isSpace (c : Char) : Bool :=
  c = ' ' || c = '\t'

/-- The length of the line end that a text starts with: a return and a line feed belong
together. -/
def newlineLength : List Char → Nat
  | '\r' :: '\n' :: _ => 2
  | _ => 1

/-- The length of the longest start of a text whose characters are all accepted. -/
def runLength (accept : Char → Bool) (cs : List Char) : Nat :=
  (cs.takeWhile accept).length

/-- The length of a text from its first character up to the given closing one. There is none if
the line ends before it. -/
def delimitedLength? (closer : Char) : List Char → Option Nat
  | [] => none
  | _ :: cs =>
    let inner := runLength (fun c => c ≠ closer && !isLineBreak c) cs
    if (cs.drop inner).head? = some closer then some (inner + 2) else none

/-- The class of a character that is a token by itself. -/
def punctuation? : Char → Option TokenKind
  | '.' => some .dot
  | '*' => some .star
  | '-' => some .minus
  | '%' => some .percent
  | _ => none

/-- The class and the length of the lexeme that a text starts with. Where no character is left, the
null character stands for it. -/
def first : List Char → Except Complaint (TokenKind × Nat)
  | [] => .error (.unexpectedCharacter '\x00')
  | c :: cs =>
    if isLineBreak c then .ok (.newline, newlineLength (c :: cs))
    else if isSpace c then .ok (.whitespace, runLength isSpace (c :: cs))
    else if c = ';' then .ok (.comment, runLength (!isLineBreak ·) (c :: cs))
    else if c = '(' then
      match delimitedLength? ')' (c :: cs) with
      | some n => .ok (.inlineComment, n)
      | none => .error .unterminatedInlineComment
    else if c = '"' then
      match delimitedLength? '"' (c :: cs) with
      | some n => .ok (.string, n)
      | none => .error .unterminatedString
    else if c.isDigit then .ok (.integer, runLength Char.isDigit (c :: cs))
    else if c.isAlpha then .ok (.letters, runLength Char.isAlpha (c :: cs))
    else
      match punctuation? c with
      | some kind => .ok (kind, 1)
      | none => .error (.unexpectedCharacter c)

theorem newlineLength_pos (cs : List Char) : 0 < newlineLength cs := by
  unfold newlineLength
  split <;> decide

theorem runLength_cons_pos {accept : Char → Bool} {c : Char} (h : accept c) (cs : List Char) :
    0 < runLength accept (c :: cs) := by
  simp [runLength, h]

theorem delimitedLength?_pos {closer : Char} {cs : List Char} {n : Nat}
    (h : delimitedLength? closer cs = some n) : 0 < n := by
  cases cs with
  | nil => simp [delimitedLength?] at h
  | cons c cs =>
      simp only [delimitedLength?, Option.ite_none_right_eq_some, Option.some.injEq] at h
      omega

theorem first_pos {cs : List Char} {kind : TokenKind} {n : Nat}
    (h : first cs = .ok (kind, n)) : 0 < n := by
  cases cs with
  | nil => simp [first] at h
  | cons c cs =>
      simp only [first] at h
      split at h
      · obtain ⟨_, rfl⟩ := by simpa using h
        exact newlineLength_pos _
      split at h
      next hc =>
        obtain ⟨_, rfl⟩ := by simpa using h
        exact runLength_cons_pos hc cs
      split at h
      next hc =>
        obtain ⟨_, rfl⟩ := by simpa using h
        exact runLength_cons_pos (by subst hc; decide) cs
      split at h
      · split at h
        next hn =>
          obtain ⟨_, rfl⟩ := by simpa using h
          exact delimitedLength?_pos hn
        · simp at h
      split at h
      · split at h
        next hn =>
          obtain ⟨_, rfl⟩ := by simpa using h
          exact delimitedLength?_pos hn
        · simp at h
      split at h
      next hc =>
        obtain ⟨_, rfl⟩ := by simpa using h
        exact runLength_cons_pos hc cs
      split at h
      next hc =>
        obtain ⟨_, rfl⟩ := by simpa using h
        exact runLength_cons_pos hc cs
      split at h
      · obtain ⟨_, rfl⟩ := by simpa using h
        decide
      · simp at h

end NcProgram.Lexeme
