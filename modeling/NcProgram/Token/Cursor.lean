import NcProgram.Index
import NcProgram.Token.Lexeme

namespace NcProgram

/-- Where a token starts: its byte offset, line and column. -/
structure Mark where
  offset : Nat
  line : Nat
  column : Nat
  deriving DecidableEq

/-- A place in a text between the characters behind it, nearest first, and those ahead. -/
structure Cursor where
  behind : List Char
  ahead : List Char
  offset : Nat
  line : Nat
  column : Nat
  mark : Mark
  deriving DecidableEq

namespace Cursor

def ofText (cs : List Char) : Cursor :=
  ⟨[], cs, 0, 1, 1, ⟨0, 1, 1⟩⟩

def text (c : Cursor) : List Char :=
  c.behind.reverse ++ c.ahead

def position (c : Cursor) : Nat :=
  c.behind.length

/-- Let the next token start here. -/
def marked (c : Cursor) : Cursor :=
  { c with mark := ⟨c.offset, c.line, c.column⟩ }

/-- Move over the given number of characters, or to the end if there are fewer. -/
def move (n : Nat) (c : Cursor) : Cursor :=
  let taken := c.ahead.take n
  { c with
    behind := taken.reverse ++ c.behind
    ahead := c.ahead.drop n
    offset := c.offset + Text.utf8Length taken
    column := c.column + taken.length }

/-- Go on at the start of the next line. -/
def lineFeed (c : Cursor) : Cursor :=
  { c with line := c.line + 1, column := 1 }

def token (kind : TokenKind) (text : String) (c : Cursor) : Token :=
  .ofText kind text c.mark.offset c.mark.line c.mark.column

/-- A mistake at the mark, as wide as the character ahead. -/
def mistake (complaint : Complaint) (c : Cursor) : ProgramError where
  category := .lexical
  complaint := complaint
  span := .ofSize c.mark.offset (c.ahead.head?.elim 1 Char.utf8Size)
  place := some ⟨c.mark.line, c.mark.column⟩
  token := none

/-- The next characters as a token. Behind a line end a new line starts. -/
def take (kind : TokenKind) (n : Nat) (c : Cursor) : Token × Cursor :=
  let next := c.move n
  (c.token kind (String.ofList (c.ahead.take n)), if kind = .newline then next.lineFeed else next)

/-- The next characters up to a closing one as a token. -/
def takeDelimited (kind : TokenKind) (closer : Char) (complaint : Complaint) (c : Cursor) :
    Except ProgramError (Token × Cursor) :=
  match Lexeme.delimitedLength? closer c.ahead with
  | some n => .ok (c.take kind n)
  | none => .error (c.mistake complaint)

/-- The token that starts at the cursor. -/
def scan (c : Cursor) : Except ProgramError (Token × Cursor) :=
  match Lexeme.first c.ahead with
  | .ok (kind, n) => .ok (c.marked.take kind n)
  | .error complaint => .error (c.marked.mistake complaint)

/-- The character at a distance from the cursor, the null character past the end. A place before
the start counts from the end. -/
def peek (distance : Int) (c : Cursor) : Except Fault Char :=
  let place := c.position + distance
  if c.text.length ≤ place then .ok '\x00'
  else (placeOfIndex c.text.length .beforeStart place).map (c.text.getD · '\x00')

theorem length_ahead_scan {c c' : Cursor} {t : Token} (h : c.scan = .ok (t, c')) :
    c'.ahead.length < c.ahead.length := by
  unfold scan at h
  split at h
  next kind n hn =>
      have hpos := Lexeme.first_pos hn
      have hne : c.ahead ≠ [] := by
        intro h0
        simp [h0, Lexeme.first] at hn
      have hlen := List.length_pos_iff.2 hne
      simp only [take, Except.ok.injEq, Prod.mk.injEq] at h
      obtain ⟨_, rfl⟩ := h
      split <;> simp [lineFeed, move, marked] <;> omega
  next => simp at h

/-- The calls that a cursor answers. -/
inductive Call where
  | peek (distance : Int)
  | advance (count : Int)
  | mark
  | make (kind : TokenKind) (text : String)
  | scan
  | newline
  | whitespace
  | comment
  | inlineComment
  | string
  | delimited (closer : Char)
  | run (kind : TokenKind) (accept : Char → Bool)
  | mistake (text : String)

/-- What a cursor answers: a token, a mistake that was made on request, or characters. -/
inductive Reply where
  | token (t : Token)
  | mistake (e : ProgramError)
  | characters (cs : List Char)
  | nothing

/-- A token or a mistake as the answer to a call; after a mistake the cursor is as given. -/
def answer (after : Cursor) :
    Except ProgramError (Token × Cursor) → Except Fault Reply × Cursor
  | .ok (t, c) => (.ok (.token t), c)
  | .error e => (.error (.program e), after)

/-- Perform one call. -/
def perform (c : Cursor) : Call → Except Fault Reply × Cursor
  | .peek distance => ((c.peek distance).map fun ch => .characters [ch], c)
  | .advance count =>
    if count < 0 then (.error (.negativeAdvance count), c)
    else (.ok (.characters (c.ahead.take count.toNat)), c.move count.toNat)
  | .mark => (.ok .nothing, c.marked)
  | .make kind text => (.ok (.token (c.token kind text)), c)
  | .scan => answer c.marked c.scan
  | .newline => answer c (.ok (c.take .newline (Lexeme.newlineLength c.ahead)))
  | .whitespace => answer c (.ok (c.take .whitespace (Lexeme.runLength Lexeme.isSpace c.ahead)))
  | .comment =>
    answer c (.ok (c.take .comment (Lexeme.runLength (!Lexeme.isLineBreak ·) c.ahead)))
  | .inlineComment => answer c (c.takeDelimited .inlineComment ')' .unterminatedInlineComment)
  | .string => answer c (c.takeDelimited .string '"' .unterminatedString)
  | .delimited closer =>
    match Lexeme.delimitedLength? closer c.ahead with
    | some n => (.ok (.characters (c.ahead.take n)), c.move n)
    | none => (.ok .nothing, c)
  | .run kind accept =>
    let n := Lexeme.runLength accept c.ahead
    (.ok (.token (c.token kind (String.ofList (c.ahead.take n)))), c.move n)
  | .mistake text => (.ok (.mistake (c.mistake (.inWords text))), c)

end Cursor

end NcProgram
