import NcProgram.Fault
import NcProgram.Token.Lexeme

namespace NcProgram

/-- A line of a text: its number, counted from one, and the offsets of its first byte and of its
terminator. -/
structure LineBounds where
  number : Nat
  start : Nat
  stop : Nat
  deriving DecidableEq

/-- How far a text has been walked: the offset reached, the number of the line there and its first
byte, and whether the last character was a return. -/
structure Landing where
  offset : Nat
  number : Nat
  start : Nat
  afterReturn : Bool
  deriving DecidableEq

namespace Landing

def zero : Landing :=
  ⟨0, 1, 0, false⟩

/-- Walk over one character. A line feed after a return starts no further line. -/
def step (l : Landing) (c : Char) : Landing :=
  let next := l.offset + c.utf8Size
  if c = '\n' then ⟨next, if l.afterReturn then l.number else l.number + 1, next, false⟩
  else if c = '\r' then ⟨next, l.number + 1, next, true⟩
  else ⟨next, l.number, l.start, false⟩

def ofText (cs : List Char) : Landing :=
  cs.foldl step zero

end Landing

namespace LineBounds

/-- The line that holds the given byte. An offset before the text counts as its start, one behind
it as its end. Between a return and its line feed lies an empty line. -/
def ofOffset (source : List Char) (offset : Int) : LineBounds :=
  let (before, after) := Text.splitAtByte offset.toNat source
  let landing := Landing.ofText before
  ⟨landing.number, landing.start,
    landing.offset + Text.utf8Length (after.takeWhile (!Lexeme.isLineBreak ·))⟩

end LineBounds

namespace ProgramError

/-- Cut a text, which may fail inside a character. -/
def excerpt (source : List Char) (start stop : Nat) : Except Fault (List Char) :=
  match Text.sliceBytes? start stop source with
  | some cs => .ok cs
  | none => .error .undecodable

/-- The mistake with its line, and carets below the characters of its span on that line. There is
at least one caret. -/
def diagnostic (e : ProgramError) (source : String) : Except Fault String := do
  let cs := source.toList
  let bounds := LineBounds.ofOffset cs e.span.start
  let text ← excerpt cs bounds.start bounds.stop
  let before ← excerpt cs bounds.start e.span.start
  let marked ← excerpt cs e.span.start (max e.span.start (min e.span.stop bounds.stop))
  let column := before.length + 1
  let gutter := toString bounds.number ++ " | "
  let spaces := String.ofList (List.replicate (gutter.length + column - 1) ' ')
  let carets := String.ofList (List.replicate (max 1 marked.length) '^')
  pure ("error: " ++ e.complaint.text ++ "\n  --> line " ++ toString bounds.number ++ ", col " ++
    toString column ++ "\n" ++ gutter ++ String.ofList text ++ "\n" ++ spaces ++ carets)

end ProgramError

end NcProgram
