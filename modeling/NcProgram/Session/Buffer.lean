import NcProgram.Text.Blank
import NcProgram.Text.Lines

namespace NcProgram.Session

/-- The text being typed, the place of the cursor in it, the texts accepted so far, and how often
completions were asked for. -/
structure Buffer where
  text : List Char
  cursor : Nat
  accepted : List String
  completions : Nat
  deriving DecidableEq

inductive Key where
  | enter
  | backspace
  | insert (text : String)
  | moveTo (cursor : Int)

namespace Buffer

def ofText (text : List Char) (cursor : Nat) : Buffer :=
  ⟨text, cursor, [], 0⟩

/-- Put characters in at the cursor, which moves behind them. -/
def insert (b : Buffer) (cs : List Char) : Buffer :=
  { b with
    text := b.text.take b.cursor ++ cs ++ b.text.drop b.cursor
    cursor := b.cursor + cs.length }

/-- Take the character before the cursor out, if there is one. -/
def erase (b : Buffer) : Buffer :=
  { b with text := b.text.eraseIdx (b.cursor - 1), cursor := b.cursor - 1 }

/-- Completions are asked for again when the start of a command is left. -/
def backspace (b : Buffer) : Buffer :=
  let erased := if b.cursor = 0 then b else b.erase
  if erased.text.head? = some '/' then { erased with completions := erased.completions + 1 }
  else erased

/-- Accept a text. The buffer is empty afterwards. -/
def accept (b : Buffer) (text : List Char) : Buffer :=
  { b with text := [], cursor := 0, accepted := b.accepted ++ [String.ofList text] }

/-- Accept what is typed if it is complete; else start a new line at the cursor. A single line is
complete unless a backslash ends it, a block of lines when its last line is blank. -/
def enter (b : Buffer) : Buffer :=
  let lines := Text.splitLines b.text
  if lines.length = 1 ∧ b.text.getLast? ≠ some '\\' then b.accept b.text
  else if (lines.getLastD []).all Text.isBlank then b.accept (Text.joinLines lines.dropLast)
  else b.insert ['\n']

/-- Do what a key says. The cursor stays in the text. -/
def press (b : Buffer) : Key → Buffer
  | .enter => b.enter
  | .backspace => b.backspace
  | .insert text => b.insert text.toList
  | .moveTo cursor => { b with cursor := min cursor.toNat b.text.length }

end Buffer

end NcProgram.Session
