import NcProgram.Token.Cursor

namespace NcProgram

/-- Tokens in order, and the mistake that comes after them if there is one. -/
structure Stream where
  tokens : List Token
  failure : Option ProgramError
  deriving DecidableEq

namespace Stream

def ofTokens (tokens : List Token) : Stream :=
  ⟨tokens, none⟩

def cons (t : Token) (s : Stream) : Stream :=
  ⟨t :: s.tokens, s.failure⟩

/-- The tokens from a cursor on. The last one marks the end of the text. -/
def ofCursor (c : Cursor) : Stream :=
  if c.ahead = [] then ⟨[c.marked.token .eof ""], none⟩
  else
    match _h : c.scan with
    | .ok (t, next) => cons t (ofCursor next)
    | .error e => ⟨[], some e⟩
termination_by c.ahead.length
decreasing_by exact Cursor.length_ahead_scan _h

def ofSource (source : String) : Stream :=
  ofCursor (.ofText source.toList)

/-- All tokens, provided that no mistake comes after them. -/
def toTokens (s : Stream) : Except ProgramError (List Token) :=
  match s.failure with
  | none => .ok s.tokens
  | some e => .error e

end Stream

/-- The tokens of a program without lexical mistakes. -/
def tokenize (source : String) : Except ProgramError (List Token) :=
  (Stream.ofSource source).toTokens

end NcProgram
