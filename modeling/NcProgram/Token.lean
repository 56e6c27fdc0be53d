import NcProgram.Span
import NcProgram.Text.Case
import NcProgram.Text.Quoted

namespace NcProgram

inductive TokenKind where
  | newline
  | whitespace
  | dot
  | star
  | minus
  | percent
  | string
  | integer
  | letters
  /-- A comment in parentheses. -/
  | inlineComment
  /-- A comment from a semicolon to the end of its line. -/
  | comment
  | eof
  deriving DecidableEq

namespace TokenKind

def name : TokenKind → String
  | newline => "NEWLINE"
  | whitespace => "WHITESPACE"
  | dot => "DOT"
  | star => "STAR"
  | minus => "MINUS"
  | percent => "PERCENT"
  | string => "STRING"
  | integer => "INTEGER"
  | letters => "LETTERS"
  | inlineComment => "INLINE_COMMENT"
  | comment => "COMMENT"
  | eof => "EOF"

def all : List TokenKind :=
  [newline, whitespace, dot, star, minus, percent, string, integer, letters, inlineComment,
    comment, eof]

def ofName? (name : String) : Option TokenKind :=
  all.find? (·.name == name)

/-- No token of such a class belongs to a line. -/
def endsLine (k : TokenKind) : Bool :=
  k = newline || k = percent || k = eof

end TokenKind

/-- Text that has no meaning to a machine. -/
inductive TriviaKind where
  | whitespace
  | newline
  | comment
  | inlineComment
  deriving DecidableEq

namespace TriviaKind

def name : TriviaKind → String
  | whitespace => "Whitespace"
  | newline => "Newline"
  | comment => "Comment"
  | inlineComment => "InlineComment"

def label (k : TriviaKind) : String :=
  Text.snakeCase k.name

end TriviaKind

/-- A piece of text with its class and place. Offsets count bytes, columns count characters; lines
and columns are counted from one. -/
structure Token where
  kind : TokenKind
  text : String
  start : Int
  stop : Int
  line : Int
  column : Int
  deriving DecidableEq

namespace Token

/-- The token of the given text that starts at the given place. -/
def ofText (kind : TokenKind) (text : String) (start line column : Int) : Token :=
  ⟨kind, text, start, start + Text.utf8Length text.toList, line, column⟩

/-- The end of a program whose last token ends at the given offset. -/
def endAt (offset : Int) : Token :=
  ofText .eof "" offset 1 1

def extent (t : Token) : Extent :=
  ⟨t.start, t.stop⟩

/-- A token as an error message calls it. -/
def describe (t : Token) : String :=
  match t.kind with
  | .eof => "end of input"
  | .newline => "end of line"
  | k => k.name ++ " " ++ Text.quoted t.text

def render (t : Token) : String :=
  "Tok(" ++ t.kind.name ++ ", " ++ Text.quoted t.text ++ ", " ++ toString t.line ++ ":" ++
    toString t.column ++ ")"

theorem endAt_kind (offset : Int) : (endAt offset).kind = .eof := rfl

end Token

end NcProgram
