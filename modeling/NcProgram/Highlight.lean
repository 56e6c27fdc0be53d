import NcProgram.Index
import NcProgram.Text.Lines
import NcProgram.Token.Stream

namespace NcProgram

/-- What a piece of text is, for the eye. -/
inductive HighlightGroup where
  | plain
  | command
  | word
  | number
  | string
  | checksum
  | delimiter
  | comment
  | mistake
  deriving DecidableEq

namespace HighlightGroup

def style : HighlightGroup → String
  | plain => ""
  | command => "bold ansicyan"
  | word => "ansiblue"
  | number => "ansimagenta"
  | string => "ansigreen"
  | checksum => "ansiyellow"
  | delimiter => "bold ansiyellow"
  | comment => "italic ansigray"
  | mistake => "bold ansired"

/-- The letters that name a command and not a parameter, in either case. -/
def commandLetters : List String :=
  ["G", "M", "T", "O", "N", "g", "m", "t", "o", "n"]

/-- The group of a token by the token before it. The digits of a checksum share the colour of its
star. -/
def ofToken (before : Option TokenKind) (t : Token) : HighlightGroup :=
  match t.kind with
  | .letters => if commandLetters.contains t.text then command else word
  | .integer => if before = some .star then checksum else number
  | .dot => number
  | .minus => number
  | .string => string
  | .star => checksum
  | .percent => delimiter
  | .comment => comment
  | .inlineComment => comment
  | _ => plain

end HighlightGroup

structure Fragment where
  group : HighlightGroup
  text : String
  deriving DecidableEq

namespace Highlight

/-- The pieces of tokens. Tokens without text are left out. -/
def ofTokens (before : Option TokenKind) : List Token → List Fragment
  | [] => []
  | t :: ts =>
    let rest := ofTokens (some t.kind) ts
    if t.kind = .eof || t.text.isEmpty then rest
    else ⟨HighlightGroup.ofToken before t, t.text⟩ :: rest

def empty : List Fragment :=
  [⟨.plain, ""⟩]

/-- The pieces of a line. From a lexical mistake on the line is flagged as a whole. -/
def ofLine (text : String) : List Fragment :=
  if text.isEmpty then empty
  else
    let s := Stream.ofSource text
    match s.failure with
    | some e =>
      let column := e.place.elim 1 Place.column
      let good := (column - 1).toNat
      [⟨.plain, String.ofList (text.toList.take good)⟩,
        ⟨.mistake, String.ofList (text.toList.drop good)⟩]
    | none =>
      match ofTokens none s.tokens with
      | [] => [⟨.plain, text⟩]
      | fragments => fragments

/-- The line of the given number in a text whose lines are separated by line feeds, counted from
zero. Numbers below zero count from the end, and there is nothing to show past it. -/
def ofLineNumber (text : String) (number : Int) : Except Fault (List Fragment) :=
  let lines := Text.splitLines text.toList
  (placeOfIndex lines.length .beforeFirstLine number).map fun place =>
    match lines[place]? with
    | some line => ofLine (String.ofList line)
    | none => empty

end Highlight

end NcProgram
