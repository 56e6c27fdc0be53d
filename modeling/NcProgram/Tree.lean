import NcProgram.Token

namespace NcProgram

structure NumberParts where
  minus : Option Token
  integer : Option Token
  dot : Option Token
  fraction : Option Token
  deriving DecidableEq

namespace NumberParts

/-- The tokens that are there. -/
def leaves (p : NumberParts) : List Token :=
  p.minus.toList ++ p.integer.toList ++ p.dot.toList ++ p.fraction.toList

end NumberParts

inductive FieldContent where
  | number (parts : NumberParts)
  | literal (token : Token)
  deriving DecidableEq

def FieldContent.leaves : FieldContent → List Token
  | number parts => parts.leaves
  | literal token => [token]

inductive FieldForm where
  | integer
  | negative
  | decimal
  | fraction
  | string
  deriving DecidableEq

/-- A number with a point is decimal or, without digits before the point, a fraction; a number
without a point is negative or, without a sign, an integer. -/
def FieldContent.form : FieldContent → FieldForm
  | literal _ => .string
  | number parts =>
    match parts.dot, parts.integer, parts.minus with
    | some _, some _, _ => .decimal
    | some _, none, _ => .fraction
    | none, _, some _ => .negative
    | none, _, none => .integer

/-- Letters and the value that directly follows them. -/
structure FieldTree where
  letters : Token
  content : FieldContent
  extent : Extent
  deriving DecidableEq

namespace FieldTree

def leaves (t : FieldTree) : List Token :=
  t.letters :: t.content.leaves

/-- A field reaches from its letters to its last token. -/
def ofParts (letters : Token) (content : FieldContent) : FieldTree :=
  ⟨letters, content, ⟨letters.start, (content.leaves.getLastD letters).stop⟩⟩

end FieldTree

structure ChecksumTree where
  star : Token
  digits : Token
  extent : Extent
  deriving DecidableEq

def ChecksumTree.leaves (t : ChecksumTree) : List Token :=
  [t.star, t.digits]

inductive ItemTree where
  | trivia (kind : TriviaKind) (token : Token)
  | field (tree : FieldTree)
  | checksum (tree : ChecksumTree)
  deriving DecidableEq

def ItemTree.leaves : ItemTree → List Token
  | trivia _ t => [t]
  | field t => t.leaves
  | checksum t => t.leaves

/-- A line without its terminator. -/
structure LineTree where
  items : List ItemTree
  extent : Extent
  deriving DecidableEq

def LineTree.leaves (t : LineTree) : List Token :=
  t.items.flatMap ItemTree.leaves

/-- The lines that end with a terminator, each with its terminator. -/
structure LinesTree where
  pairs : List (LineTree × Token)
  extent : Extent
  deriving DecidableEq

def LinesTree.leaves (t : LinesTree) : List Token :=
  t.pairs.flatMap fun p => p.1.leaves ++ [p.2]

/-- A bare run of lines; the last one has no terminator. -/
structure SnippetTree where
  lines : LinesTree
  lastLine : LineTree
  extent : Extent
  deriving DecidableEq

def SnippetTree.leaves (t : SnippetTree) : List Token :=
  t.lines.leaves ++ t.lastLine.leaves

/-- A whole program, which a percent sign may open and close. -/
structure FileTree where
  startPercent : Option Token
  lines : LinesTree
  lastLine : LineTree
  endPercent : Option Token
  extent : Extent
  deriving DecidableEq

def FileTree.leaves (t : FileTree) : List Token :=
  t.startPercent.toList ++ t.lines.leaves ++ t.lastLine.leaves ++ t.endPercent.toList

/-- What a text can be read as. -/
inductive Rule where
  | file
  | snippet
  | line
  deriving DecidableEq

namespace Rule

def name : Rule → String
  | file => "file"
  | snippet => "snippet"
  | line => "line"

def ofName? (name : String) : Option Rule :=
  [file, snippet, line].find? (·.name == name)

end Rule

inductive DocumentTree where
  | file (tree : FileTree)
  | snippet (tree : SnippetTree)
  deriving DecidableEq

namespace DocumentTree

def leaves : DocumentTree → List Token
  | file t => t.leaves
  | snippet t => t.leaves

def extent : DocumentTree → Extent
  | file t => t.extent
  | snippet t => t.extent

end DocumentTree

inductive Tree where
  | document (tree : DocumentTree)
  | line (tree : LineTree)
  deriving DecidableEq

namespace Tree

def leaves : Tree → List Token
  | document t => t.leaves
  | line t => t.leaves

def extent : Tree → Extent
  | document t => t.extent
  | line t => t.extent

end Tree

end NcProgram
