import NcProgram.Value

namespace NcProgram

/-- A blank, a comment or a line end: its text and the offset at which it starts. -/
structure Trivia where
  kind : TriviaKind
  text : String
  position : Int
  deriving DecidableEq

namespace Trivia

/-- The text of a token, as trivia of the given kind. -/
def ofToken (kind : TriviaKind) (t : Token) : Trivia :=
  ⟨kind, t.text, t.start⟩

/-- The span that starts at the position and is as long as the text. -/
def span (t : Trivia) : Except Fault Span :=
  Extent.span ⟨t.position, t.position + Text.utf8Length t.text.toList⟩

/-- What a comment says: its text without the semicolon or the parentheses. -/
def body (t : Trivia) : String :=
  match t.kind with
  | .comment => String.ofList t.text.toList.tail
  | .inlineComment => unquoted t.text
  | _ => t.text

end Trivia

/-- A field: its letters, its value, and the texts that the value was written with. -/
structure Field where
  letters : String
  value : Value
  raw : List String
  span : Span
  deriving DecidableEq

def Field.text (f : Field) : String :=
  f.letters ++ String.join f.raw

/-- A checksum. The leading zeros of its digits are implied by the width of the span. -/
structure Checksum where
  value : Int
  span : Span
  deriving DecidableEq

inductive Item where
  | field (f : Field)
  | checksum (c : Checksum)
  | trivia (t : Trivia)
  deriving DecidableEq

namespace Item

def field? : Item → Option Field
  | field f => some f
  | _ => none

def checksum? : Item → Option Checksum
  | checksum c => some c
  | _ => none

def trivia? (kind : TriviaKind) : Item → Option Trivia
  | trivia t => if t.kind = kind then some t else none
  | _ => none

/-- Fields, checksums and comments. Blanks and inline comments after the last of them trail the
line. -/
def isSignificant : Item → Bool
  | field _ => true
  | checksum _ => true
  | trivia t => t.kind = .comment

end Item

/-- The parts of a line sorted by what they are: the fields, the first checksum and comment, and
the blanks and inline comments that trail the line. -/
structure LineViews where
  fields : List Field
  checksum : Option Checksum
  comment : Option Trivia
  whitespace : Option Trivia
  inlineComments : List Trivia

namespace LineViews

/-- The items after the last significant one. -/
def trailing (items : List Item) : List Item :=
  (items.reverse.takeWhile (!·.isSignificant)).reverse

/-- The first blank that trails the items. -/
def trailingWhitespace (items : List Item) : Option Trivia :=
  (trailing items).findSome? (Item.trivia? .whitespace)

/-- The inline comments that trail the items. -/
def trailingInlineComments (items : List Item) : List Trivia :=
  (trailing items).filterMap (Item.trivia? .inlineComment)

def ofItems (items : List Item) : LineViews where
  fields := items.filterMap Item.field?
  checksum := items.findSome? Item.checksum?
  comment := items.findSome? (Item.trivia? .comment)
  whitespace := trailingWhitespace items
  inlineComments := trailingInlineComments items

/-- Nothing but blanks is in view. -/
def isBlank (v : LineViews) : Bool :=
  v.fields.isEmpty && v.checksum.isNone && v.comment.isNone && v.inlineComments.isEmpty

end LineViews

/-- A line without its terminator, over items of some type. -/
structure Line (ι : Type) extends LineViews where
  items : List ι
  span : Span

namespace Line

def ofItems (items : List Item) (span : Span) : Line Item :=
  { LineViews.ofItems items with items := items, span := span }

/-- The line over changed items, with the same views. -/
def map {ι κ : Type} (f : ι → κ) (l : Line ι) : Line κ :=
  { l.toLineViews with items := l.items.map f, span := l.span }

/-- A last line that shows nothing counts as absent. -/
def unlessBlank {ι : Type} (l : Line ι) : Option (Line ι) :=
  if l.isBlank then none else some l

end Line

inductive DocumentKind where
  /-- Lines of no particular kind. -/
  | plain
  | snippet
  /-- A whole program, and whether a percent sign opens and closes it. -/
  | file (startPercent endPercent : Bool)
  deriving DecidableEq

namespace DocumentKind

def name : DocumentKind → String
  | plain => "document"
  | snippet => "snippet"
  | file _ _ => "file"

def startPercent : DocumentKind → Bool
  | file s _ => s
  | _ => false

def endPercent : DocumentKind → Bool
  | file _ e => e
  | _ => false

end DocumentKind

/-- Lines with their terminators, and a last line without one. -/
structure Document (ι : Type) where
  kind : DocumentKind
  lines : List (Line ι × Trivia)
  lastLine : Option (Line ι)
  span : Span

namespace Document

def allLines {ι : Type} (d : Document ι) : List (Line ι) :=
  d.lines.map Prod.fst ++ d.lastLine.toList

def map {ι κ : Type} (f : ι → κ) (d : Document ι) : Document κ where
  kind := d.kind
  lines := d.lines.map fun p => (p.1.map f, p.2)
  lastLine := d.lastLine.map (Line.map f)
  span := d.span

end Document

/-- A value that is no syntax. -/
inductive Foreign where
  | nothing
  | text (s : String)
  | span (s : Span)
  | value (v : Value)

def Foreign.shown : Foreign → Except Fault String
  | nothing => .ok "None"
  | text s => .ok (Text.quoted s)
  | span s => .ok s!"Span(start={s.start}, end={s.stop})"
  | value (.integer n) => do
    let shown ← integerText n
    pure ("Integer(value=" ++ shown ++ ")")
  | value (.rational q) => do
    let num ← integerText q.num
    let den ← integerText q.den
    pure ("Rational(value=Fraction(" ++ num ++ ", " ++ den ++ "))")
  | value (.string s) => .ok ("String(value=" ++ Text.quoted s ++ ")")

/-- Anything that a line or a document may be made of when it is put together by hand: its items
may be lines again, or no syntax at all. -/
inductive Node where
  | item (i : Item)
  | line (l : Line Node)
  | document (d : Document Node)
  | foreign (v : Foreign)

namespace Node

def ofLine (l : Line Item) : Node :=
  line (l.map item)

def item? : Node → Option Item
  | item i => some i
  | _ => none

def ofDocument (d : Document Item) : Node :=
  document (d.map item)

end Node

end NcProgram
