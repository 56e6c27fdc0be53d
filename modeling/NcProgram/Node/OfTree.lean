import NcProgram.Node
import NcProgram.Tree.Grammar

/-!
Nodes from parse trees. Values are read from the first token to the last, and a part is built
before the whole that it belongs to, so the first fault in that order is the one reported.
-/

namespace NcProgram

def FieldTree.build (t : FieldTree) : Except Fault Field := do
  let (value, raw) ← t.content.read
  let span ← t.extent.span
  pure ⟨t.letters.text, value, raw, span⟩

def ChecksumTree.build (t : ChecksumTree) : Except Fault Checksum := do
  let value ← readChecksum t.digits
  let span ← t.extent.span
  pure ⟨value, span⟩

def ItemTree.build : ItemTree → Except Fault Item
  | trivia kind t => .ok (.trivia (.ofToken kind t))
  | field t => Item.field <$> t.build
  | checksum t => Item.checksum <$> t.build

def LineTree.build (t : LineTree) : Except Fault (Line Item) := do
  let items ← t.items.mapM ItemTree.build
  let span ← t.extent.span
  pure (.ofItems items span)

def LinesTree.build (t : LinesTree) : Except Fault (List (Line Item × Trivia)) :=
  t.pairs.mapM fun p => do
    let line ← p.1.build
    pure (line, .ofToken .newline p.2)

def SnippetTree.build (t : SnippetTree) : Except Fault (Document Item) := do
  let lines ← t.lines.build
  let lastLine ← t.lastLine.build
  let span ← t.extent.span
  pure ⟨.snippet, lines, lastLine.unlessBlank, span⟩

def FileTree.build (t : FileTree) : Except Fault (Document Item) := do
  let lines ← t.lines.build
  let lastLine ← t.lastLine.build
  let span ← t.extent.span
  pure ⟨.file t.startPercent.isSome t.endPercent.isSome, lines, lastLine.unlessBlank, span⟩

def DocumentTree.build : DocumentTree → Except Fault (Document Item)
  | file t => t.build
  | snippet t => t.build

inductive Parsed where
  | document (d : Document Item)
  | line (l : Line Item)

def Parsed.toNode : Parsed → Node
  | document d => .ofDocument d
  | line l => .ofLine l

def Tree.build : Tree → Except Fault Parsed
  | document t => .document <$> t.build
  | line t => .line <$> t.build

def Parsed.ofStream (rule : Rule) (s : Stream) : Except Fault Parsed := do
  let tree ← Tree.ofStream rule s
  tree.build

/-- The document that a text is: a bare run of lines, or else a whole program. -/
def parseDocument (isSnippet : Bool) (source : String) : Except Fault (Document Item) := do
  let tree ← Parse.run (Parse.document isSnippet) (.ofSource source)
  tree.build

def parseFile : String → Except Fault (Document Item) :=
  parseDocument false

def parseSnippet : String → Except Fault (Document Item) :=
  parseDocument true

def parseLine (source : String) : Except Fault (Line Item) := do
  let tree ← Parse.run Parse.onlyLine (.ofSource source)
  tree.build

end NcProgram
