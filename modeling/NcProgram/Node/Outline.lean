import NcProgram.Node

namespace NcProgram

def Field.row (f : Field) : Except Fault String := do
  let value ← f.value.text
  pure ("field " ++ f.letters ++ " " ++ f.value.kind ++ " " ++ value ++ " @" ++ f.span.render)

def Checksum.row (c : Checksum) : Except Fault String := do
  let value ← integerText c.value
  pure ("checksum " ++ value ++ " @" ++ c.span.render)

def Trivia.row (t : Trivia) : Except Fault String := do
  let span ← t.span
  pure (t.kind.label ++ " " ++ Text.quoted t.text ++ " @" ++ span.render)

def Item.row : Item → Except Fault String
  | field f => f.row
  | checksum c => c.row
  | trivia t => t.row

def lineRow (span : Span) : String :=
  "line @" ++ span.render

/-- The words for the percent signs of a document. -/
def DocumentKind.flags (k : DocumentKind) : String :=
  (if k.startPercent then " start_percent" else "") ++ (if k.endPercent then " end_percent" else "")

def documentRow (kind : DocumentKind) (span : Span) : String :=
  kind.name ++ kind.flags ++ " @" ++ span.render

def indented (indent : String) (depth : Nat) (row : String) : String :=
  String.join (List.replicate depth indent) ++ row

mutual

/-- The rows of a node at the given depth, each part below the whole. -/
def Node.rows (indent : String) (depth : Nat) : Node → Except Fault (List String)
  | .item i => do
    let row ← i.row
    pure [indented indent depth row]
  | .line ⟨_, items, span⟩ => do
    let below ← rowsOfNodes indent (depth + 1) items
    pure (indented indent depth (lineRow span) :: below)
  | .document ⟨kind, lines, lastLine, span⟩ => do
    let below ← rowsOfLines indent (depth + 1) lines
    let last ← rowsOfLast indent (depth + 1) lastLine
    pure (indented indent depth (documentRow kind span) :: (below ++ last))
  | .foreign v => do
    let shown ← v.shown
    .error (.notSyntax shown)

def rowsOfNodes (indent : String) (depth : Nat) : List Node → Except Fault (List String)
  | [] => .ok []
  | n :: ns => do
    let first ← n.rows indent depth
    let rest ← rowsOfNodes indent depth ns
    pure (first ++ rest)

/-- The rows of lines, and of the terminator after each. -/
def rowsOfLines (indent : String) (depth : Nat) :
    List (Line Node × Trivia) → Except Fault (List String)
  | [] => .ok []
  | (⟨_, items, span⟩, terminator) :: rest => do
    let below ← rowsOfNodes indent (depth + 1) items
    let row ← terminator.row
    let rest ← rowsOfLines indent depth rest
    pure (indented indent depth (lineRow span) :: (below ++ indented indent depth row :: rest))

def rowsOfLast (indent : String) (depth : Nat) :
    Option (Line Node) → Except Fault (List String)
  | none => .ok []
  | some ⟨_, items, span⟩ => do
    let below ← rowsOfNodes indent (depth + 1) items
    pure (indented indent depth (lineRow span) :: below)

end

def defaultIndent : String := "  "

/-- The rows of a node, each ended by a line feed. -/
def Node.outline (indent : String) (n : Node) : Except Fault String := do
  let rows ← n.rows indent 0
  pure (String.join (rows.map (· ++ "\n")))

/-- The numbers of lines, fields and checksums of a document. -/
def Document.summary {ι : Type} (d : Document ι) : String :=
  let fields := (d.allLines.flatMap (·.fields)).length
  let checksums := d.allLines.countP (·.checksum.isSome)
  d.kind.name ++ ": " ++ toString d.allLines.length ++ " lines, " ++ toString fields ++
    " fields, " ++ toString checksums ++ " checksums"

end NcProgram
