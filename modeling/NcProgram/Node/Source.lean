import NcProgram.Node

namespace NcProgram

/-- The greatest size of a span that can be asked for. -/
def maxSpanSize : Nat := 0x7fffffffffffffff

/-- The size of a span, unless it is beyond the addressable range. -/
def Span.checkedSize (s : Span) : Except Fault Nat :=
  if maxSpanSize < s.size then .error .spanTooLarge else .ok s.size

/-- The most characters that a text is filled up to. -/
def maxFilledSize : Nat := 0x100000000

/-- A whole number in at least the given number of characters: zeros fill it up after the sign. -/
def zeroFilled (width : Nat) (n : Int) : String :=
  let sign := if n < 0 then "-" else ""
  let digits := toString n.natAbs
  sign ++ String.ofList (List.replicate (width - sign.length - digits.length) '0') ++ digits

namespace Checksum

/-- A star and digits that fill up the span. -/
def source (c : Checksum) : Except Fault String := do
  let size ← c.span.checkedSize
  if size = 0 then .error (.negativeWidth (-1))
  else if Text.isTooLongToWrite c.value.natAbs then .error .numberTooLong
  else if maxFilledSize < size then .error .outOfMemory
  else pure ("*" ++ zeroFilled (size - 1) c.value)

end Checksum

def Item.source : Item → Except Fault String
  | field f => .ok f.text
  | checksum c => c.source
  | trivia t => .ok t.text

/-- The percent sign, where there is one. -/
def percentSign (present : Bool) : String :=
  if present then "%" else ""

mutual

/-- The texts of the items of a node, in order, with line ends and percent signs between them. -/
def Node.pieces : Node → Except Fault (List String)
  | .item i => do
    let text ← i.source
    pure [text]
  | .line ⟨_, items, _⟩ => piecesOfNodes items
  | .document ⟨kind, lines, lastLine, _⟩ => do
    let body ← piecesOfLines lines
    let last ← piecesOfLast lastLine
    pure (percentSign kind.startPercent :: (body ++ last ++ [percentSign kind.endPercent]))
  | .foreign v => do
    let shown ← v.shown
    .error (.notSyntax shown)

def piecesOfNodes : List Node → Except Fault (List String)
  | [] => .ok []
  | n :: ns => do
    let first ← n.pieces
    let rest ← piecesOfNodes ns
    pure (first ++ rest)

def piecesOfLines : List (Line Node × Trivia) → Except Fault (List String)
  | [] => .ok []
  | (⟨_, items, _⟩, terminator) :: rest => do
    let first ← piecesOfNodes items
    let rest ← piecesOfLines rest
    pure (first ++ terminator.text :: rest)

def piecesOfLast : Option (Line Node) → Except Fault (List String)
  | none => .ok []
  | some ⟨_, items, _⟩ => piecesOfNodes items

end

def Node.source (n : Node) : Except Fault String := do
  let pieces ← n.pieces
  pure (String.join pieces)

end NcProgram
