import NcProgram.Text.Digit
import NcProgram.Fault
import NcProgram.Tree

namespace NcProgram

inductive Value where
  | integer (n : Int)
  | rational (q : Rat)
  | string (s : String)
  deriving DecidableEq

namespace Value

def kind : Value → String
  | integer _ => "integer"
  | rational _ => "rational"
  | string _ => "string"

end Value

/-- A whole number as text, unless it has too many digits. -/
def integerText (n : Int) : Except Fault String :=
  if Text.isTooLongToWrite n.natAbs then .error .numberTooLong else .ok (toString n)

/-- A rational number as text. The denominator is written when it is not one. -/
def rationalText (q : Rat) : Except Fault String := do
  let num ← integerText q.num
  if q.den = 1 then pure num
  else
    let den ← integerText q.den
    pure (num ++ "/" ++ den)

def Value.text : Value → Except Fault String
  | integer n => integerText n
  | rational q => rationalText q
  | string s => .ok s

/-- One or more ASCII digits. -/
def isDigitRun (cs : List Char) : Bool :=
  !cs.isEmpty && cs.all Char.isDigit

/-- The number that a token's digits write. Other text is a fault of the given category; a run may
not be too long, leading zeros included. -/
def readDigits (category : Category) (what : String) (t : Token) : Except Fault Nat :=
  let digits := t.text.toList
  if isDigitRun digits then
    if Text.maxDigits < digits.length then .error (.digitRunTooLong digits.length)
    else .ok (Text.decimalValue digits)
  else .error (.atToken category (.malformedDigits what t.text) t)

namespace NumberParts

/-- The value of a number and the texts that it was written with. Without sign and point it is an
integer; else the digits after the point count as a fraction and the sign applies to the sum. A
point without digits after it is followed by an empty text. -/
def read (p : NumberParts) : Except Fault (Value × List String) :=
  match p.minus, p.integer, p.dot, p.fraction with
  | _, none, _, none => .error .numberWithoutDigits
  | none, none, none, some _ => .error .fractionWithoutPoint
  | none, some integer, none, _ => do
    let n ← readDigits .integerFormat "integer" integer
    pure (.integer n, [integer.text])
  | minus, integer, dot, fraction => do
    let whole ← integer.elim (pure 0) (readDigits .rationalFormat "integer part")
    let (part, places) ←
      match dot, fraction with
      | some _, some digits => do
        let n ← readDigits .rationalFormat "fractional part" digits
        pure (n, digits.text.length)
      | _, _ => pure (0, 0)
    let scale := Nat.pow 10 places
    let size := mkRat (whole * scale + part : Nat) scale
    let value := if minus.isSome then -size else size
    let pointed := match dot with
      | some point => [point.text, fraction.elim "" Token.text]
      | none => []
    pure (.rational value,
      (minus.map Token.text).toList ++ (integer.map Token.text).toList ++ pointed)

end NumberParts

/-- The text without its first and its last character. -/
def unquoted (s : String) : String :=
  String.ofList (s.toList.tail.dropLast)

namespace FieldContent

def read : FieldContent → Except Fault (Value × List String)
  | number parts => parts.read
  | literal token => .ok (.string (unquoted token.text), [token.text])

end FieldContent

def maxChecksum : Nat := 255

/-- The value of a checksum's digits, which fits in a byte. -/
def readChecksum (digits : Token) : Except Fault Nat := do
  let value ← readDigits .integerFormat "checksum" digits
  if maxChecksum < value then
    .error (.atToken .checksumRange (.checksumTooLarge value) digits)
  else pure value

end NcProgram
