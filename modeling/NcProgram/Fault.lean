import NcProgram.Token

/-!
What can go wrong. A `ProgramError` is a mistake in an NC program, with its place; a `Fault` is any
reason for which an operation has no result. Both are told as causes, and the wording is kept in
`Complaint.text`, `ProgramError.message` and `Fault.message`.
-/

namespace NcProgram

/-- The families of mistakes in a program. -/
inductive Category where
  | general
  | lexical
  | grammar
  | integerFormat
  | checksumRange
  | rationalFormat
  deriving DecidableEq

namespace Category

/-- A family and all the wider families that it belongs to. -/
def lineage : Category → List Category
  | general => [general]
  | lexical => [lexical, general]
  | grammar => [grammar, general]
  | integerFormat => [integerFormat, grammar, general]
  | checksumRange => [checksumRange, integerFormat, grammar, general]
  | rationalFormat => [rationalFormat, grammar, general]

end Category

inductive Complaint where
  | unexpectedCharacter (c : Char)
  | unterminatedInlineComment
  | unterminatedString
  | expected (kind : TokenKind) (found : Token)
  | expectedChecksumDigits
  | expectedFractionDigits
  | expectedDigitsAfterMinus (found : Token)
  | unexpectedToken (found : Token)
  /-- A field behind the checksum or the comment of its line. -/
  | lateField (letters : String)
  | duplicateChecksum
  | checksumAfterComment
  | fieldWithoutValue (letters : String)
  | malformedDigits (what text : String)
  | checksumTooLarge (value : Nat)
  /-- A complaint in the caller's own words. -/
  | inWords (text : String)
  deriving DecidableEq

def Complaint.text : Complaint → String
  | unexpectedCharacter c => "Unexpected character " ++ Text.quoted (String.singleton c)
  | unterminatedInlineComment => "Unterminated inline comment"
  | unterminatedString => "Unterminated string"
  | expected kind found => "Expected " ++ kind.name ++ ", got " ++ found.describe
  | expectedChecksumDigits => "Expected checksum digits after '*'"
  | expectedFractionDigits => "Expected digits after '.'"
  | expectedDigitsAfterMinus found => "Expected digits after '-', got " ++ found.describe
  | unexpectedToken found => "Unexpected " ++ found.describe
  | lateField letters =>
    "Field " ++ Text.quoted letters ++ " after the end of the line's fields"
  | duplicateChecksum => "Duplicate checksum"
  | checksumAfterComment => "Checksum after comment"
  | fieldWithoutValue letters => "Field " ++ Text.quoted letters ++ " has no value"
  | malformedDigits what text => "invalid " ++ what ++ " " ++ Text.quoted text
  | checksumTooLarge value => "checksum " ++ toString value ++ " does not fit in a byte"
  | inWords text => text

/-- A line and a column, counted from one. -/
structure Place where
  line : Int
  column : Int
  deriving DecidableEq

/-- A mistake in a program. Lexical mistakes know their line and column; mistakes of grammar and
of number formats know the token that they were found at. -/
structure ProgramError where
  category : Category
  complaint : Complaint
  span : Span
  place : Option Place
  token : Option Token
  deriving DecidableEq

namespace ProgramError

def withSpan (e : ProgramError) : String :=
  e.complaint.text ++ " at " ++ e.span.render

/-- The complaint and where it applies, told by line and column if they are known. -/
def message (e : ProgramError) : String :=
  match e.place with
  | some p =>
    e.complaint.text ++ " at line " ++ toString p.line ++ ", col " ++ toString p.column
  | none => e.withSpan

end ProgramError

/-- Why an operation has no result. -/
inductive Fault where
  | program (error : ProgramError)
  /-- Two offsets that bound no span. -/
  | offsetsOutOfOrder (extent : Extent)
  /-- A span whose size is beyond the addressable range. -/
  | spanTooLarge
  /-- An index that is beyond the addressable range. -/
  | indexOutOfRange
  | outOfMemory
  | cursorPastEnd (cursor : Int) (size : Nat)
  | unknownRule (name : String)
  | numberWithoutDigits
  | fractionWithoutPoint
  /-- A run of more than `Text.maxDigits` digits. -/
  | digitRunTooLong (length : Nat)
  /-- A number that needs more than `Text.maxDigits` digits. -/
  | numberTooLong
  | malformedLevel (text : String)
  | negativeAdvance (count : Int)
  /-- A look before the start of the text. -/
  | beforeStart
  | beforeFirstLine
  /-- A checksum that is to be filled up to a negative number of digits. -/
  | negativeWidth (width : Int)
  | notSyntax (shown : String)
  /-- Bytes that encode no text. -/
  | undecodable
  | isDirectory (path : String)
  | nameTooLong (path : String)
  deriving DecidableEq, Inhabited

/-- A mistake at a token. -/
def Fault.atToken (category : Category) (complaint : Complaint) (t : Token) : Fault :=
  match Span.ofExtent? t.extent with
  | some span => .program ⟨category, complaint, span, none, some t⟩
  | none => .offsetsOutOfOrder t.extent

/-- The words for a fault; undecodable bytes have none. -/
def Fault.message : Fault → Option String
  | program error => some error.message
  | offsetsOutOfOrder e => some s!"invalid span range {e.start}..{e.stop}"
  | spanTooLarge => some "cannot fit 'int' into an index-sized integer"
  | indexOutOfRange => some "cannot fit 'int' into an index-sized integer"
  | outOfMemory => some ""
  | cursorPastEnd cursor size => some s!"cursor_position={cursor}, len_text={size}"
  | unknownRule name => some ("unknown start rule " ++ Text.quoted name)
  | numberWithoutDigits => some "a number needs an integer or a fractional digit run"
  | fractionWithoutPoint => some ""
  | digitRunTooLong length =>
    some ("Exceeds the limit (4300 digits) for integer string conversion: value has " ++
      toString length ++ " digits; use sys.set_int_max_str_digits() to increase the limit")
  | numberTooLong =>
    some ("Exceeds the limit (4300 digits) for integer string conversion; " ++
      "use sys.set_int_max_str_digits() to increase the limit")
  | malformedLevel text =>
    some ("invalid literal for int() with base 10: " ++
      String.ofList ((Text.quoted text).toList.take 200))
  | negativeAdvance count => some ("advance() requires n >= 0, got " ++ toString count)
  | beforeStart => some "string index out of range"
  | beforeFirstLine => some "list index out of range"
  | negativeWidth width =>
    some ("Invalid format specifier '0" ++ toString width ++ "d' for object of type 'int'")
  | notSyntax shown => some ("not a syntax node: " ++ shown)
  | undecodable => none
  | isDirectory path => some ("[Errno 21] Is a directory: " ++ Text.quoted path)
  | nameTooLong path => some ("[Errno 36] File name too long: " ++ Text.quoted path)

/-- The span between two offsets that must be in order. -/
def Extent.span (e : Extent) : Except Fault Span :=
  match Span.ofExtent? e with
  | some s => .ok s
  | none => .error (.offsetsOutOfOrder e)

end NcProgram
