import NcProgram.Fault
import NcProgram.Text.Blank
import NcProgram.Text.Case
import NcProgram.Text.Digit

namespace NcProgram

/-- The settings as they were written, if at all. -/
structure Settings where
  trace : Option String
  logLevel : Option String
  deriving DecidableEq

inductive LogLevel where
  | debug
  | info
  | warning
  deriving DecidableEq

namespace LogLevel

def name : LogLevel → String
  | debug => "DEBUG"
  | info => "INFO"
  | warning => "WARNING"

def weight : LogLevel → Int
  | debug => 10
  | info => 20
  | warning => 30

end LogLevel

namespace Settings

def namedWeights : List (String × Int) :=
  [("CRITICAL", 50), ("FATAL", 50), ("ERROR", 40), ("WARN", 30), ("WARNING", 30), ("INFO", 20),
    ("DEBUG", 10), ("NOTSET", 0)]

/-- The capital of a character as far as it is a plain letter: beside the plain letters themselves
that is so for the I without a dot and for the long S. -/
def plainCapital (c : Char) : Char :=
  if c.toNat = 0x131 then 'I' else if c.toNat = 0x17f then 'S' else c.toUpper

/-- The number that digits of any script write. Digits that form no number are a fault, and so are
too many decimal ones. -/
def readWeight (text : String) : Except Fault Int :=
  let leading := (text.toList.map Text.decimalDigit?).takeWhile Option.isSome
  if Text.maxDigits < leading.length then .error (.digitRunTooLong leading.length)
  else if leading.length = text.length then .ok (Text.ofDigits (leading.filterMap id) : Nat)
  else .error (.malformedLevel text)

/-- The least weight of messages that are logged: a number or a name, and else the given one. -/
def logThreshold (s : Settings) (otherwise : Int) : Except Fault Int :=
  let text := Text.trim (s.logLevel.getD "")
  if text.isEmpty then .ok otherwise
  else if text.toList.all Text.isAnyDigit then readWeight text
  else
    let name := String.ofList (text.toList.map plainCapital)
    .ok ((namedWeights.lookup name).getD otherwise)

/-- Failures show a trace. -/
def showsTrace (s : Settings) : Bool :=
  ["1", "true", "yes", "on"].contains (Text.lower (Text.trim (s.trace.getD "")))

/-- The settings with traces switched on or off. -/
def withTrace (s : Settings) (on : Bool) : Settings :=
  { s with trace := if on then some "1" else none }

end Settings

end NcProgram
