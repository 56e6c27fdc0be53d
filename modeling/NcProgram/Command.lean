import NcProgram.Command.Folder
import NcProgram.Command.Options
import NcProgram.Diagnostic
import NcProgram.Node.OfTree
import NcProgram.Node.Outline
import NcProgram.Node.Source
import NcProgram.Output
import NcProgram.Settings

namespace NcProgram.Command

/-- A message and its weight; the topic says which part of the work it is about. -/
structure LogMessage where
  level : LogLevel
  topic : String
  text : String

/-- A message as it is logged, from the given weight on. -/
def LogMessage.logged (threshold : Int) (m : LogMessage) : Output :=
  if threshold ≤ m.level.weight then
    .ofErr (m.level.name ++ " gcode_cst." ++ m.topic ++ ": " ++ m.text ++ "\n")
  else .empty

/-- How a command ended, and what it printed: an exit code, or the fault that broke it off. -/
structure Outcome where
  status : Except Fault Nat
  output : Output

namespace Outcome

def after (printed : Output) (o : Outcome) : Outcome :=
  { o with output := printed ++ o.output }

/-- An outcome that prints a result, unless the result could not be made. -/
def ofResult (result : Except Fault String) (further : Output) : Outcome :=
  match result with
  | .ok text => ⟨.ok 0, .ofOut text ++ further⟩
  | .error fault => ⟨.error fault, .empty⟩

end Outcome

def decode (bytes : ByteArray) : Except Fault String :=
  match String.fromUTF8? bytes with
  | some text => .ok text
  | none => .error .undecodable

/-- The program text: the standard input without a source or for a dash, a file's contents if the
source is its path, and else the source itself. -/
def loadSource (source : Option String) (find : String → Found) (stdin : ByteArray) :
    Except Fault String :=
  match source with
  | none => decode stdin
  | some word =>
    if word = "-" then decode stdin
    else
      match find word with
      | .file bytes => decode bytes
      | .directory => .error (.isDirectory (normalPath word))
      | .tooLong => .error (.nameTooLong (normalPath word))
      | .nothing => .ok word

namespace Options

def rule (o : Options) : Rule :=
  if o.snippet then .snippet else .file

/-- The least weight of messages that are logged. The verbosity goes before the settings, which have
to make sense all the same. -/
def threshold (o : Options) (s : Settings) : Except Fault Int := do
  let set ← s.logThreshold LogLevel.warning.weight
  match o.verbosity with
  | 0 => pure set
  | 1 => pure LogLevel.info.weight
  | _ => pure LogLevel.debug.weight

/-- A document in the view asked for. -/
def render (o : Options) (d : Document Item) : Except Fault String :=
  match o.view with
  | .summary => .ok (d.summary ++ "\n")
  | .tree => (Node.ofDocument d).outline defaultIndent
  | .echo => (Node.ofDocument d).source

end Options

/-- A warning about a program that a percent sign opens and none closes, or the reverse. -/
def percentWarning (threshold : Int) (d : Document Item) : Output :=
  if d.kind.startPercent = d.kind.endPercent then .empty
  else
    LogMessage.logged threshold
      ⟨.warning, "runner", "program has only one of its " ++ Text.quoted "%" ++ " delimiters"⟩

/-- Report a mistake in the program. Other faults break the command off. -/
def reject (s : Settings) (threshold : Int) (source : String) (fault : Fault) : Outcome :=
  match fault with
  | .program e =>
    let logged := LogMessage.logged threshold ⟨.info, "runner", "parse failed: " ++ e.message⟩
    match e.diagnostic source with
    | .ok diagnostic =>
      ⟨.ok 1, logged ++ .ofErr (diagnostic ++ "\n") ++ .traceHeading s.showsTrace⟩
    | .error fault => ⟨.error fault, logged⟩
  | fault => ⟨.error fault, .empty⟩

def process (o : Options) (s : Settings) (threshold : Int) (source : String) : Outcome :=
  let name := o.rule.name
  let parsing := LogMessage.logged threshold ⟨.debug, "api",
    "parsing " ++ name ++ " from " ++ toString source.length ++ " characters"⟩
  .after parsing <|
    match Parse.run (Parse.document o.snippet) (.ofSource source) with
    | .error fault => reject s threshold source fault
    | .ok tree =>
      let parsed := LogMessage.logged threshold ⟨.debug, "parser",
        "parsed " ++ name ++ " spanning " ++ toString tree.extent.start ++ ".." ++
          toString tree.extent.stop⟩
      .after parsed <|
        match tree.build with
        | .error fault => reject s threshold source fault
        | .ok d =>
          let assembled := LogMessage.logged threshold ⟨.debug, "builders",
            "assembling " ++ name ++ " with " ++ toString d.lines.length ++ " terminated lines"⟩
          .after assembled (.ofResult (o.render d) (percentWarning threshold d))

/-- Carry out what was asked for, with the text that the source stands for. -/
def execute (o : Options) (s : Settings) (source : Except Fault String) : Outcome :=
  match o.threshold s with
  | .error fault => ⟨.error fault, .empty⟩
  | .ok threshold =>
    match source with
    | .error fault => ⟨.error fault, .empty⟩
    | .ok text => process o s threshold text

/-- Run the command with the words of its command line. -/
def run (words : List String) (s : Settings) (find : String → Found) (stdin : ByteArray) :
    Outcome :=
  match Request.ofWords words with
  | .help => ⟨.ok 0, .ofOut helpText⟩
  | .misuse m => ⟨.ok 2, .ofErr (usage ++ "gcode-cst: error: " ++ m.message ++ "\n")⟩
  | .run o => execute o s (loadSource o.source find stdin)

end NcProgram.Command
