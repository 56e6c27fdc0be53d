import NcProgram.Diagnostic
import NcProgram.Node.OfTree
import NcProgram.Node.Outline
import NcProgram.Node.Source
import NcProgram.Output
import NcProgram.Session.Input
import NcProgram.Settings

/-!
A session at the prompt: each text that is entered is read as lines of a program and its outline is
shown, or it is a command. A mistake in a text is shown and the session goes on; only a fault that
is no mistake of the program ends it.
-/

namespace NcProgram

/-- The state of a session: whether the text is printed below each outline, the settings, and how
often the screen was cleared. -/
structure Session where
  echo : Bool
  settings : Settings
  cleared : Nat
  deriving DecidableEq

/-- What comes from the prompt. -/
inductive PromptEvent where
  | text (s : String)
  | interrupt
  | eof
  deriving DecidableEq

namespace Session

def start (settings : Settings) : Session :=
  ⟨false, settings, 0⟩

def onOff (on : Bool) : String :=
  if on then "on" else "off"

def usage (c : Command) : Output :=
  .ofErr ("Usage: " ++ c.name ++ " [on|off]\n")

/-- Obey a command with what is written after it. -/
def obey (c : Command) (argument : String) (s : Session) : Output × Session :=
  match c with
  | .clear => (.empty, { s with cleared := s.cleared + 1 })
  | .traceback =>
    match toggled argument s.settings.showsTrace with
    | some on =>
      let settings := s.settings.withTrace on
      (.ofOut ("Python traceback: " ++ onOff settings.showsTrace ++ "\n"),
        { s with settings := settings })
    | none => (usage c, s)
  | .echo =>
    match toggled argument s.echo with
    | some on => (.ofOut ("Echo: " ++ onOff on ++ "\n"), { s with echo := on })
    | none => (usage c, s)

/-- Obey a line if it is a command: if it starts with a slash behind any blanks. -/
def command? (line : String) (s : Session) : Option (Output × Session) :=
  let line := Text.trim line
  if line.startsWith "/" then
    let (name, argument) := Text.splitWord line
    match Command.ofName? name with
    | some c => some (s.obey c argument)
    | none => some (.ofErr ("Unknown command: " ++ name ++ "\n"), s)
  else none

/-- What is shown for a program text. -/
def evaluate (text : String) (s : Session) : Except Fault String := do
  let document ← parseSnippet text
  let node := Node.ofDocument document
  let outline ← node.outline defaultIndent
  if s.echo then
    let source ← node.source
    pure (outline ++ source ++ "\n")
  else pure outline

/-- Show a program text or the mistake in it. -/
def display (text : String) (s : Session) : Except Fault Output :=
  match s.evaluate text with
  | .ok shown => .ok (.ofOut shown)
  | .error (.program e) => do
    let diagnostic ← e.diagnostic text
    pure (.ofErr (diagnostic ++ "\n") ++ .traceHeading s.settings.showsTrace)
  | .error fault => .error fault

def enter (typed : String) (s : Session) : Except Fault (Output × Session) :=
  let text := normalize typed
  if text.toList.all Text.isBlank then .ok (.empty, s)
  else
    match s.command? text with
    | some result => .ok result
    | none => (s.display (programText text)).map fun output => (output, s)

def greeting : Output :=
  .ofOut "gcode-cst repl: Ctrl-D to exit, / for commands, end a line with \\ for more lines\n"

/-- The course of a session after the greeting: what each event printed, and the fault that ended it
if there was one. -/
structure Transcript where
  outputs : List Output
  fault : Option Fault
  final : Session

/-- Go through events until the end of the input, which is implied after the last one, or until a
fault. -/
def run (s : Session) : List PromptEvent → Transcript
  | [] => ⟨[.ofOut "\n"], none, s⟩
  | .eof :: _ => ⟨[.ofOut "\n"], none, s⟩
  | .interrupt :: events =>
    let rest := run s events
    { rest with outputs := .ofOut "KeyboardInterrupt\n" :: rest.outputs }
  | .text typed :: events =>
    match s.enter typed with
    | .ok (output, next) =>
      let rest := run next events
      { rest with outputs := output :: rest.outputs }
    | .error fault => ⟨[], some fault, s⟩

end Session

end NcProgram
