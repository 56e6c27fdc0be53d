import NcProgram.Fault
import NcProgram.Text.Blank
import NcProgram.Text.Case

namespace NcProgram.Session

/-- Characters that show nothing and come along when text is pasted: zero-width ones, the byte order
mark and the space that does not break. -/
def isInvisible (c : Char) : Bool :=
  [0x200b, 0x200c, 0x200d, 0xfeff, 0xa0].contains c.toNat

def normalize (text : String) : String :=
  String.ofList (text.toList.filter (!isInvisible ·))

/-- The characters without backslashes in front of line feeds. -/
def joinContinued : List Char → List Char
  | [] => []
  | [c] => [c]
  | c :: d :: cs =>
    if c = '\\' ∧ d = '\n' then joinContinued (d :: cs) else c :: joinContinued (d :: cs)

/-- The program text of what was typed: a backslash at the end of any line is dropped. -/
def programText (text : String) : String :=
  let cs := text.toList
  let cs := if cs.getLast? = some '\\' then cs.dropLast else cs
  String.ofList (joinContinued cs)

/-- A word that switches something on or off; nothing at all switches it over. -/
def toggled (word : String) (current : Bool) : Option Bool :=
  let word := Text.lower word
  if ["on", "1", "true", "yes"].contains word then some true
  else if ["off", "0", "false", "no"].contains word then some false
  else if word.isEmpty then some !current
  else none

inductive Command where
  | clear
  | traceback
  | echo
  deriving DecidableEq

namespace Command

/-- All commands, in the order in which they are offered. -/
def all : List Command :=
  [clear, traceback, echo]

def name : Command → String
  | clear => "/clear"
  | traceback => "/py-traceback"
  | echo => "/echo"

def description : Command → String
  | clear => "Clear the terminal screen"
  | traceback => "Toggle Python traceback on errors"
  | echo => "Toggle printing the rebuilt source under each tree"

def ofName? (name : String) : Option Command :=
  all.find? (·.name == name)

/-- The commands that a text may be the start of. A text that starts with no slash starts none. -/
def completions (text : String) : List Command :=
  if text.startsWith "/" then all.filter fun c => c.name.startsWith text else []

/-- The characters before a cursor and the commands that they may be the start of. A cursor below
zero counts from the end. -/
def completionsAt (cursor : Int) (cs : List Char) : Except Fault (List Char × List Command) :=
  if cs.length < cursor then .error (.cursorPastEnd cursor cs.length)
  else
    let before := cs.take (if cursor < 0 then cursor + cs.length else cursor).toNat
    .ok (before, completions (String.ofList before))

end Command

end NcProgram.Session
