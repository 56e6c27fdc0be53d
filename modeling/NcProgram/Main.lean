import NcProgram.Command

namespace NcProgram.Main

/-- The number by which the operating system tells why a file could not be read. -/
def osCode? : IO.Error → Option UInt32
  | .noFileOrDirectory _ code _ => some code
  | .inappropriateType _ code _ => some code
  | .invalidArgument _ code _ => some code
  | _ => none

/-- What stands at a path: error 20 and 2 mean that the path leads nowhere, 21 that it leads to a
directory, and 36 that it is too long. -/
def find (path : String) : IO Command.Found := do
  if path.toList.contains '\x00' then
    return .nothing
  try
    return .file (← IO.FS.readBinFile (Command.normalPath path))
  catch error =>
    match osCode? error with
    | some 2 => return .nothing
    | some 20 => return .nothing
    | some 21 => return .directory
    | some 36 => return .tooLong
    | _ => throw error

def readStdin : IO ByteArray := do
  (← IO.getStdin).readBinToEnd

def readSettings : IO Settings := do
  return ⟨← IO.getEnv "GCODE_CST_DEBUG_PY_TRACE", ← IO.getEnv "GCODE_CST_LOG_LEVEL"⟩

end NcProgram.Main

open NcProgram in
/-- Read what the command line asks for, carry it out, and print the outcome. -/
def main (words : List String) : IO UInt32 := do
  let settings ← Main.readSettings
  let source := match Command.Request.ofWords words with
    | .run options => options.source
    | _ => some ""
  let stdin ← if source.isNone || source == some "-" then Main.readStdin else pure ByteArray.empty
  let found ← match source with
    | some path => Main.find path
    | none => pure .nothing
  let outcome := Command.run words settings (fun _ => found) stdin
  IO.print outcome.output.out
  IO.eprint outcome.output.err
  match outcome.status with
  | .ok code => return code.toUInt32
  | .error fault =>
    IO.eprintln (fault.message.getD "the text is not valid UTF-8")
    return 1
