namespace NcProgram

/-- Text on the output and on the error output. -/
structure Output where
  out : String
  err : String
  deriving DecidableEq

namespace Output

def empty : Output :=
  ⟨"", ""⟩

def ofOut (text : String) : Output :=
  ⟨text, ""⟩

def ofErr (text : String) : Output :=
  ⟨"", text⟩

def append (a b : Output) : Output :=
  ⟨a.out ++ b.out, a.err ++ b.err⟩

instance : Append Output :=
  ⟨append⟩

/-- The heading of a trace, where traces are shown. -/
def traceHeading (shown : Bool) : Output :=
  ofErr (if shown then "\nPython traceback:\n" else "")

end Output

end NcProgram
