import NcProgram.Fault

namespace NcProgram.Command

/-- The steps of a path. Empty steps and single dots lead nowhere. -/
def pathSteps (path : String) : List String :=
  (path.splitOn "/").filter fun step => step ≠ "" && step ≠ "."

/-- The slashes that a path from the root starts with: exactly two are kept, more count as one. -/
def rootSlashes (path : String) : String :=
  match (path.toList.takeWhile (· = '/')).length with
  | 0 => ""
  | 2 => "//"
  | _ => "/"

/-- A path without detours. A path that leads nowhere is a dot. -/
def normalPath (path : String) : String :=
  let text := rootSlashes path ++ "/".intercalate (pathSteps path)
  if text.isEmpty then "." else text

/-- The most bytes that a step of a path may have. -/
def maxStepBytes : Nat := 255

/-- The most bytes that a path may have. -/
def maxPathBytes : Nat := 4095

inductive Found where
  | nothing
  | file (bytes : ByteArray)
  | directory
  /-- The path, or a step of it that was tried, is too long. -/
  | tooLong

/-- The files and the directories of a folder, each by the steps that lead to it. Nothing is known of
what lies outside. -/
structure Folder where
  files : List (List String × ByteArray)
  directories : List (List String)

namespace Folder

/-- The folder of the given files by name. A name that ends with a slash is that of a directory; a
file stands in the directories on its path. -/
def ofFiles (files : List (String × ByteArray)) : Folder where
  files := (files.filter fun f => !f.1.endsWith "/").map fun f => (pathSteps f.1, f.2)
  directories := (files.filter fun f => f.1.endsWith "/").map fun f => pathSteps f.1

/-- A directory of the folder: one that is listed, or on the way to something that is. -/
def isDirectory (d : Folder) (steps : List String) : Bool :=
  steps.isEmpty || d.directories.any steps.isPrefixOf ||
    d.files.any fun f => f.1 != steps && steps.isPrefixOf f.1

/-- Where a walk is: in the folder, below it by some steps, or outside. -/
inductive Where where
  | inside (steps : List String)
  | outside

/-- Walk on by the given steps. Each step is looked up before the next. -/
def walk (d : Folder) : Where → List String → Found
  | .inside here, [] =>
    if d.isDirectory here then .directory
    else
      match d.files.lookup here with
      | some bytes => .file bytes
      | none => .nothing
  | .outside, [] => .directory
  | .inside here, step :: steps =>
    if !d.isDirectory here then .nothing
    else if step = ".." then
      walk d (if here.isEmpty then .outside else .inside here.dropLast) steps
    else if maxStepBytes < Text.utf8Length step.toList then .tooLong
    else walk d (.inside (here ++ [step])) steps
  | .outside, step :: steps =>
    if step = ".." then walk d .outside steps
    else if maxStepBytes < Text.utf8Length step.toList then .tooLong
    else .nothing

/-- What stands at a path. A path with a null character leads nowhere. -/
def find (d : Folder) (path : String) : Found :=
  if path.toList.contains '\x00' then .nothing
  else if maxPathBytes < Text.utf8Length (normalPath path).toList then .tooLong
  else walk d (if (rootSlashes path).isEmpty then .inside [] else .outside) (pathSteps path)

end Folder

end NcProgram.Command
