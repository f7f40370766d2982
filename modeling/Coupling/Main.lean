import Coupling.Command.Arguments

/-!
# The command line
-/

namespace Coupling

/-- Something that is there but cannot be read is told from nothing. -/
def readContent (path : String) : IO FileContent := do
  let exists? ← (do let _ ← IO.FS.realPath path; return true) <|> return false
  if exists? then
    (do return .text (← IO.FS.readFile path)) <|> return .unreadable
  else return .absent

def workingDirectory : IO WorkingDirectory := do
  try
    return .known (← IO.currentDir).toString
  catch complaint => return .unknown complaint.toString

/-- The working directory is not asked for where a project is given. -/
def surroundings (i : Invocation) : IO Surroundings := do
  let directory ← if i.project.isSome then pure (.unknown "not asked for") else workingDirectory
  let settings := (i.root directory).toOption.map Invocation.settingsPath
  let contents ← (settings.toList ++ [i.snapshot]).mapM fun path =>
    return (path, ← readContent path)
  return {
    directory
    environment :=
      { maxCycles := ← IO.getEnv maxCyclesVariable
        maxEdgesPerStep := ← IO.getEnv maxEdgesPerStepVariable }
    file := fun path => (contents.lookup path).getD .absent }

end Coupling

open Coupling in
def main (args : List String) : IO UInt32 := do
  match Invocation.ofArguments args with
  | .error .usage =>
    IO.eprint usageText
    return 2
  | .error .help =>
    IO.print usageText
    return 0
  | .error .version =>
    IO.print versionText
    return 0
  | .ok i =>
    let outcome := i.run (← surroundings i)
    IO.print outcome.output
    match outcome.trouble with
    | none => return 0
    | some trouble =>
      IO.eprintln trouble.text
      return 1
