import FilterQuery.CommandLine

/-!
# The program

Reads the file that the command names, performs the command and prints the result.
-/

namespace FilterQuery.Program

/-- What a path leads to. -/
def readEntry (path : String) : IO CommandLine.Entry := do
  try
    return .file (← IO.FS.readFile path)
  catch
    | .inappropriateType .. => return .folder
    | _ => return .absent

/-- Prints what is said about a failure, if anything is. -/
def report (failure : CommandLine.Failure) : IO UInt32 := do
  if !failure.text.isEmpty then IO.print (CommandLine.printed failure.text)
  return failure.exitCode.toUInt32

end FilterQuery.Program

open FilterQuery FilterQuery.Program

/-- Performs the command that the arguments ask for. -/
def main (arguments : List String) : IO UInt32 := do
  let settings : Settings := {}
  let seed ← IO.rand 0 (Nat.pow 16 12 - 1)
  match CommandLine.plan settings arguments with
  | .error failure => report failure
  | .ok command =>
      let entry ← readEntry (CommandLine.tidyPath command.path)
      match CommandLine.perform settings ⟨settings.idStem, seed⟩ entry command with
      | .error failure => report failure
      | .ok output =>
          for warning in output.warnings do
            IO.eprintln warning
          IO.print (CommandLine.printed output.text)
          return 0
