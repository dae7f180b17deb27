import Hetnet.CommandLine.Run

/-!
# The program

The program runs its command line in the file system of the machine. All that it adds to
the commands is the way in which that file system reports faults, the text for who
asks for help, and where the parts of a report go.
-/

namespace Hetnet

namespace CommandLine

/-- Whether the system reports a number, either as it is or negated. -/
def hasNumber (code number : UInt32) : Bool := code = number || code = 0 - number

/-- The fault that the file system reports, known by its number. -/
def faultOf (error : IO.Error) : FileFault :=
  match error with
  | .noFileOrDirectory .. => .notFound
  | .alreadyExists .. => .alreadyExists
  | .inappropriateType _ code _ =>
      if hasNumber code 20 then .notADirectory
      else if hasNumber code 21 then .isADirectory
      else .other (toString error)
  | .invalidArgument _ code _ =>
      if hasNumber code 36 then .nameTooLong else .other (toString error)
  | _ => .other (toString error)

/-- Tries an operation of the file system. -/
def attempt {α : Type} (operation : IO α) : IO (Except FileFault α) := do
  match ← operation.toBaseIO with
  | .ok value => return .ok value
  | .error error => return .error (faultOf error)

instance : Files IO where
  read path := attempt (IO.FS.readFile path)
  makeDirectory path := attempt (IO.FS.createDirAll path)
  write path text := attempt (IO.FS.writeFile path text)

/-- How the program is used. -/
def usageText : String :=
  "Usage: metagraph [OPTIONS] <COMMAND>\n\n" ++
  "Commands:\n" ++
  "  schema <PATH>  Extract the label schema\n" ++
  "  paths <PATH>   Enumerate meta-paths between nodes\n" ++
  "  count <PATH>   Count target meta-paths\n\n" ++
  "A graph file holds one entry per line:\n" ++
  "  node <id> <label>[,<label>...]\n" ++
  "  edge <src> <dst> <type>\n"

/-- The number of cores for which work is divided. It has no influence on any answer. -/
def assumedCores : Nat := 1

end CommandLine

end Hetnet

open Hetnet.CommandLine in
/-- Runs the command line of the program. -/
def main (words : List String) : IO UInt32 := do
  let report : Report ← run assumedCores usageText words
  IO.print report.output
  if let some problem := report.problem then
    IO.eprintln s!"Error: {problem}"
  if report.exit = usageExit then
    IO.eprint usageText
  return report.exit.toUInt32
