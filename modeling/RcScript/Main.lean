import RcScript.CommandLine

/-!
# The program

The outer layer: it reads the files of an invocation from disk, hands their
content to the task and writes out what comes back. The exit code is 0 if
nothing failed, 1 if something did and 2 for arguments that are no invocation.
-/

namespace RcScript

/-- The failure that an error of the system stands for. Some of its calls give
their error codes negated. -/
def readFailureOf : IO.Error → ReadFailure
  | .noFileOrDirectory .. => .notFound
  | .inappropriateType file code details =>
    match (min code (0 - code)).toNat with
    | 20 => .notDirectory
    | 21 => .isDirectory
    | _ => .other (toString (IO.Error.inappropriateType file code details))
  | error => .other (toString error)

/-- Read the text of a file from disk. -/
def readFromDisk (path : String) : IO (Except ReadFailure String) := do
  try
    let bytes ← IO.FS.readBinFile path
    return decodeText bytes
  catch error => return .error (readFailureOf error)

/-- Carry out an invocation and give its exit code. -/
def carryOut (invocation : Invocation) : IO UInt32 := do
  let files ← invocation.files.mapM fun path => do return (path, ← readFromDisk path)
  let outcome := invocation.task.runFiles files
  (← IO.getStdout).putStr outcome.output
  (← IO.getStderr).putStr outcome.messages
  return outcome.exitCode.toUInt32

end RcScript

/-- Run the command line. -/
def main (arguments : List String) : IO UInt32 := do
  match RcScript.Invocation.ofArguments arguments with
  | .ok invocation => RcScript.carryOut invocation
  | .error error =>
    (← IO.getStderr).putStrLn ("error: " ++ error.message)
    return 2
