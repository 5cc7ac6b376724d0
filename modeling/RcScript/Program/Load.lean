import RcScript.Directory
import RcScript.Program

/-!
# Programs from files

A script file is read and parsed. Malformed lines are no failure here: they come
back as diagnostics of the program.
-/

namespace RcScript

/-- A file that could not be read. -/
structure LoadError where
  /-- The path asked for. -/
  path : String
  /-- Why it could not be read. -/
  failure : ReadFailure
  deriving DecidableEq, Repr, Inhabited

/-- The wording of a load error. -/
def LoadError.message (error : LoadError) : String :=
  pathMessage error.path error.failure.message

/-- The program in a file, with `read` to read it. -/
def Program.load (read : String → Except ReadFailure String) (path : String) :
    Except LoadError Program :=
  match read path with
  | .ok text => .ok (parse text)
  | .error failure => .error ⟨path, failure⟩

end RcScript
