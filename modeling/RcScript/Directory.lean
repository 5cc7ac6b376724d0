/-!
# Files

Reading a script can fail in a few ways, each with its own wording. A directory
tree held in memory answers path look-ups the way a file system does, so that
runs over files can be stated and carried out without one.
-/

namespace RcScript

/-- Why a file could not be read. -/
inductive ReadFailure where
  /-- Nothing has the path. -/
  | notFound
  /-- The path names a directory. -/
  | isDirectory
  /-- The path goes on after the name of a file. -/
  | notDirectory
  /-- The content is no UTF-8 text. -/
  | invalidText
  /-- Any other reason, as the system words it. -/
  | other (reason : String)
  deriving DecidableEq, Repr, Inhabited

/-- The wording of a failure. -/
def ReadFailure.message : ReadFailure → String
  | notFound => "No such file or directory (os error 2)"
  | isDirectory => "Is a directory (os error 21)"
  | notDirectory => "Not a directory (os error 20)"
  | invalidText => "stream did not contain valid UTF-8"
  | other reason => reason

/-- A message that concerns a file. -/
def pathMessage (path message : String) : String := path ++ ": " ++ message

/-- The text of a file's bytes. -/
def decodeText (bytes : ByteArray) : Except ReadFailure String :=
  match String.fromUTF8? bytes with
  | some text => .ok text
  | none => .error .invalidText

/-- What a name in a directory tree stands for. -/
inductive Entry where
  /-- A file with its content. -/
  | file (content : ByteArray)
  /-- A directory. -/
  | directory
  deriving Inhabited

/-- The names of a path, with empty ones where two slashes meet. -/
def pathNames (path : String) : List String := path.splitToList (· == '/')

/-- A directory as the paths in it and what they stand for. A path that leads on
from another makes the other a directory. -/
structure Directory where
  /-- The paths, as names from the top, with what they stand for. -/
  entries : List (List String × Entry)
  deriving Inhabited

namespace Directory

/-- What the path with the given names stands for. The top is a directory. -/
def lookup? (directory : Directory) (names : List String) : Option Entry :=
  match directory.entries.find? fun entry => entry.1 == names with
  | some entry => some entry.2
  | none =>
    if names.isEmpty || directory.entries.any fun entry => names.isPrefixOf entry.1 then
      some .directory
    else none

/-- The directory without entries. -/
def empty : Directory := ⟨[]⟩

/-- Follow names from the place `here`. Empty names and single dots stay, double
dots go up, and a file can only be the last name of a path. Above the top no
file is known. -/
def follow (directory : Directory) (here : List String) : List String → Except ReadFailure Entry
  | [] =>
    match directory.lookup? here with
    | some entry => .ok entry
    | none => .error .notFound
  | name :: names =>
    match directory.lookup? here with
    | none => .error .notFound
    | some (.file _) => .error .notDirectory
    | some .directory =>
      if name == "" || name == "." then follow directory here names
      else if name == ".." then
        if here.isEmpty then follow empty [] names else follow directory here.dropLast names
      else follow directory (here ++ [name]) names

/-- What a path stands for. An empty path stands for the directory itself, and
one that starts with a slash leads outside. -/
def resolve (directory : Directory) (path : String) : Except ReadFailure Entry :=
  match pathNames path with
  | [""] => .ok .directory
  | "" :: names => follow empty [] names
  | names => directory.follow [] names

/-- The text of the file at a path. -/
def read (directory : Directory) (path : String) : Except ReadFailure String :=
  match directory.resolve path with
  | .ok (.file content) => decodeText content
  | .ok .directory => .error .isDirectory
  | .error failure => .error failure

end Directory

end RcScript
