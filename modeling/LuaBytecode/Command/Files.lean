/-!
# Files

The command reads one file and writes another.  What it needs of its
surroundings is a class, so that it can be run on the files of a machine as well
as on files that are values.

**Contents.**
* `FileError` and its text.
* `FileAccess`: reading, creating and writing files by path.
* `Location`: where a file lies.
* `FileSystem`: files as a value, with where each path leads.
-/

namespace LuaBytecode

/-- Why a file cannot be read or created. -/
inductive FileError where
  | notFound
  | permissionDenied
  | notDirectory
  | isDirectory
  | nameTooLong
  | other (text : String)
  deriving DecidableEq

/-- The text of a file error. -/
def FileError.message :
    FileError → String
  | .notFound => "No such file or directory (os error 2)"
  | .permissionDenied => "Permission denied (os error 13)"
  | .notDirectory => "Not a directory (os error 20)"
  | .isDirectory => "Is a directory (os error 21)"
  | .nameTooLong => "File name too long (os error 36)"
  | .other text => text

/-- Access to files by path. -/
class FileAccess (m : Type → Type) where
  /-- The contents of a file. -/
  read : String → m (Except FileError ByteArray)
  /-- Makes a file empty, whether it is there or not. -/
  create : String → m (Except FileError Unit)
  /-- Stores the contents of a file that was created. -/
  store : String → ByteArray → m Unit

/-- What a path is wanted for. -/
inductive Purpose where
  | reading
  | creating
  deriving DecidableEq

/-- Where a file or a directory lies: the names on the way to it from the root. -/
abbrev Location :=
  List String

/-- Files by location, and the location to which a path leads or why it leads to none. -/
structure FileSystem where
  files : List (Location × ByteArray)
  target : Purpose → String → Except FileError Location

namespace FileSystem

/-- The contents of the file to which a path leads. -/
def contents
    (system : FileSystem)
    (path : String) : Except FileError ByteArray :=
  match system.target .reading path with
  | .error error => .error error
  | .ok location =>
      match system.files.lookup location with
      | some bytes => .ok bytes
      | none => .error .notFound

/-- The files with the one at a location replaced, or added in front. -/
def put
    (files : List (Location × ByteArray))
    (location : Location)
    (bytes : ByteArray) : List (Location × ByteArray) :=
  (location, bytes) :: files.filter fun file => file.1 != location

/-- Gives new contents to the file to which a path leads. -/
def replace
    (system : FileSystem)
    (path : String)
    (bytes : ByteArray) : Except FileError FileSystem :=
  match system.target .creating path with
  | .error error => .error error
  | .ok location => .ok { system with files := put system.files location bytes }

/-- Files that are a value are read and written in the state. -/
instance : FileAccess (StateM FileSystem) where
  read := fun path system => (system.contents path, system)
  create := fun path system =>
    match system.replace path ByteArray.empty with
    | .ok changed => (.ok (), changed)
    | .error error => (.error error, system)
  store := fun path bytes system =>
    match system.replace path bytes with
    | .ok changed => ((), changed)
    | .error _ => ((), system)

end FileSystem
end LuaBytecode
