import LuaBytecode.Command.Arguments
import LuaBytecode.Command.BufferedFile
import LuaBytecode.Command.Files

/-!
# Running the command

The input is read and parsed before the output is created, so a file that is no
chunk costs nothing.  The output is written through a buffer, which is flushed
at the end, also when the rendering ends in an error; that error is reported
before one of the flush.

The texts for help, for the version, for completions and for arguments that are
no command line are not given here: such a run has an exit code only.

**Contents.**
* `CommandError` and its text.
* `Command.renderFile`: one file into another.
* `Command.run`: a command line, with its exit code and the error it reports.
-/

namespace LuaBytecode

/-- Why the output is missing or incomplete. -/
inductive CommandError where
  | read (path : String) (error : FileError)
  | parse (path : String) (error : ReadError)
  | create (path : String) (error : FileError)
  | decompile (path : String) (error : Error)
  | write (path : String) (error : SinkError)
  deriving DecidableEq

/-- The text of an error of the command. -/
def CommandError.message :
    CommandError → String
  | .read path error => "failed to read " ++ path ++ ": " ++ error.message
  | .parse path error => "failed to parse " ++ path ++ ": " ++ error.message
  | .create path error => "failed to create " ++ path ++ ": " ++ error.message
  | .decompile path error => "failed to decompile " ++ path ++ ": " ++ error.message
  | .write path error => "failed to write " ++ path ++ ": " ++ error.message

/-- How a command ends, and the error that it reports. -/
structure Report where
  exitCode : UInt32
  complaint : String

namespace Command

variable {m : Type → Type} [Monad m] [FileAccess m]

/-- How a rendering and the flush after it ended, and what the file then holds. -/
structure Rendered where
  outcome : Except Error Unit
  flushed : Except SinkError Unit
  stored : ByteArray

/-- Flushes the file that a rendering leaves. -/
def finish
    (outcome : Except Error Unit)
    (file : BufferedFile) : Rendered :=
  match ByteSink.flush file with
  | .ok () file => ⟨outcome, .ok (), file.written⟩
  | .error error file => ⟨outcome, .error error, file.written⟩

/-- Renders a chunk into a file that was created. -/
def rendered
    (options : Options)
    (chunk : Chunk) : Rendered :=
  match chunk.write options BufferedFile.empty with
  | .ok () file => finish (.ok ()) file
  | .error error file => finish (.error error) file

/-- Renders the file at one path into the file at another. -/
def renderFile
    (input : String)
    (output : String)
    (options : Options) : m (Except CommandError Unit) := do
  match ← FileAccess.read input with
  | .error error => return .error (.read input error)
  | .ok bytes =>
      match Chunk.read bytes.data.toList with
      | .error error => return .error (.parse input error)
      | .ok chunk =>
          match ← FileAccess.create output with
          | .error error => return .error (.create output error)
          | .ok () =>
              let result := rendered options chunk
              FileAccess.store output result.stored
              match result.outcome, result.flushed with
              | .error error, _ => return .error (.decompile input error)
              | .ok (), .error error => return .error (.write output error)
              | .ok (), .ok () => return .ok ()

/-- Grants a request. -/
def grant :
    Request → m Report
  | .help | .version | .completion _ => return ⟨0, ""⟩
  | .render input output options => do
      match ← renderFile input output options with
      | .ok () => return ⟨0, ""⟩
      | .error error => return ⟨1, "error: " ++ error.message ++ "\n"⟩

/-- Runs a command line. -/
def run
    (arguments : List String) : m Report :=
  match Request.ofArguments? arguments with
  | some request => grant request
  | none => return ⟨2, ""⟩

end Command
end LuaBytecode
