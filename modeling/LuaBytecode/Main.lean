import LuaBytecode.Command.Run

/-!
# The command line

The command on the files of the machine it runs on.
-/

namespace LuaBytecode

/-- The error of the command for an error of the machine, whose code may come with either sign. -/
def FileError.ofMachine :
    IO.Error → FileError
  | .noFileOrDirectory .. => .notFound
  | .permissionDenied .. => .permissionDenied
  | .invalidArgument path code details =>
      if code = 36 ∨ code = -36 then
        .nameTooLong
      else
        .other (toString (IO.Error.invalidArgument path code details))
  | .inappropriateType path code details =>
      if code = 20 ∨ code = -20 then
        .notDirectory
      else if code = 21 ∨ code = -21 then
        .isDirectory
      else
        .other (toString (IO.Error.inappropriateType path code details))
  | error => .other (toString error)

/-- The files of the machine. -/
instance : FileAccess IO where
  read := fun path => do
    try
      return .ok (← IO.FS.readBinFile path)
    catch error =>
      return .error (.ofMachine error)
  create := fun path => do
    try
      IO.FS.writeBinFile path ByteArray.empty
      return .ok ()
    catch error =>
      return .error (.ofMachine error)
  store := fun path bytes => IO.FS.writeBinFile path bytes

end LuaBytecode

/-- Runs the command with the arguments it was called with. -/
def main
    (arguments : List String) : IO UInt32 := do
  let report ← LuaBytecode.Command.run arguments
  IO.eprint report.complaint
  return report.exitCode
