import LuaBytecode.Pseudocode.Statement
import LuaBytecode.Reader
import LuaBytecode.Sink

/-!
# Errors

What can go wrong between a byte string and its rendering: the bytes are no
chunk, an instruction has no statement, or the sink refuses what it is given.  A
sink that refuses part of a dump is told apart from one that refuses anything
else.
-/

namespace LuaBytecode

/-- Why there is no complete rendering. -/
inductive Error where
  | read (error : ReadError)
  | generate (error : GenerateError)
  | io (error : SinkError)
  | json (error : SinkError)
  deriving DecidableEq

/-- The text of an error. -/
def Error.message :
    Error → String
  | .read error => error.message
  | .generate error => error.message
  | .io error => error.message
  | .json error => error.message

end LuaBytecode
