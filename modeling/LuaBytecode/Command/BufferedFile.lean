import LuaBytecode.Sink

/-!
# Files behind a buffer

Bytes for a file are gathered in a buffer and reach the file when the buffer is
full or is flushed.  What does not fit into an empty buffer goes to the file
without a detour.  Writing to the file itself does not fail.

**Contents.**
* `BufferedFile`: a file and the buffer in front of it.
* `BufferedFile.take`, `BufferedFile.passOn`: bytes into the buffer, and out of it.
-/

namespace LuaBytecode

/-- A file that is being written. -/
structure BufferedFile where
  /-- The bytes that reached the file. -/
  written : ByteArray
  /-- The bytes in the buffer, which come after them. -/
  pending : ByteArray

namespace BufferedFile

/-- The number of bytes that the buffer holds. -/
def capacity : Nat :=
  8192

/-- A file that was created, with nothing in the buffer. -/
def empty : BufferedFile where
  written := ByteArray.empty
  pending := ByteArray.empty

/-- Moves what is in the buffer to the file. -/
def passOn
    (file : BufferedFile) : BufferedFile where
  written := file.written ++ file.pending
  pending := ByteArray.empty

/-- Makes room for bytes: a buffer in which they do not fit is passed on. -/
def makeRoom
    (file : BufferedFile)
    (size : Nat) : BufferedFile :=
  if capacity < file.pending.size + size then
    file.passOn
  else
    file

/-- Takes bytes into the buffer, or to the file if they are as long as the whole buffer. -/
def take
    (file : BufferedFile)
    (bytes : ByteArray) : BufferedFile :=
  let file := file.makeRoom bytes.size
  if capacity ≤ bytes.size then
    { file with written := file.written ++ bytes }
  else
    { file with pending := file.pending ++ bytes }

/-- A buffered file takes all bytes. -/
instance : ByteSink BufferedFile where
  write := fun bytes file => .ok () (file.take bytes)
  flush := fun file => .ok () file.passOn

end BufferedFile
end LuaBytecode
