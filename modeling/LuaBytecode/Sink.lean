import LuaBytecode.Utf8

/-!
# Sinks

A sink is where text goes: it keeps the bytes it was given, and may have room
only for so many more.  A write that only partly fits stores the part that fits
and then fails, and nothing is stored after that.

**Contents.**
* `SinkError` and its text; `ByteSink`: what bytes can be written to.
* `Sink`, `Sink.write`, `Sink.writeText`, `Sink.flush`.
* `Sink.text`: what was stored, as text.
-/

namespace LuaBytecode

/-- What can go wrong in a sink. -/
inductive SinkError where
  | full
  | flushFailed
  deriving DecidableEq

/-- The text of a sink error. -/
def SinkError.message :
    SinkError → String
  | .full => "sink full"
  | .flushFailed => "flush failed"

/-- Something that takes bytes. -/
class ByteSink (σ : Type) where
  /-- Takes bytes, or as many of them as there is room for. -/
  write : ByteArray → EStateM SinkError σ Unit
  /-- Passes on what was taken and kept back. -/
  flush : EStateM SinkError σ Unit

/-- Writes text in UTF-8. -/
def ByteSink.writeText
    {σ : Type}
    [ByteSink σ]
    (text : String) : EStateM SinkError σ Unit :=
  ByteSink.write text.toUTF8

/-- Stored bytes, with the room for more and what becomes of a flush. -/
structure Sink where
  stored : ByteArray
  /-- How many more bytes are taken; without a limit all are. -/
  limit : Option Nat
  flushFails : Bool
  /-- How often a flush was attempted. -/
  flushes : Nat

namespace Sink

/-- An empty sink that takes everything. -/
def unlimited : Sink where
  stored := ByteArray.empty
  limit := none
  flushFails := false
  flushes := 0

/-- An empty sink that takes `capacity` bytes. -/
def limited
    (capacity : Nat)
    (flushFails : Bool) : Sink :=
  { unlimited with limit := some capacity, flushFails }

/-- Stores bytes as far as they fit. -/
def write
    (bytes : ByteArray) : EStateM SinkError Sink Unit :=
  fun sink =>
    match sink.limit with
    | none => .ok () { sink with stored := sink.stored ++ bytes }
    | some limit =>
        if bytes.size ≤ limit then
          .ok () { sink with
            stored := sink.stored ++ bytes
            limit := some (limit - bytes.size) }
        else
          .error .full { sink with
            stored := sink.stored ++ bytes.extract 0 limit
            limit := some 0 }

/-- Stores text in UTF-8. -/
def writeText
    (text : String) : EStateM SinkError Sink Unit :=
  write text.toUTF8

/-- Asks the sink to pass on what it holds. -/
def flush : EStateM SinkError Sink Unit :=
  fun sink =>
    let tried := { sink with flushes := sink.flushes + 1 }
    if sink.flushFails then
      .error .flushFailed tried
    else
      .ok () tried

/-- A sink takes bytes as far as they fit. -/
instance : ByteSink Sink where
  write := write
  flush := flush

/-- The stored bytes as text. -/
def text
    (sink : Sink) : String :=
  Utf8.decode sink.stored

end Sink
end LuaBytecode
