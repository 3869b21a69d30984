import LuaBytecode.Chunk.Dump
import LuaBytecode.Chunk.Load
import LuaBytecode.Chunk.Reading
import LuaBytecode.Listing
import LuaBytecode.Pseudocode.Writer

/-!
# Rendering a chunk

A chunk is written to a sink in one of three modes: as pseudocode, as a listing,
or as a JSON dump with a line break after it.  The sink is flushed once
everything was written.

**Contents.**
* `Mode`, `Options`.
* `RenderingTo`: a rendering, into a sink or anything else that takes bytes.
* `Chunk.write`: a chunk to a sink.
* `decompileTo`, `decompile`: from the bytes of a chunk to a sink or to text.
* `decompileStandard`: to text, with the standard options.
-/

namespace LuaBytecode

/-- What a chunk is rendered as. -/
inductive Mode where
  | pseudo
  | disasm
  | json
  deriving DecidableEq

/-- How a chunk is rendered. -/
structure Options where
  mode : Mode
  /-- Whether pseudocode lists the constants of each function. -/
  listConstants : Bool
  deriving DecidableEq

/-- Pseudocode without constants. -/
def Options.standard : Options where
  mode := .pseudo
  listConstants := false

namespace Mode

/-- The name of a mode in JSON. -/
def label :
    Mode → String
  | .pseudo => "Pseudo"
  | .disasm => "Disasm"
  | .json => "Json"

/-- A mode by its name. -/
def toJson
    (mode : Mode) : Json.Value :=
  .text mode.label

/-- The mode with the given name. -/
def ofJson? : Loader Mode :=
  Loader.choice
    (fun name => [Mode.pseudo, .disasm, .json].find? fun mode => mode.label == name)
    (fun _ _ _ => none)

end Mode

namespace Options

/-- The members of options. -/
def memberNames : List String :=
  ["mode", "emit_constants"]

/-- Options as an object. -/
def toJson
    (options : Options) : Json.Value :=
  .record memberNames [options.mode.toJson, .bool options.listConstants]

/-- Options. -/
def ofJson? : Loader Options :=
  Loader.record memberNames fun left values =>
    match values with
    | [mode, listConstants] => do
        return {
          mode := ← Mode.ofJson? left mode
          listConstants := ← Loader.bool left listConstants }
    | _ => none

end Options

/-- A computation that renders into something that takes bytes. -/
abbrev RenderingTo (σ : Type) := EStateM Error σ

/-- A computation that renders into a sink. -/
abbrev Rendering := RenderingTo Sink

namespace Rendering

variable {σ : Type}

/-- Reports the errors of a sink in the given way. -/
def reporting
    {α : Type}
    (report : SinkError → Error)
    (writing : EStateM SinkError σ α) : RenderingTo σ α :=
  fun sink =>
    match writing sink with
    | .ok result sink => .ok result sink
    | .error error sink => .error (report error) sink

/-- Writes pseudocode. -/
def pseudocode
    [ByteSink σ]
    (listConstants : Bool)
    (main : Prototype) : RenderingTo σ Unit :=
  fun sink =>
    match PseudocodeWriter.writeChunk main (.new sink listConstants) with
    | .ok () writer => .ok () writer.sink
    | .error error writer => .error error writer.sink

end Rendering

namespace Chunk

variable {σ : Type} [ByteSink σ]

/-- The JSON dump of a chunk, without the line break after it. -/
def dump
    (chunk : Chunk) : String :=
  chunk.toJson.pretty

/-- Writes a chunk, without flushing. -/
def writeBody
    (options : Options)
    (chunk : Chunk) : RenderingTo σ Unit :=
  match options.mode with
  | .pseudo => Rendering.pseudocode options.listConstants chunk.main
  | .disasm => Rendering.reporting .io (Listing.write chunk.main)
  | .json => do
      Rendering.reporting .json (ByteSink.writeText chunk.dump)
      Rendering.reporting .io (ByteSink.writeText "\n")

/-- Writes a chunk, then flushes the sink. -/
def write
    (options : Options)
    (chunk : Chunk) : RenderingTo σ Unit := do
  writeBody options chunk
  Rendering.reporting .io ByteSink.flush

end Chunk

/-- Renders the chunk at the front of a byte string into a sink. -/
def decompileTo
    {σ : Type}
    [ByteSink σ]
    (options : Options)
    (bytes : List UInt8) : RenderingTo σ Unit :=
  match Chunk.read bytes with
  | .ok chunk => chunk.write options
  | .error error => throw (.read error)

/-- The rendering of the chunk at the front of a byte string. -/
def decompile
    (options : Options)
    (bytes : List UInt8) : Except Error String :=
  match decompileTo options bytes Sink.unlimited with
  | .ok () sink => .ok sink.text
  | .error error _ => .error error

/-- The rendering under the standard options. -/
def decompileStandard
    (bytes : List UInt8) : Except Error String :=
  decompile .standard bytes

end LuaBytecode
