import LuaBytecode.Json.Token
import LuaBytecode.Json.Value

/-!
# Reading JSON values

A value is put together token by token.  The containers that are still open are
kept on a stack, so values may be nested as deep as the text goes.

**Contents.**
* `Json.Frame`: an open container.
* `Json.Builder`: what may come next, with the open containers around it.
* `Json.Value.parse?`: the value that a text writes.
-/

namespace LuaBytecode
namespace Json

/-- A key and a value. -/
abbrev Member := Option String × Value

/-- An open container whose next value is being read; what it holds already is in reverse. -/
inductive Frame where
  | array (items : List Value)
  | object (members : List Member) (key : Option String)

/-- What may come next. -/
inductive Builder where
  /-- A value, or the end of an array that was just opened. -/
  | value (opened : Bool) (frames : List Frame)
  /-- A key, or the end of an object that was just opened. -/
  | key (opened : Bool) (members : List Member) (frames : List Frame)
  /-- The colon after a key. -/
  | colon (key : Option String) (members : List Member) (frames : List Frame)
  /-- What follows a value. -/
  | done (value : Value) (frames : List Frame)

namespace Builder

/-- Nothing was read yet. -/
def start : Builder :=
  .value false []

/-- Takes the next token; nothing if no value goes on like this. -/
def step :
    Builder → Token → Option Builder
  | .value _ frames, .null => some (.done .null frames)
  | .value _ frames, .bool truth => some (.done (.bool truth) frames)
  | .value _ frames, .number text => some (.done (.number text) frames)
  | .value _ frames, .string text => some (.done (.string text) frames)
  | .value _ frames, .openArray => some (.value true (.array [] :: frames))
  | .value _ frames, .openObject => some (.key true [] frames)
  | .value true (.array [] :: frames), .closeArray => some (.done (.array []) frames)
  | .key _ members frames, .string name => some (.colon name members frames)
  | .key true [] frames, .closeObject => some (.done (.object []) frames)
  | .colon name members frames, .colon =>
      some (.value false (.object members name :: frames))
  | .done item (.array items :: frames), .comma =>
      some (.value false (.array (item :: items) :: frames))
  | .done item (.array items :: frames), .closeArray =>
      some (.done (.array (item :: items).reverse) frames)
  | .done item (.object members name :: frames), .comma =>
      some (.key false ((name, item) :: members) frames)
  | .done item (.object members name :: frames), .closeObject =>
      some (.done (.object ((name, item) :: members).reverse) frames)
  | _, _ => none

/-- The value that is complete here, if one is. -/
def finish :
    Builder → Option Value
  | .done item [] => some item
  | _ => none

end Builder

/-- The value that a text writes; blanks may stand around it, but nothing else. -/
def Value.parse?
    (text : String) : Option Value := do
  let tokens ← Token.scan? text.toList
  let builder ← tokens.foldlM Builder.step Builder.start
  builder.finish

end Json
end LuaBytecode
