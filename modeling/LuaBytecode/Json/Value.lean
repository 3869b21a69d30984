/-!
# JSON values and their text

A value keeps a number as it is written, and a string or key as its text; a
string whose escapes leave a surrogate without its partner has no text.

**Contents.**
* `Json.Value`.
* `Json.quoted`: a string with its quotes and escapes.
* `Json.Layout`: where line breaks and blanks stand; `Json.Layout.compact` has
  none, `Json.Layout.pretty` puts every item and member on a line of its own.
* `Json.Value.render`: the text of a value in a layout.
-/

namespace LuaBytecode
namespace Json

/-- A JSON value. -/
inductive Value where
  | null
  | bool (value : Bool)
  | number (text : String)
  | string (text : Option String)
  | array (items : List Value)
  | object (members : List (Option String × Value))

/-! ## Strings -/

/-- A code unit as an escape. -/
def unitEscape
    (unit : Nat) : List Char :=
  ['\\', 'u', Nat.digitChar (unit / 4096 % 16), Nat.digitChar (unit / 256 % 16),
    Nat.digitChar (unit / 16 % 16), Nat.digitChar (unit % 16)]

/-- A character inside quotes: quotes, backslashes and control characters are escaped. -/
def escaped
    (char : Char) : List Char :=
  if char = '"' then
    ['\\', '"']
  else if char = '\\' then
    ['\\', '\\']
  else if char = '\x08' then
    ['\\', 'b']
  else if char = '\t' then
    ['\\', 't']
  else if char = '\n' then
    ['\\', 'n']
  else if char = '\x0c' then
    ['\\', 'f']
  else if char = '\r' then
    ['\\', 'r']
  else if char.toNat < 32 then
    unitEscape char.toNat
  else
    [char]

/-- A string between quotes; one without text is an escaped surrogate. -/
def quoted
    (text : Option String) : String :=
  let inner :=
    match text with
    | some text => text.toList.flatMap escaped
    | none => unitEscape 0xD800
  String.ofList ('"' :: inner ++ ['"'])

/-! ## Layout -/

/-- The blanks of a text. -/
structure Layout where
  /-- What stands before an item at the given depth, and before the end of its container. -/
  newline : Nat → String
  /-- What stands between the colon and the value of a member. -/
  gap : String

/-- No blanks at all. -/
def Layout.compact : Layout where
  newline := fun _ => ""
  gap := ""

/-- A line for each item and member, two blanks for each level around it. -/
def Layout.pretty : Layout where
  newline := fun depth => "\n" ++ String.ofList (List.replicate (2 * depth) ' ')
  gap := " "

namespace Value

mutual

/-- The text of a value with `depth` containers around it. -/
def render
    (layout : Layout)
    (depth : Nat) :
    Value → String
  | .null => "null"
  | .bool true => "true"
  | .bool false => "false"
  | .number text => text
  | .string text => quoted text
  | .array [] => "[]"
  | .array (item :: rest) =>
      "[" ++ layout.newline (depth + 1) ++ render layout (depth + 1) item ++
        renderItems layout (depth + 1) rest ++ layout.newline depth ++ "]"
  | .object [] => "\x7b\x7d"
  | .object ((key, value) :: rest) =>
      "\x7b" ++ layout.newline (depth + 1) ++ quoted key ++ ":" ++ layout.gap ++
        render layout (depth + 1) value ++
        renderMembers layout (depth + 1) rest ++ layout.newline depth ++ "\x7d"

/-- Further items of an array, each after a comma. -/
def renderItems
    (layout : Layout)
    (depth : Nat) :
    List Value → String
  | [] => ""
  | item :: rest =>
      "," ++ layout.newline depth ++ render layout depth item ++
        renderItems layout depth rest

/-- Further members of an object, each after a comma. -/
def renderMembers
    (layout : Layout)
    (depth : Nat) :
    List (Option String × Value) → String
  | [] => ""
  | (key, value) :: rest =>
      "," ++ layout.newline depth ++ quoted key ++ ":" ++ layout.gap ++
        render layout depth value ++ renderMembers layout depth rest

end

/-- The text of a value without blanks. -/
def compact
    (value : Value) : String :=
  value.render .compact 0

/-- The text of a value with a line for each item and member. -/
def pretty
    (value : Value) : String :=
  value.render .pretty 0

end Value
end Json
end LuaBytecode
