import LuaBytecode.Json.Numeral

/-!
# JSON tokens

Text is taken apart character by character.  Outside strings, a run of
characters that are neither blanks nor marks is a word: a number or one of three
names.  Inside a string, an escape stands for a character or for half of a
surrogate pair.

**Contents.**
* `Json.Token`.
* `Json.Scanner`: what is known in the middle of a text.
* `Json.Token.scan?`: the tokens of a text.
-/

namespace LuaBytecode
namespace Json

/-- A piece of JSON text. -/
inductive Token where
  | openArray
  | closeArray
  | openObject
  | closeObject
  | comma
  | colon
  | null
  | bool (value : Bool)
  | number (text : String)
  | string (text : Option String)
  deriving DecidableEq

/-- The beginning of a string: its characters in reverse, and the state of its surrogates. -/
structure PartialString where
  reversed : List Char
  /-- A leading surrogate whose partner must come next. -/
  leading : Option Nat
  /-- Whether some surrogate had no partner. -/
  unpaired : Bool
  deriving DecidableEq

namespace PartialString

/-- The beginning of every string. -/
def empty : PartialString where
  reversed := []
  leading := none
  unpaired := false

/-- Adds a character that is no surrogate. -/
def push
    (text : PartialString)
    (char : Char) : PartialString where
  reversed := char :: text.reversed
  leading := none
  unpaired := text.unpaired || text.leading.isSome

/-- Whether a code unit is the first half of a pair. -/
def isLeading
    (unit : Nat) : Bool :=
  0xD800 ≤ unit && unit < 0xDC00

/-- Whether a code unit is the second half of a pair. -/
def isTrailing
    (unit : Nat) : Bool :=
  0xDC00 ≤ unit && unit < 0xE000

/-- The character of a surrogate pair. -/
def paired
    (leading : Nat)
    (trailing : Nat) : Char :=
  Char.ofNat (0x10000 + (leading - 0xD800) * 0x400 + (trailing - 0xDC00))

/-- Adds a code unit that was written as an escape. -/
def pushUnit
    (text : PartialString)
    (unit : Nat) : PartialString :=
  if isTrailing unit then
    match text.leading with
    | some leading =>
        { text with reversed := paired leading unit :: text.reversed, leading := none }
    | none => { text with unpaired := true }
  else if isLeading unit then
    { text with
      leading := some unit
      unpaired := text.unpaired || text.leading.isSome }
  else
    text.push (Char.ofNat unit)

/-- The text of a string that ends here, if all its surrogates are paired. -/
def finish
    (text : PartialString) : Option String :=
  if text.unpaired || text.leading.isSome then
    none
  else
    some (String.ofList text.reversed.reverse)

end PartialString

/-- Where in a text the next character stands. -/
inductive ScanMode where
  | between
  | word (reversed : List Char)
  | inString (text : PartialString)
  | escape (text : PartialString)
  | unit (text : PartialString) (missing : Nat) (value : Nat)
  deriving DecidableEq

/-- What is known in the middle of a text: the mode, and the tokens so far in reverse. -/
structure Scanner where
  mode : ScanMode
  reversed : List Token
  deriving DecidableEq

/-- The characters that may stand between tokens. -/
def isBlank
    (char : Char) : Bool :=
  char = ' ' || char = '\n' || char = '\t' || char = '\r'

/-- The token of a mark. -/
def markToken? :
    Char → Option Token
  | '[' => some .openArray
  | ']' => some .closeArray
  | '\x7b' => some .openObject
  | '\x7d' => some .closeObject
  | ',' => some .comma
  | ':' => some .colon
  | _ => none

/-- The token of a word: one of three names, or a number. -/
def wordToken?
    (word : List Char) : Option Token :=
  if word = ['n', 'u', 'l', 'l'] then
    some .null
  else if word = ['t', 'r', 'u', 'e'] then
    some (.bool true)
  else if word = ['f', 'a', 'l', 's', 'e'] then
    some (.bool false)
  else
    (Numeral.ofText? word).map fun _ => .number (String.ofList word)

/-- The character of an escape of one letter. -/
def escapedChar? :
    Char → Option Char
  | '"' => some '"'
  | '\\' => some '\\'
  | '/' => some '/'
  | 'b' => some '\x08'
  | 'f' => some '\x0c'
  | 'n' => some '\n'
  | 'r' => some '\r'
  | 't' => some '\t'
  | _ => none

/-- The value of a hexadecimal digit of either case. -/
def hexValue?
    (char : Char) : Option Nat :=
  if '0' ≤ char ∧ char ≤ '9' then
    some (char.toNat - '0'.toNat)
  else if 'a' ≤ char ∧ char ≤ 'f' then
    some (char.toNat - 'a'.toNat + 10)
  else if 'A' ≤ char ∧ char ≤ 'F' then
    some (char.toNat - 'A'.toNat + 10)
  else
    none

namespace Scanner

/-- The start of a text. -/
def start : Scanner where
  mode := .between
  reversed := []

/-- Takes a character that stands outside strings and words. -/
def between
    (tokens : List Token)
    (char : Char) : Scanner :=
  if isBlank char then
    ⟨.between, tokens⟩
  else if char = '"' then
    ⟨.inString .empty, tokens⟩
  else
    match markToken? char with
    | some token => ⟨.between, token :: tokens⟩
    | none => ⟨.word [char], tokens⟩

/-- Whether a character cannot be part of a word. -/
def endsWord
    (char : Char) : Bool :=
  isBlank char || char = '"' || (markToken? char).isSome

/-- Takes the next character; nothing if no text goes on like this. -/
def step
    (scanner : Scanner)
    (char : Char) : Option Scanner :=
  match scanner.mode with
  | .between => some (between scanner.reversed char)
  | .word reversed =>
      if endsWord char then do
        let token ← wordToken? reversed.reverse
        return between (token :: scanner.reversed) char
      else
        some { scanner with mode := .word (char :: reversed) }
  | .inString text =>
      if char = '"' then
        some ⟨.between, .string text.finish :: scanner.reversed⟩
      else if char = '\\' then
        some { scanner with mode := .escape text }
      else if char.toNat < 32 then
        none
      else
        some { scanner with mode := .inString (text.push char) }
  | .escape text =>
      if char = 'u' then
        some { scanner with mode := .unit text 3 0 }
      else do
        let meant ← escapedChar? char
        return { scanner with mode := .inString (text.push meant) }
  | .unit text missing value => do
      let digit ← hexValue? char
      let value := 16 * value + digit
      match missing with
      | 0 => return { scanner with mode := .inString (text.pushUnit value) }
      | missing + 1 => return { scanner with mode := .unit text missing value }

/-- The tokens of a text that ends here. -/
def finish
    (scanner : Scanner) : Option (List Token) :=
  match scanner.mode with
  | .between => some scanner.reversed.reverse
  | .word reversed => do
      let token ← wordToken? reversed.reverse
      return (token :: scanner.reversed).reverse
  | _ => none

end Scanner

/-- The tokens of a text. -/
def Token.scan?
    (text : List Char) : Option (List Token) := do
  let scanner ← text.foldlM Scanner.step Scanner.start
  scanner.finish

end Json
end LuaBytecode
