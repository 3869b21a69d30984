import LuaBytecode.Bytes
import LuaBytecode.Double

/-!
# Reading from a byte string

A `Cursor` is a place in a byte string: how many bytes lie before it, which
bytes follow it, and the byte order of the numbers to come.  A `Reader` takes
what it needs from the front of the unread bytes.  A read of `n` bytes is one
step: it takes all of them or reports how many are missing, and then the cursor
is as it was.

**Contents.**
* `ReadError` and its text.
* The primitive reads: `Reader.bytes`, `Reader.byte`, `Reader.uint`,
  `Reader.int`, `Reader.word`, `Reader.single`, `Reader.double`.
* `Reserving`, `Reader.listOf`: a counted list, with what may be set aside for it.
-/

namespace LuaBytecode

/-- The header fields that fix the width of something in the file. -/
inductive WidthField where
  | int
  | size
  | instruction
  | number
  deriving DecidableEq

/-- The name under which a width is reported. -/
def WidthField.text :
    WidthField → String
  | .int => "int"
  | .size => "size_t"
  | .instruction => "instruction"
  | .number => "lua_Number"

/-- Why a byte string is not a chunk. -/
inductive ReadError where
  | invalidSignature (found : List UInt8)
  | unsupportedVersion (version : UInt8)
  | truncated (offset : Nat) (needed : Nat) (remaining : Nat)
  | invalidWidth (field : WidthField) (width : UInt8)
  | unknownConstantTag (tag : UInt8)
  deriving DecidableEq

/-- A byte as two lower-case hexadecimal digits. -/
def hexByte
    (byte : UInt8) : String :=
  String.ofList
    [Nat.digitChar (byte.toNat / 16), Nat.digitChar (byte.toNat % 16)]

/-- The text of a reading error. -/
def ReadError.message :
    ReadError → String
  | .invalidSignature found =>
      "not a Lua bytecode file (signature [" ++
        String.intercalate ", " (found.map hexByte) ++ "])"
  | .unsupportedVersion version =>
      "unsupported Lua bytecode version: 0x" ++ hexByte version ++
        " (only 0x51 is supported)"
  | .truncated offset needed remaining =>
      "unexpected end of input at offset " ++ toString offset ++
        " (needed " ++ toString needed ++ " bytes, " ++ toString remaining ++
        " remaining)"
  | .invalidWidth field width =>
      "invalid " ++ field.text ++ " width in header: " ++ toString width.toNat
  | .unknownConstantTag tag =>
      "unknown constant type tag: " ++ toString tag.toNat

/-- A place in a byte string, and the byte order of the numbers read from there on. -/
structure Cursor where
  position : Nat
  rest : List UInt8
  order : ByteOrder
  deriving DecidableEq

/-- The start of a byte string, in little-endian order. -/
def Cursor.ofBytes
    (bytes : List UInt8) : Cursor where
  position := 0
  rest := bytes
  order := .little

/-- The number of unread bytes. -/
def Cursor.remaining
    (cursor : Cursor) : Nat :=
  cursor.rest.length

/-- The cursor after the next `count` bytes. -/
def Cursor.advance
    (cursor : Cursor)
    (count : Nat) : Cursor :=
  { cursor with
    position := cursor.position + count
    rest := cursor.rest.drop count }

/-- A computation that takes bytes from a cursor and may fail. -/
abbrev Reader := EStateM ReadError Cursor

namespace Reader

variable {α : Type}

/-- Reports that `count` bytes were needed where the cursor stands. -/
def short
    (count : Nat) : Reader α :=
  fun cursor =>
    .error (.truncated cursor.position count cursor.remaining) cursor

/-- Succeeds, without moving, if `count` bytes are left. -/
def require
    (count : Nat) : Reader Unit :=
  fun cursor =>
    if (cursor.rest.take count).length = count then
      .ok () cursor
    else
      short count cursor

/-- The next `count` bytes. -/
def bytes
    (count : Nat) : Reader (List UInt8) := do
  require count
  fun cursor => .ok (cursor.rest.take count) (cursor.advance count)

/-- The next byte. -/
def byte : Reader UInt8 :=
  fun cursor =>
    match cursor.rest with
    | [] => short 1 cursor
    | next :: _ => .ok next (cursor.advance 1)

/-- Chooses the byte order of the numbers that follow. -/
def setOrder
    (order : ByteOrder) : Reader Unit :=
  fun cursor => .ok () { cursor with order }

/-- The number of unread bytes. -/
def remaining : Reader Nat :=
  fun cursor => .ok cursor.remaining cursor

/-- The byte order in force. -/
def order : Reader ByteOrder :=
  fun cursor => .ok cursor.order cursor

/-- An unsigned number of `width` bytes. -/
def uint
    (width : Nat) : Reader Nat := do
  let raw ← bytes width
  return (← order).value raw

/-- A signed number of `width` bytes, of which there are at most eight. -/
def int
    (width : Nat) : Reader Int64 := do
  return Int64.ofInt (signedValue width (← uint width))

/-- A word of four bytes. -/
def word : Reader UInt32 := do
  return UInt32.ofNat (← uint 4)

/-- A number of the 32-bit binary format, as the 64-bit number that equals it. -/
def single : Reader Double := do
  return Double.ofSingleBits (← uint 4)

/-- A number of the 64-bit binary format. -/
def double : Reader Double := do
  return Double.ofBits (← uint 8)

/-! ## Counted lists -/

/--
A computation that can ask for room for what it is about to read.  The plain
reader is given the room; another one may keep an account of what is asked for.
-/
class Reserving (m : Type → Type) where
  /-- An empty array with room for `places` elements. -/
  room {α : Type} (places : Nat) : m (Array α)

instance : Reserving Reader where
  room places := return Array.emptyWithCapacity places

variable {m : Type → Type} [Monad m]

/-- Reads `count` elements behind those already read. -/
@[specialize] def collect
    (element : m α) :
    Nat → Array α → m (Array α)
  | 0, done => return done
  | count + 1, done => do
      let next ← element
      collect element count (done.push next)

/--
The number of places set aside for `count` elements of at least `least` bytes
each when `left` bytes are unread: a count that the input cannot hold is not
believed.
-/
def reservation
    (count : Nat)
    (least : Nat)
    (left : Nat) : Nat :=
  min count (left / max least 1)

/-- A list of `count` elements, each of which takes at least `least` bytes. -/
@[specialize] def listOf
    [MonadLiftT Reader m]
    [Reserving m]
    (count : Nat)
    (least : Nat)
    (element : m α) : m (List α) := do
  let left ← remaining
  let empty ← Reserving.room (reservation count least left)
  let elements ← collect element count empty
  return elements.toList

/-! ## What the primitive reads do -/

/-- Enough bytes are left exactly if that many can be taken. -/
theorem length_take_eq_iff
    (count : Nat)
    (rest : List UInt8) :
    (rest.take count).length = count ↔ count ≤ rest.length := by
  rw [List.length_take]
  omega

/-- A read that fits takes the next bytes and moves past them. -/
theorem bytes_of_le
    (count : Nat)
    (cursor : Cursor)
    (h : count ≤ cursor.remaining) :
    bytes count cursor =
      .ok (cursor.rest.take count) (cursor.advance count) := by
  have hlength : (cursor.rest.take count).length = count :=
    (length_take_eq_iff count cursor.rest).2 h
  simp only [bytes, require, bind, EStateM.bind, hlength, if_true]

/-- A read that does not fit says what is missing and leaves the cursor alone. -/
theorem bytes_of_lt
    (count : Nat)
    (cursor : Cursor)
    (h : cursor.remaining < count) :
    bytes count cursor =
      .error (.truncated cursor.position count cursor.remaining) cursor := by
  have hlength : ¬ (cursor.rest.take count).length = count := by
    rw [length_take_eq_iff]
    exact Nat.not_le.2 h
  simp only [bytes, require, bind, EStateM.bind, hlength, if_false, short]

end Reader
end LuaBytecode
