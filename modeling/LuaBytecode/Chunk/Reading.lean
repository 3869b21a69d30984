import LuaBytecode.Chunk.Basic
import LuaBytecode.Reader

/-!
# Reading a chunk

The header fixes the byte order and the widths with which all that follows is
read.  A prototype is a string, two lines, four bytes and six counted lists, one
of which holds the prototypes of inner functions.

Every prototype takes at least one byte before its inner prototypes begin, so
the number of unread bytes bounds how deep they can lie; the reader of
prototypes recurs on that bound.

**Contents.**
* `Header.read`, `Chunk.read`.
* `Section`: the counted lists of a prototype, with the least sizes of their
  elements and `Section.read`.
* `Prototype.readBody`: a prototype behind its source name, with a reader for its
  lists.
* `Prototype.read`, `Prototype.reader`: a prototype, to a bound for its depth or to
  the number of unread bytes.
* `readPrototype`: the main prototype of a chunk alone.
-/

namespace LuaBytecode

namespace Header

/-- The four bytes that begin every chunk. -/
def signature : List UInt8 := [0x1b, 0x4c, 0x75, 0x61]

/-- The only version that is read. -/
def supportedVersion : UInt8 := 0x51

/-- The least number of bytes that a prototype takes. -/
def leastPrototypeSize
    (header : Header) : Nat :=
  header.sizeWidth.toNat + 8 * header.intWidth.toNat + 4

open Reader

/-- A width is refused unless it is among the allowed ones. -/
def checkWidth
    (field : WidthField)
    (allowed : List UInt8)
    (width : UInt8) : Reader Unit :=
  if width ∈ allowed then
    return ()
  else
    throw (.invalidWidth field width)

/-- The widths that integers and lengths may have. -/
def integerWidths : List UInt8 := [1, 2, 3, 4, 5, 6, 7, 8]

/-- Reads what follows the version in a header: seven bytes, taken together and then checked. -/
def readFields
    (version : UInt8) : Reader Header := do
  require 7
  let format ← byte
  let orderMark ← byte
  let intWidth ← byte
  let sizeWidth ← byte
  let instructionWidth ← byte
  let numberWidth ← byte
  let integralMark ← byte
  checkWidth .int integerWidths intWidth
  checkWidth .size integerWidths sizeWidth
  checkWidth .instruction [4] instructionWidth
  checkWidth .number [4, 8] numberWidth
  return {
    version
    format
    order := if orderMark = 0 then .big else .little
    intWidth
    sizeWidth
    instructionWidth
    numberWidth
    integral := integralMark ≠ 0 }

/-- Reads a header; the signature and the version are each checked as soon as they are read. -/
def read : Reader Header := do
  let found ← bytes 4
  if found = signature then
    let version ← byte
    if version = supportedVersion then
      readFields version
    else
      throw (.unsupportedVersion version)
  else
    throw (.invalidSignature found)

end Header

open Reader

/-- Bytes without the zero byte that ends them, if one does. -/
def dropTerminator
    (raw : List UInt8) : List UInt8 :=
  if raw.getLast? = some 0 then
    raw.dropLast
  else
    raw

/-- Text in which every byte is the character with its number. -/
def latin1
    (raw : List UInt8) : String :=
  String.ofList (raw.map Char.ofUInt8)

/-- A string: its length, then its bytes. -/
def readString
    (header : Header) : Reader String := do
  let length ← uint header.sizeWidth.toNat
  return latin1 (dropTerminator (← bytes length))

/-- The number of elements of a list. -/
def readCount
    (header : Header) : Reader Nat :=
  uint header.intWidth.toNat

/-- An integer of the width that the header declares. -/
def readInt
    (header : Header) : Reader Int64 :=
  int header.intWidth.toNat

/-- A number of the width that the header declares, four bytes or eight. -/
def readNumber
    (header : Header) : Reader Double :=
  if header.numberWidth = 4 then
    single
  else
    double

namespace Constant

/-- A constant: a tag, then what the tag announces. -/
def read
    (header : Header) : Reader Constant := do
  let tag ← byte
  if tag = 0 then
    return .nil
  else if tag = 1 then
    return .bool ((← byte) ≠ 0)
  else if tag = 3 then
    return .number (← readNumber header)
  else if tag = 4 then
    return .string (← readString header)
  else
    throw (.unknownConstantTag tag)

end Constant

/-- A line number counted from 0 for one counted from 1; the least number stays as it is. -/
def zeroBasedLine
    (line : Int64) : Int64 :=
  if line = Int64.minValue then
    line
  else
    line - 1

/-- A local variable: its name, then the bounds of its life. -/
def LocalVariable.read
    (header : Header) : Reader LocalVariable := do
  let name ← readString header
  let startPc ← readInt header
  let endPc ← readInt header
  return { name, startPc, endPc }

variable {m : Type → Type} [Monad m] [MonadLiftT Reader m] [Reserving m]

/-! ## Prototypes -/

/-- A list: its count, then its elements, each of at least `least` bytes. -/
@[specialize] def readSection
    {α : Type}
    (header : Header)
    (least : Nat)
    (element : m α) : m (List α) := do
  let count ← readCount header
  listOf count least element

/-- The counted lists of a prototype, in the order in which they stand in a file. -/
inductive Section where
  | instructions
  | constants
  | children
  | lines
  | locals
  | upvalueNames
  deriving DecidableEq

namespace Section

/-- What a list holds. -/
abbrev Element :
    Section → Type
  | .instructions => Instruction
  | .constants => Constant
  | .children => Prototype
  | .lines => Int64
  | .locals => LocalVariable
  | .upvalueNames => String

/-- The least number of bytes that an element of a list takes. -/
def least
    (header : Header) :
    Section → Nat
  | .instructions => header.instructionWidth.toNat
  | .constants => 1
  | .children => header.leastPrototypeSize
  | .lines => header.intWidth.toNat
  | .locals => header.sizeWidth.toNat + 2 * header.intWidth.toNat
  | .upvalueNames => header.sizeWidth.toNat

/-- The reader of the elements of a list, with a reader for inner prototypes. -/
def element
    (header : Header)
    (inner : m Prototype) :
    (kind : Section) → m kind.Element
  | .instructions => liftM (Instruction.decode <$> word)
  | .constants => liftM (Constant.read header)
  | .children => inner
  | .lines => liftM (zeroBasedLine <$> readInt header)
  | .locals => liftM (LocalVariable.read header)
  | .upvalueNames => liftM (readString header)

/-- Reads a list, with a reader for inner prototypes. -/
def read
    (header : Header)
    (inner : m Prototype)
    (kind : Section) : m (List kind.Element) :=
  readSection header (kind.least header) (kind.element header inner)

end Section

namespace Prototype

/-- Reads what follows the source name of a prototype, with a reader for its lists. -/
@[specialize] def readBody
    (header : Header)
    (list : (kind : Section) → m (List kind.Element))
    (sourceName : String) : m Prototype := do
  let lineDefined ← readInt header
  let lastLineDefined ← readInt header
  let upvalueCount ← byte
  let parameterCount ← byte
  let vararg ← byte
  let maxStackSize ← byte
  let instructions ← list .instructions
  let constants ← list .constants
  let children ← list .children
  let lineInfo ← list .lines
  let locals ← list .locals
  let upvalueNames ← list .upvalueNames
  return .node {
    sourceName
    lineDefined
    lastLineDefined
    upvalueCount
    parameterCount
    vararg := ⟨vararg⟩
    maxStackSize
    instructions
    constants
    lineInfo
    locals
    upvalueNames } children

/--
A prototype whose inner prototypes lie at most `depth - 1` deep.  At depth 0
nothing is left to read, and the length of the source name is what is missing.
-/
@[specialize] def read
    (header : Header) :
    Nat → m Prototype
  | 0 => liftM (short header.sizeWidth.toNat : Reader Prototype)
  | depth + 1 => do
      let sourceName ← readString header
      readBody header (Section.read header (read header depth)) sourceName

/-- The next prototype: as deep as there are unread bytes. -/
def reader
    (header : Header) : m Prototype := do
  read header (← remaining)

end Prototype

namespace Chunk

/-- Reads the main prototype under a header that was just read. -/
def readMain
    (header : Header) : Reader Chunk := do
  setOrder header.order
  let main ← Prototype.reader header
  return { header, main }

/-- Reads a chunk from the cursor on; what follows the main prototype is not looked at. -/
def reader : Reader Chunk := do
  readMain (← Header.read)

/-- The chunk at the front of a byte string. -/
def read
    (bytes : List UInt8) : Except ReadError Chunk :=
  match reader (Cursor.ofBytes bytes) with
  | .ok chunk _ => .ok chunk
  | .error error _ => .error error

end Chunk

/-- The main prototype of the chunk at the front of a byte string. -/
def readPrototype
    (bytes : List UInt8) : Except ReadError Prototype :=
  Chunk.main <$> Chunk.read bytes

end LuaBytecode
