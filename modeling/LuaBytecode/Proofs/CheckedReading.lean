import LuaBytecode.Chunk.Reading

/-!
# Reading with every access checked

A reader of chunks that leaves the bytes where they are and goes through them by
position.  Every index and every slice is checked against the length of what it
is taken from, every number of a declared width against the widths that numbers
have, and every length against the addresses of a machine of 64 bits.  A check
that fails is a fault, which is no refusal of the bytes.

Inner prototypes are read down to a given depth, and a deeper one is a fault too.

**Contents.**
* `Fault`, `Window`, `CheckedReader`.
* `CheckedReader.index`, `CheckedReader.slice`, `CheckedReader.number`,
  `CheckedReader.size`: the checks.
* `Chunk.readChecked`: the chunk at the front of a byte string.
-/

namespace LuaBytecode

/-- What stops a checked reader: a refusal of the bytes, or a check that fails. -/
inductive Fault where
  | refused (error : ReadError)
  /-- An index, or the end of a slice, past the end. -/
  | outOfBounds (place : Nat) (length : Nat)
  /-- A number of no bytes, or of more than eight. -/
  | widthOutOfRange (width : Nat)
  /-- A length that is no address. -/
  | lengthOverflow (length : Nat)
  /-- An inner prototype below the depth that is allowed for. -/
  | tooDeep
  deriving DecidableEq

/-- A position in a byte string, and the byte order of the numbers read from there on. -/
structure Window where
  buffer : List UInt8
  position : Nat
  order : ByteOrder
  deriving DecidableEq

namespace Window

/-- The start of a byte string, in little-endian order. -/
def ofBytes
    (bytes : List UInt8) : Window where
  buffer := bytes
  position := 0
  order := .little

/-- The number of unread bytes. -/
def remaining
    (window : Window) : Nat :=
  window.buffer.length - window.position

end Window

/-- A computation that goes through a byte string and may be stopped. -/
abbrev CheckedReader := EStateM Fault Window

namespace CheckedReader

/-! ## Checks -/

/-- The byte at a place. -/
def index
    (raw : List UInt8)
    (place : Nat) : CheckedReader UInt8 :=
  match raw[place]? with
  | some byte => return byte
  | none => throw (.outOfBounds place raw.length)

/-- The bytes from the place `first` up to the place `last`. -/
def slice
    (raw : List UInt8)
    (first : Nat)
    (last : Nat) : CheckedReader (List UInt8) :=
  if first ≤ last ∧ last ≤ raw.length then
    return (raw.take last).drop first
  else
    throw (.outOfBounds last raw.length)

/-- The number held by all of the given bytes, of which there are from one to eight. -/
def number
    (raw : List UInt8) : CheckedReader Nat := do
  if 1 ≤ raw.length ∧ raw.length ≤ 8 then
    return (← get).order.value raw
  else
    throw (.widthOutOfRange raw.length)

/-- The number held by the first `count` of the given bytes. -/
def fixedNumber
    (count : Nat)
    (raw : List UInt8) : CheckedReader Nat := do
  return (← get).order.value (← slice raw 0 count)

/-! ## Single reads -/

/-- The next `count` bytes. -/
def bytes
    (count : Nat) : CheckedReader (List UInt8) := do
  let window ← get
  if window.remaining < count then
    throw (.refused (.truncated window.position count window.remaining))
  else
    let taken ← slice window.buffer window.position (window.position + count)
    set { window with position := window.position + count }
    return taken

/-- The next byte. -/
def byte : CheckedReader UInt8 := do
  index (← bytes 1) 0

/-- An unsigned number of `width` bytes. -/
def uint
    (width : Nat) : CheckedReader Nat := do
  number (← bytes width)

/-- A signed number of `width` bytes. -/
def int
    (width : Nat) : CheckedReader Int64 := do
  return Int64.ofInt (signedValue width (← uint width))

/-- A word of four bytes. -/
def word : CheckedReader UInt32 := do
  return UInt32.ofNat (← fixedNumber 4 (← bytes 4))

/-- A number of the 32-bit binary format, as the 64-bit number that equals it. -/
def single : CheckedReader Double := do
  return Double.ofSingleBits (← fixedNumber 4 (← bytes 4))

/-- A number of the 64-bit binary format. -/
def double : CheckedReader Double := do
  return Double.ofBits (← fixedNumber 8 (← bytes 8))

/-- A length, which is an address on a machine of 64 bits. -/
def size
    (width : Nat) : CheckedReader Nat := do
  let length ← uint width
  if length < 2 ^ 64 then
    return length
  else
    throw (.lengthOverflow length)

/-- Reads `count` elements behind those already read. -/
def collect
    {α : Type}
    (element : CheckedReader α) :
    Nat → Array α → CheckedReader (Array α)
  | 0, done => return done
  | count + 1, done => do
      let next ← element
      collect element count (done.push next)

/-! ## Headers -/

/-- A width is refused unless it is among the allowed ones. -/
def checkWidth
    (field : WidthField)
    (allowed : List UInt8)
    (width : UInt8) : CheckedReader Unit :=
  if width ∈ allowed then
    return ()
  else
    throw (.refused (.invalidWidth field width))

/-- The header whose fields behind the version are the given bytes, each looked up on use. -/
def fields
    (version : UInt8)
    (rest : List UInt8) : CheckedReader Header := do
  let format ← index rest 0
  let orderMark ← index rest 1
  let intWidth ← index rest 2
  checkWidth .int Header.integerWidths intWidth
  let sizeWidth ← index rest 3
  checkWidth .size Header.integerWidths sizeWidth
  let instructionWidth ← index rest 4
  checkWidth .instruction [4] instructionWidth
  let numberWidth ← index rest 5
  checkWidth .number [4, 8] numberWidth
  let integralMark ← index rest 6
  return {
    version
    format
    order := if orderMark = 0 then .big else .little
    intWidth
    sizeWidth
    instructionWidth
    numberWidth
    integral := integralMark ≠ 0 }

/-- Reads a header; the signature and the version are each checked as soon as they are read. -/
def readHeader : CheckedReader Header := do
  let found ← bytes 4
  if found = Header.signature then
    let version ← byte
    if version = Header.supportedVersion then
      fields version (← bytes 7)
    else
      throw (.refused (.unsupportedVersion version))
  else
    throw (.refused (.invalidSignature (← slice found 0 4)))

/-! ## Prototypes -/

section Parts

variable (header : Header)

/-- A string: its length, then its bytes. -/
def readString : CheckedReader String := do
  let length ← size header.sizeWidth.toNat
  return latin1 (dropTerminator (← bytes length))

/-- An integer of the width that the header declares. -/
def readInt : CheckedReader Int64 :=
  int header.intWidth.toNat

/-- A constant: a tag, then what the tag announces. -/
def readConstant : CheckedReader Constant := do
  let tag ← byte
  if tag = 0 then
    return .nil
  else if tag = 1 then
    return .bool ((← byte) ≠ 0)
  else if tag = 3 then
    return .number (← if header.numberWidth = 4 then single else double)
  else if tag = 4 then
    return .string (← readString header)
  else
    throw (.refused (.unknownConstantTag tag))

/-- A local variable: its name, then the bounds of its life. -/
def readLocal : CheckedReader LocalVariable := do
  let name ← readString header
  let startPc ← readInt header
  let endPc ← readInt header
  return { name, startPc, endPc }

/-- A list: its count, then its elements. -/
def readSection
    {α : Type}
    (element : CheckedReader α) : CheckedReader (List α) := do
  let count ← size header.intWidth.toNat
  return (← collect element count #[]).toList

/-- Reads what follows the source name of a prototype, with a reader for inner prototypes. -/
def readBody
    (inner : CheckedReader Prototype)
    (sourceName : String) : CheckedReader Prototype := do
  let lineDefined ← readInt header
  let lastLineDefined ← readInt header
  let upvalueCount ← byte
  let parameterCount ← byte
  let vararg ← byte
  let maxStackSize ← byte
  let instructions ← readSection header (Instruction.decode <$> word)
  let constants ← readSection header (readConstant header)
  let children ← readSection header inner
  let lineInfo ← readSection header (zeroBasedLine <$> readInt header)
  let locals ← readSection header (readLocal header)
  let upvalueNames ← readSection header (readString header)
  return .node {
    sourceName
    lineDefined
    lastLineDefined
    upvalueCount
    parameterCount
    vararg := ⟨vararg⟩
    maxStackSize
    instructions
    constants
    lineInfo
    locals
    upvalueNames } children

/-- A prototype whose inner prototypes lie at most `depth - 1` deep. -/
def readPrototype :
    Nat → CheckedReader Prototype
  | 0 => throw .tooDeep
  | depth + 1 => do readBody header (readPrototype depth) (← readString header)

end Parts

/-- Reads a chunk; inner prototypes may lie as deep as there are unread bytes. -/
def readChunk : CheckedReader Chunk := do
  let header ← readHeader
  modify fun window => { window with order := header.order }
  let main ← readPrototype header ((← get).remaining + 1)
  return { header, main }

end CheckedReader

/-- The chunk at the front of a byte string, or what stops its being read. -/
def Chunk.readChecked
    (bytes : List UInt8) : Except Fault Chunk :=
  match CheckedReader.readChunk (Window.ofBytes bytes) with
  | .ok chunk _ => .ok chunk
  | .error fault _ => .error fault

end LuaBytecode
