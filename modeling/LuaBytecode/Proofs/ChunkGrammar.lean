import LuaBytecode.Chunk.Basic
import LuaBytecode.Proofs.StoredIntegers
import LuaBytecode.Proofs.StoredNumbers

/-!
# The grammar of chunks

Which bytes a chunk may be written as.  The relations are stated without a
reader: a number is written by its digits, a number with a fraction by bits of
the same value, a list behind its length.

A chunk has more than one form.  Any byte that is not zero stands for truth and
for little-endian order, a string may end in a zero byte or not, a number that
is none has many bit patterns, and the least two line numbers are stored as one.

**Contents.**
* `Chunk.Occupies`: a chunk, in the two parts `HeaderBytes` and `PrototypeBytes`.
* `SectionBytes`: a list behind its length.
* `StringBytes`, `ConstantBytes`, `InstructionBytes`, `LineBytes`,
  `LocalBytes`: what stands in the lists.
-/

namespace LuaBytecode

/-- The bytes of a natural number. -/
def UnsignedBytes
    (order : ByteOrder)
    (width : Nat)
    (n : Nat)
    (encoded : List UInt8) : Prop :=
  n < 256 ^ width ∧ encoded = order.bytes width n

/-- The bytes of an integer in two's complement. -/
def SignedBytes
    (order : ByteOrder)
    (width : Nat)
    (x : Int)
    (encoded : List UInt8) : Prop :=
  FitsSigned width x ∧ encoded = order.bytes width (residue width x)

/-- A header whose widths can be read. -/
structure Header.Valid
    (header : Header) : Prop where
  int : 1 ≤ header.intWidth ∧ header.intWidth ≤ 8
  size : 1 ≤ header.sizeWidth ∧ header.sizeWidth ≤ 8
  instruction : header.instructionWidth = 4
  number : header.numberWidth = 4 ∨ header.numberWidth = 8

namespace Header.Valid

variable {header : Header} (h : header.Valid)
include h

/-- An integer has between one and eight bytes. -/
theorem intWidth_bounds :
    1 ≤ header.intWidth.toNat ∧ header.intWidth.toNat ≤ 8 :=
  ⟨UInt8.le_iff_toNat_le.1 h.int.1, UInt8.le_iff_toNat_le.1 h.int.2⟩

/-- A length has between one and eight bytes. -/
theorem sizeWidth_bounds :
    1 ≤ header.sizeWidth.toNat ∧ header.sizeWidth.toNat ≤ 8 :=
  ⟨UInt8.le_iff_toNat_le.1 h.size.1, UInt8.le_iff_toNat_le.1 h.size.2⟩

theorem sizeWidth_pos :
    0 < header.sizeWidth.toNat :=
  h.sizeWidth_bounds.1

theorem instructionWidth_eq :
    header.instructionWidth.toNat = 4 := by
  rw [h.instruction]
  rfl

end Header.Valid

/-- The bytes of a header. -/
inductive HeaderBytes : Header → List UInt8 → Prop
  | mk
      {header : Header}
      {orderMark integralMark : UInt8}
      (hversion : header.version = 0x51)
      (horder : orderMark = 0 ↔ header.order = .big)
      (hvalid : header.Valid)
      (hintegral : integralMark ≠ 0 ↔ header.integral = true) :
      HeaderBytes header
        [0x1b, 0x4c, 0x75, 0x61, 0x51, header.format, orderMark, header.intWidth,
          header.sizeWidth, 4, header.numberWidth, integralMark]

/-- Bytes that are the numbers of the characters of a text. -/
def CharacterBytes
    (text : String)
    (encoded : List UInt8) : Prop :=
  text.toList.map Char.toNat = encoded.map UInt8.toNat

/-- The elements of a list one after the other. -/
inductive ItemsBytes
    {α : Type}
    (Encoding : α → List UInt8 → Prop) :
    List α → List UInt8 → Prop
  | nil :
      ItemsBytes Encoding [] []
  | cons
      {item : α} {items : List α}
      {first others : List UInt8}
      (hfirst : Encoding item first)
      (hothers : ItemsBytes Encoding items others) :
      ItemsBytes Encoding (item :: items) (first ++ others)

section Grammar

variable (header : Header)

/-- The format of the numbers of a chunk. -/
def Header.numberFormat : FloatFormat :=
  if header.numberWidth = 4 then
    .single
  else
    .double

/--
The bytes of a string: the number of bytes, then its characters.  A zero byte
may follow them, and must if the last character is itself a zero.
-/
inductive StringBytes : String → List UInt8 → Prop
  | terminated
      {text : String}
      {length characters : List UInt8}
      (hlength :
        UnsignedBytes header.order header.sizeWidth.toNat (characters.length + 1) length)
      (hcharacters : CharacterBytes text characters) :
      StringBytes text (length ++ (characters ++ [0]))
  | bare
      {text : String}
      {length characters : List UInt8}
      (hlength :
        UnsignedBytes header.order header.sizeWidth.toNat characters.length length)
      (hcharacters : CharacterBytes text characters)
      (hlast : characters.getLast? ≠ some 0) :
      StringBytes text (length ++ characters)

/-- The bytes of an instruction are those of its word. -/
def InstructionBytes
    (ins : Instruction)
    (encoded : List UInt8) : Prop :=
  ∃ word : UInt32,
    ins = Instruction.decode word ∧ UnsignedBytes header.order 4 word.toNat encoded

/-- The bytes of a constant: a tag for its kind, then its value. -/
inductive ConstantBytes : Constant → List UInt8 → Prop
  | nil :
      ConstantBytes .nil [0]
  | bool
      {value : Bool}
      {mark : UInt8}
      (hmark : mark ≠ 0 ↔ value = true) :
      ConstantBytes (.bool value) [1, mark]
  | number
      {value : Double}
      {bits : Nat}
      {encoded : List UInt8}
      (hbits : UnsignedBytes header.order header.numberWidth.toNat bits encoded)
      (hvalue : header.numberFormat.value bits = value.value) :
      ConstantBytes (.number value) (3 :: encoded)
  | string
      {text : String}
      {encoded : List UInt8}
      (htext : StringBytes header text encoded) :
      ConstantBytes (.string text) (4 :: encoded)

/-- The bytes of an integer of the width that the header declares. -/
def IntBytes
    (x : Int64)
    (encoded : List UInt8) : Prop :=
  SignedBytes header.order header.intWidth.toNat x.toInt encoded

/-- The bytes of a line counted from 0: those of the line counted from 1, if there is one. -/
def LineBytes
    (line : Int64)
    (encoded : List UInt8) : Prop :=
  ∃ stored : Int64,
    line.toInt = max (stored.toInt - 1) (-2 ^ 63) ∧ IntBytes header stored encoded

/-- The bytes of a local variable: its name and the bounds of its life. -/
inductive LocalBytes : LocalVariable → List UInt8 → Prop
  | mk
      {item : LocalVariable}
      {name startPc endPc : List UInt8}
      (hname : StringBytes header item.name name)
      (hstart : IntBytes header item.startPc startPc)
      (hend : IntBytes header item.endPc endPc) :
      LocalBytes item (name ++ startPc ++ endPc)

/-- The bytes of a list: its length, then its elements. -/
inductive SectionBytes
    {α : Type}
    (Encoding : α → List UInt8 → Prop) :
    List α → List UInt8 → Prop
  | mk
      {items : List α}
      {count encoded : List UInt8}
      (hcount : UnsignedBytes header.order header.intWidth.toNat items.length count)
      (hitems : ItemsBytes Encoding items encoded) :
      SectionBytes Encoding items (count ++ encoded)

/--
The bytes of a function and of the functions defined in it.  The list of the
latter is a section like the others, in which the relation recurs.
-/
inductive PrototypeBytes : Prototype → List UInt8 → Prop
  | node
      {info : FunctionInfo}
      {children : List Prototype}
      {source first last code constants count inner lines locals upvalues : List UInt8}
      (hsource : StringBytes header info.sourceName source)
      (hfirst : IntBytes header info.lineDefined first)
      (hlast : IntBytes header info.lastLineDefined last)
      (hcode : SectionBytes header (InstructionBytes header) info.instructions code)
      (hconstants : SectionBytes header (ConstantBytes header) info.constants constants)
      (hcount : UnsignedBytes header.order header.intWidth.toNat children.length count)
      (hinner : ItemsBytes PrototypeBytes children inner)
      (hlines : SectionBytes header (LineBytes header) info.lineInfo lines)
      (hlocals : SectionBytes header (LocalBytes header) info.locals locals)
      (hupvalues : SectionBytes header (StringBytes header) info.upvalueNames upvalues) :
      PrototypeBytes (.node info children)
        (source ++ first ++ last ++
          [info.upvalueCount, info.parameterCount, info.vararg.bits, info.maxStackSize] ++
          code ++ constants ++ (count ++ inner) ++ lines ++ locals ++ upvalues)

end Grammar

/-- The bytes of a chunk: those of its header, then those of its main prototype. -/
structure Chunk.Occupies
    (chunk : Chunk)
    (front body : List UInt8) : Prop where
  header : HeaderBytes chunk.header front
  main : PrototypeBytes chunk.header chunk.main body

end LuaBytecode
