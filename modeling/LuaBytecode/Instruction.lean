import LuaBytecode.Bytes
import LuaBytecode.Opcode

/-!
# Instruction words

An instruction is a word of 32 bits.  From the least significant bit on it
holds six bits of operation code, eight bits of A, nine bits of C and nine bits
of B; B and C together are the number Bx, and Bx less a bias is the signed sBx.

**Contents.**
* `Instruction.decode`: the instruction held by a word; no word is refused.
* The fields of the word: `Instruction.b`, `c`, `bx`, `sbx`.
* `Rk.ofField`: whether a B or C field names a register or a constant.
* `Instruction.text`: one line of a listing.
-/

namespace LuaBytecode

/-- What an instruction carries beyond A. -/
inductive Operand where
  | abc (b : UInt16) (c : UInt16)
  | bx (index : UInt32)
  | sbx (offset : Int32)
  deriving DecidableEq

/--
An instruction: its word beside the operation, A and the operand.  Those of a
decoded word agree with it; a loaded dump may hold others.
-/
structure Instruction where
  raw : UInt32
  op : Opcode
  a : UInt8
  operand : Operand
  deriving DecidableEq

namespace Word

/-- The operation code of a word. -/
def code
    (word : UInt32) : UInt8 :=
  UInt8.ofNat (word.toNat % 2 ^ 6)

/-- The A field of a word. -/
def a
    (word : UInt32) : UInt8 :=
  UInt8.ofNat (word.toNat / 2 ^ 6 % 2 ^ 8)

/-- The C field of a word. -/
def c
    (word : UInt32) : UInt16 :=
  UInt16.ofNat (word.toNat / 2 ^ 14 % 2 ^ 9)

/-- The B field of a word. -/
def b
    (word : UInt32) : UInt16 :=
  UInt16.ofNat (word.toNat / 2 ^ 23 % 2 ^ 9)

/-- B and C as one number. -/
def bx
    (word : UInt32) : UInt32 :=
  UInt32.ofNat ((b word).toNat * 2 ^ 9 + (c word).toNat)

/-- What is subtracted from Bx to make it signed. -/
def bias : Int := 131072

/-- B and C as one signed number. -/
def sbx
    (word : UInt32) : Int32 :=
  Int32.ofInt ((bx word).toNat - bias)

end Word

namespace Instruction

/-- The B field of the word, whatever the operation. -/
def b
    (ins : Instruction) : UInt16 :=
  Word.b ins.raw

/-- The C field of the word, whatever the operation. -/
def c
    (ins : Instruction) : UInt16 :=
  Word.c ins.raw

/-- The Bx field of the word, whatever the operation. -/
def bx
    (ins : Instruction) : UInt32 :=
  Word.bx ins.raw

/-- The sBx field of the word, whatever the operation. -/
def sbx
    (ins : Instruction) : Int32 :=
  Word.sbx ins.raw

/-- The operand of a word under a mode. -/
def operandOf
    (mode : OperandMode)
    (word : UInt32) : Operand :=
  match mode with
  | .abc => .abc (Word.b word) (Word.c word)
  | .abx => .bx (Word.bx word)
  | .asbx => .sbx (Word.sbx word)

/-- The instruction held by a word. -/
def decode
    (word : UInt32) : Instruction where
  raw := word
  op := Opcode.ofCode (Word.code word)
  a := Word.a word
  operand := operandOf (Opcode.ofCode (Word.code word)).mode word

/-- Text followed by blanks up to a width; longer text is kept whole. -/
def padded
    (width : Nat)
    (text : String) : String :=
  text ++ String.ofList (List.replicate (width - text.length) ' ')

/-- The numbers of an operand, each after a blank. -/
def operandText :
    Operand → String
  | .abc b c => " " ++ toString b.toNat ++ " " ++ toString c.toNat
  | .bx index => " " ++ toString index.toNat
  | .sbx offset => " " ++ toString offset.toInt

/-- The operation, A and the operand in columns. -/
def text
    (ins : Instruction) : String :=
  padded 10 ins.op.text ++ " " ++ toString ins.a.toNat ++ operandText ins.operand

end Instruction

/-- What a B or C field names: a register or a constant. -/
inductive Rk where
  | register (index : UInt16)
  | constant (index : UInt16)
  deriving DecidableEq

/-- Bit 8 chooses the table of constants, and the other bits are the index. -/
def Rk.ofField
    (field : UInt16) : Rk :=
  if field.toNat / 256 % 2 = 1 then
    .constant (UInt16.ofNat (field.toNat - 256))
  else
    .register field

end LuaBytecode
