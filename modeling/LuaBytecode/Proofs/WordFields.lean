import LuaBytecode.Instruction
import Mathlib.Tactic

/-!
# The fields of an instruction word

The code, A, B and C of a word lie side by side and leave no bit out, so a word is
the sum of its fields, each at its place.  The code is kept by the operation that
it stands for, and B and C are kept by the operand, whichever way the operation
divides them.

**Results.**
* `Word.sum_fields`: a word from its fields.
* `Opcode.code_ofCode`: the code of an operation.
* `Instruction.eq_of_decode`: a word from the operation, A and the operand.
-/

namespace LuaBytecode

/-! ## Fields -/

namespace Word

variable (word : UInt32)

theorem toNat_code :
    (code word).toNat = word.toNat % 64 := by
  rw [code, UInt8.toNat_ofNat']
  simp only [Nat.reducePow]
  omega

theorem toNat_a :
    (a word).toNat = word.toNat / 64 % 256 := by
  rw [a, UInt8.toNat_ofNat']
  simp only [Nat.reducePow]
  omega

theorem toNat_c :
    (c word).toNat = word.toNat / 16384 % 512 := by
  rw [c, UInt16.toNat_ofNat']
  simp only [Nat.reducePow]
  omega

theorem toNat_b :
    (b word).toNat = word.toNat / 8388608 := by
  have hword := word.toNat_lt
  rw [b, UInt16.toNat_ofNat']
  simp only [Nat.reducePow] at hword ⊢
  omega

theorem toNat_bx :
    (bx word).toNat = 512 * (b word).toNat + (c word).toNat := by
  have hb := toNat_b word
  have hc := toNat_c word
  have hword := word.toNat_lt
  rw [bx, UInt32.toNat_ofNat']
  simp only [Nat.reducePow] at hword ⊢
  omega

/-- The fields of a word, each at its place, are the whole word. -/
theorem sum_fields :
    (code word).toNat + 64 * (a word).toNat + 16384 * (c word).toNat +
        8388608 * (b word).toNat =
      word.toNat := by
  rw [toNat_code, toNat_a, toNat_c, toNat_b]
  omega

/-- A word is determined by its fields. -/
theorem eq_of_fields
    {first second : UInt32}
    (hcode : code first = code second)
    (ha : a first = a second)
    (hb : b first = b second)
    (hc : c first = c second) :
    first = second := by
  rw [← UInt32.toNat_inj, ← sum_fields first, ← sum_fields second, hcode, ha, hb, hc]

theorem code_toNat_lt :
    (code word).toNat < 64 := by
  rw [toNat_code]
  omega

theorem b_toNat_lt :
    (b word).toNat < 512 := by
  have hword := word.toNat_lt
  rw [toNat_b]
  simp only [Nat.reducePow] at hword
  omega

theorem c_toNat_lt :
    (c word).toNat < 512 := by
  rw [toNat_c]
  omega

/-- Bx is what stands above A. -/
theorem toNat_bx_eq_div :
    (bx word).toNat = word.toNat / 16384 := by
  rw [toNat_bx, toNat_b, toNat_c]
  omega

/-- B and C are determined by the number that they make up. -/
theorem fields_of_bx
    {first second : UInt32}
    (h : bx first = bx second) :
    b first = b second ∧ c first = c second := by
  have hbx := congrArg UInt32.toNat h
  have hfirst := c_toNat_lt first
  have hsecond := c_toNat_lt second
  rw [toNat_bx, toNat_bx] at hbx
  exact ⟨UInt16.toNat_inj.1 (by omega), UInt16.toNat_inj.1 (by omega)⟩

theorem toInt_sbx :
    (sbx word).toInt = (bx word).toNat - bias := by
  have hb := b_toNat_lt word
  have hc := c_toNat_lt word
  rw [sbx, toNat_bx, bias, Int32.toInt_ofInt]
  refine Int.bmod_eq_of_le ?_ ?_ <;> simp only [Int32.size] <;> omega

end Word

/-! ## Codes -/

namespace Opcode

theorem code_getElem :
    ∀ place (h : place < table.length), (table[place].opcode.code).toNat = place := by
  decide

/-- An operation keeps its code. -/
theorem code_ofCode
    (code : UInt8) :
    (ofCode code).code = code := by
  rw [ofCode, entry?]
  cases hentry : table[code.toNat]? with
  | none =>
      rfl
  | some entry =>
      obtain ⟨hplace, rfl⟩ := List.getElem?_eq_some_iff.1 hentry
      exact UInt8.toNat_inj.1 (code_getElem code.toNat hplace)

end Opcode

/-! ## Operands -/

namespace Instruction

variable {first second : UInt32}

/-- B and C are determined by the operand, under every mode. -/
theorem fields_of_operandOf
    {mode : OperandMode}
    (h : operandOf mode first = operandOf mode second) :
    Word.b first = Word.b second ∧ Word.c first = Word.c second := by
  cases mode with
  | abc =>
      exact Operand.abc.inj h
  | abx =>
      exact Word.fields_of_bx (Operand.bx.inj h)
  | asbx =>
      have hsbx := congrArg Int32.toInt (Operand.sbx.inj h)
      rw [Word.toInt_sbx, Word.toInt_sbx] at hsbx
      exact Word.fields_of_bx (UInt32.toNat_inj.1 (by omega))

/-- A word is determined by the operation, A and the operand that it holds. -/
theorem eq_of_decode
    (hop : (decode first).op = (decode second).op)
    (ha : (decode first).a = (decode second).a)
    (hoperand : (decode first).operand = (decode second).operand) :
    first = second := by
  have hcode : Word.code first = Word.code second := by
    have hcodes := congrArg Opcode.code hop
    rwa [decode, decode, Opcode.code_ofCode, Opcode.code_ofCode] at hcodes
  simp only [decode, ← hcode] at hoperand
  obtain ⟨hb, hc⟩ := fields_of_operandOf hoperand
  exact Word.eq_of_fields hcode ha hb hc

end Instruction
end LuaBytecode
