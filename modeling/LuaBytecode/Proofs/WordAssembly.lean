import LuaBytecode.Proofs.WordFields

/-!
# Putting instruction words together

An operation, A and an operand are put together by their bits: the code from bit
0 on, A from bit 6 on, and the eighteen bits of the operand from bit 14 on.  Of
these B has the upper nine and C the lower nine; one number has all of them, and a
signed one is raised by its bias first.

Taking a word apart and putting it together again gives the word.  The other way
round it depends on what is put together: the code has to have six bits and to be
unknown only if the table leaves it out, and the operand has to be one of the
operation's mode whose numbers fit.

**Results.**
* `Word.toNat_assemble`: the parts of a word do not overlap.
* `Opcode.ofCode_code`: the operation of the code of an operation.
* `Instruction.decode_layout`: the fields of a word, and both ways round.
-/

namespace LuaBytecode

/-! ## Operations -/

namespace Opcode

/-- An operation that a word can name. -/
structure InWord
    (opcode : Opcode) : Prop where
  six_bits : opcode.code.toNat < 2 ^ 6
  /-- The codes of the table are not unknown. -/
  undefined : ∀ code, opcode = .unknown code → entry? code = none

theorem ne_unknown_of_mem
    (code : UInt8) :
    ∀ entry ∈ table, entry.opcode ≠ .unknown code := by
  simp [table]

@[simp] theorem mode_unknown
    (code : UInt8) :
    (unknown code).mode = .abc := by
  have hnone : description? (.unknown code) = none := by
    simpa [description?] using ne_unknown_of_mem code
  rw [mode, hnone]

/-- A code leads back to the operation that it is the code of. -/
theorem ofCode_code
    {opcode : Opcode}
    (h : opcode.InWord) :
    ofCode opcode.code = opcode := by
  cases opcode with
  | unknown code =>
      rw [Opcode.code, ofCode, h.undefined code rfl]
  | _ =>
      rfl

/-- The operation of a code of six bits can be named by a word. -/
theorem inWord_ofCode
    {code : UInt8}
    (h : code.toNat < 2 ^ 6) :
    (ofCode code).InWord := by
  refine ⟨by rwa [code_ofCode], fun unlisted hunlisted => ?_⟩
  have hcode : code = unlisted := by
    rw [← code_ofCode code, hunlisted, Opcode.code]
  subst hcode
  cases hentry : entry? code with
  | none =>
      rfl
  | some entry =>
      have hmem : entry ∈ table := List.mem_of_getElem? hentry
      rw [ofCode, hentry] at hunlisted
      exact absurd hunlisted (ne_unknown_of_mem code entry hmem)

end Opcode

/-! ## Operands -/

namespace Operand

/-- The mode that divides a word into numbers like these. -/
def mode :
    Operand → OperandMode
  | .abc _ _ => .abc
  | .bx _ => .abx
  | .sbx _ => .asbx

/-- Whether the numbers of an operand fit into their bits. -/
def InRange :
    Operand → Prop
  | .abc b c => b.toNat < 2 ^ 9 ∧ c.toNat < 2 ^ 9
  | .bx index => index.toNat < 2 ^ 18
  | .sbx offset => -131072 ≤ offset.toInt ∧ offset.toInt ≤ 131071

/-- The bits of an operand, from the least significant one on. -/
def bits :
    Operand → UInt32
  | .abc b c => c.toUInt32 ||| b.toUInt32 <<< 9
  | .bx index => index
  | .sbx offset => UInt32.ofNat (offset.toInt + Word.bias).toNat

end Operand

namespace Word

/-- The word of an operation, A and an operand. -/
def assemble
    (opcode : Opcode)
    (a : UInt8)
    (operand : Operand) : UInt32 :=
  opcode.code.toUInt32 ||| a.toUInt32 <<< 6 ||| operand.bits <<< 14

/-- Bits from the place `n` on add up with the bits below it. -/
theorem toNat_or_shiftLeft
    {low high place : UInt32}
    {n : Nat}
    (hplace : place.toNat = n)
    (hn : n < 32)
    (hlow : low.toNat < 2 ^ n)
    (hhigh : high.toNat * 2 ^ n < 2 ^ 32) :
    (low ||| high <<< place).toNat = low.toNat + high.toNat * 2 ^ n := by
  rw [UInt32.toNat_or, UInt32.toNat_shiftLeft, hplace, Nat.mod_eq_of_lt hn, Nat.shiftLeft_eq,
    Nat.mod_eq_of_lt hhigh, Nat.or_comm, Nat.mul_comm, ← Nat.two_pow_add_eq_or_of_lt hlow,
    Nat.add_comm]

end Word

namespace Operand

/-- B stands above C. -/
theorem toNat_bits_abc
    {b c : UInt16}
    (h : (abc b c).InRange) :
    (abc b c).bits.toNat = 512 * b.toNat + c.toNat := by
  obtain ⟨hb, hc⟩ := h
  rw [← UInt16.toNat_toUInt32] at hb hc
  have hbits : (c.toUInt32 ||| b.toUInt32 <<< 9).toNat =
      c.toUInt32.toNat + b.toUInt32.toNat * 2 ^ 9 :=
    Word.toNat_or_shiftLeft rfl (by decide) hc (by omega)
  rw [bits, hbits, UInt16.toNat_toUInt32, UInt16.toNat_toUInt32]
  omega

/-- A signed number is raised by the bias. -/
theorem toNat_bits_sbx
    {offset : Int32}
    (h : (sbx offset).InRange) :
    ((sbx offset).bits.toNat : Int) = offset.toInt + 131072 := by
  obtain ⟨hlow, hhigh⟩ := h
  rw [bits, Word.bias, UInt32.toNat_ofNat']
  omega

theorem toNat_bits_lt
    {operand : Operand}
    (h : operand.InRange) :
    operand.bits.toNat < 2 ^ 18 := by
  cases operand with
  | abc b c =>
      have hbits := toNat_bits_abc h
      obtain ⟨hb, hc⟩ := h
      omega
  | bx index =>
      exact h
  | sbx offset =>
      have hbits := toNat_bits_sbx h
      obtain ⟨hlow, hhigh⟩ := h
      omega

/-- Operands of one mode whose numbers fit are told apart by their bits. -/
theorem eq_of_bits
    {first second : Operand}
    (hfirst : first.InRange)
    (hsecond : second.InRange)
    (hmode : first.mode = second.mode)
    (hbits : first.bits.toNat = second.bits.toNat) :
    first = second := by
  cases first with
  | abc b c =>
      cases second with
      | abc b' c' =>
          rw [toNat_bits_abc hfirst, toNat_bits_abc hsecond] at hbits
          obtain ⟨-, hc⟩ := hfirst
          obtain ⟨-, hc'⟩ := hsecond
          have hb : b = b' := UInt16.toNat_inj.1 (by omega)
          have hc : c = c' := UInt16.toNat_inj.1 (by omega)
          rw [hb, hc]
      | _ =>
          cases hmode
  | bx index =>
      cases second with
      | bx index' =>
          exact congrArg bx (UInt32.toNat_inj.1 hbits)
      | _ =>
          cases hmode
  | sbx offset =>
      cases second with
      | sbx offset' =>
          have hoffset := toNat_bits_sbx hfirst
          have hoffset' := toNat_bits_sbx hsecond
          exact congrArg sbx (Int32.toInt_inj.1 (by omega))
      | _ =>
          cases hmode

end Operand

/-! ## Words -/

namespace Word

/-- The parts of a word do not overlap. -/
theorem toNat_assemble
    {opcode : Opcode}
    {operand : Operand}
    (a : UInt8)
    (hcode : opcode.code.toNat < 2 ^ 6)
    (hrange : operand.InRange) :
    (assemble opcode a operand).toNat =
      opcode.code.toNat + 64 * a.toNat + 16384 * operand.bits.toNat := by
  have ha : a.toUInt32.toNat < 2 ^ 8 := by
    rw [UInt8.toNat_toUInt32]
    exact a.toNat_lt
  have hbits := operand.toNat_bits_lt hrange
  rw [← UInt8.toNat_toUInt32] at hcode
  have hlow : (opcode.code.toUInt32 ||| a.toUInt32 <<< 6).toNat =
      opcode.code.toUInt32.toNat + a.toUInt32.toNat * 2 ^ 6 :=
    toNat_or_shiftLeft rfl (by decide) hcode (by omega)
  have hword : (opcode.code.toUInt32 ||| a.toUInt32 <<< 6 ||| operand.bits <<< 14).toNat =
      (opcode.code.toUInt32 ||| a.toUInt32 <<< 6).toNat + operand.bits.toNat * 2 ^ 14 :=
    toNat_or_shiftLeft rfl (by decide) (by omega) (by omega)
  rw [assemble, hword, hlow, UInt8.toNat_toUInt32, UInt8.toNat_toUInt32]
  omega

end Word

namespace Instruction

variable (mode : OperandMode) (word : UInt32)

theorem mode_operandOf :
    (operandOf mode word).mode = mode := by
  cases mode <;> rfl

theorem inRange_operandOf :
    (operandOf mode word).InRange := by
  have hb := Word.b_toNat_lt word
  have hc := Word.c_toNat_lt word
  have hbx := Word.toNat_bx word
  cases mode with
  | abc =>
      exact ⟨hb, hc⟩
  | abx =>
      show (Word.bx word).toNat < 2 ^ 18
      omega
  | asbx =>
      have hsbx := Word.toInt_sbx word
      rw [Word.bias] at hsbx
      constructor <;> omega

/-- The operand of a word has its bits, whatever the mode. -/
theorem toNat_bits_operandOf :
    (operandOf mode word).bits.toNat = word.toNat / 16384 := by
  have hrange := inRange_operandOf mode word
  have hbx := Word.toNat_bx_eq_div word
  cases mode with
  | abc =>
      rw [operandOf, Operand.toNat_bits_abc hrange, ← hbx, Word.toNat_bx]
  | abx =>
      exact hbx
  | asbx =>
      have hbits := Operand.toNat_bits_sbx hrange
      have hsbx := Word.toInt_sbx word
      rw [Word.bias] at hsbx
      rw [operandOf]
      omega

theorem code_op_decode :
    (decode word).op.code = Word.code word :=
  Opcode.code_ofCode (Word.code word)

/-- What a word holds can be held by a word. -/
theorem fits_decode :
    (decode word).op.InWord ∧ (decode word).operand.mode = (decode word).op.mode ∧
      (decode word).operand.InRange :=
  ⟨Opcode.inWord_ofCode (Word.code_toNat_lt word), mode_operandOf _ word,
    inRange_operandOf _ word⟩

/-- A word is put together again from the operation, A and the operand that it holds. -/
theorem assemble_decode :
    Word.assemble (decode word).op (decode word).a (decode word).operand = word := by
  obtain ⟨hopcode, -, hrange⟩ := fits_decode word
  have ha : (decode word).a.toNat = word.toNat / 64 % 256 := Word.toNat_a word
  have hbits : (decode word).operand.bits.toNat = word.toNat / 16384 :=
    toNat_bits_operandOf _ word
  rw [← UInt32.toNat_inj, Word.toNat_assemble _ hopcode.six_bits hrange, code_op_decode, ha,
    hbits, Word.toNat_code]
  omega

/-- Whatever is put together is found in the word again, of which only its sum is needed. -/
theorem decode_assemble
    {opcode : Opcode}
    {operand : Operand}
    (a : UInt8)
    (hopcode : opcode.InWord)
    (hmode : operand.mode = opcode.mode)
    (hrange : operand.InRange) :
    decode (Word.assemble opcode a operand) =
      ⟨Word.assemble opcode a operand, opcode, a, operand⟩ := by
  have ha : a.toNat < 256 := a.toNat_lt
  have hsix := hopcode.six_bits
  have hsum := Word.toNat_assemble a hsix hrange
  generalize Word.assemble opcode a operand = word at hsum
  have hcode : Word.code word = opcode.code :=
    UInt8.toNat_inj.1 (by rw [Word.toNat_code]; omega)
  have haword : Word.a word = a :=
    UInt8.toNat_inj.1 (by rw [Word.toNat_a]; omega)
  have hoperand : operandOf opcode.mode word = operand := by
    refine Operand.eq_of_bits (inRange_operandOf _ word) hrange ?_ ?_
    · rw [mode_operandOf, hmode]
    · rw [toNat_bits_operandOf]
      omega
  rw [decode, hcode, Opcode.ofCode_code hopcode, haword, hoperand]

/--
The layout of words.  The fields of a word make it up, the code from bit 0 on, A
from bit 6, C from bit 14 and B from bit 23; Bx is all that stands from bit 14 on,
and sBx is Bx less the bias.  The operand is what the mode of the operation makes
of these, B and C if the code is unknown, and the word is put together again from
the operation, A and the operand.

An operation, A and an operand are found again in the word that they are put
together to just if a word can name the operation, the operand has its mode, and
the numbers of the operand fit.
-/
theorem decode_layout :
    (∀ word : UInt32,
      let ins := decode word
      ins.op.code.toNat + 64 * ins.a.toNat + 2 ^ 14 * ins.c.toNat + 2 ^ 23 * ins.b.toNat =
          word.toNat ∧
        ins.bx.toNat = word.toNat / 2 ^ 14 ∧
        ins.sbx.toInt = ins.bx.toNat - 131072 ∧
        -131072 ≤ ins.sbx.toInt ∧ ins.sbx.toInt ≤ 131071 ∧
        ins.operand =
          (match ins.op.mode with
          | .abc => .abc ins.b ins.c
          | .abx => .bx ins.bx
          | .asbx => .sbx ins.sbx) ∧
        Word.assemble ins.op ins.a ins.operand = word) ∧
    (∀ code, (Opcode.unknown code).mode = .abc) ∧
    ∀ (opcode : Opcode) (a : UInt8) (operand : Operand),
      decode (Word.assemble opcode a operand) =
          ⟨Word.assemble opcode a operand, opcode, a, operand⟩ ↔
        opcode.InWord ∧ operand.mode = opcode.mode ∧ operand.InRange := by
  refine ⟨fun word => ?_, Opcode.mode_unknown, fun opcode a operand => ⟨fun h => ?_, ?_⟩⟩
  · intro ins
    have hbx : ins.bx.toNat = word.toNat / 2 ^ 14 := Word.toNat_bx_eq_div word
    have hsbx : ins.sbx.toInt = ins.bx.toNat - 131072 := Word.toInt_sbx word
    obtain ⟨hlow, hhigh⟩ := inRange_operandOf .asbx word
    refine ⟨?_, hbx, hsbx, hlow, hhigh, ?_, assemble_decode word⟩
    · rw [show ins.op.code = Word.code word from code_op_decode word]
      exact Word.sum_fields word
    · show operandOf ins.op.mode word = _
      cases ins.op.mode <;> rfl
  · have hfits := fits_decode (Word.assemble opcode a operand)
    rw [h] at hfits
    exact hfits
  · rintro ⟨hopcode, hmode, hrange⟩
    exact decode_assemble a hopcode hmode hrange

/-- A jump back by two. -/
example : decode 0x7FFF8016 = ⟨0x7FFF8016, .jmp, 0, .sbx (-2)⟩ := by
  decide

end Instruction

end LuaBytecode
