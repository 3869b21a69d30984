import LuaBytecode.Proofs.WordFields

/-!
# Instructions as they are shown

A listing shows an instruction as words with blanks between them: the name of the
operation, which blanks fill up to a column, then A, then the numbers of the
operand.  A name holds no blank, and so it ends at the first one also where it is
longer than the column.  Names and numbers determine what they stand for, and the
operation says how many numbers there are and how they divide the word.

**Results.**
* `Opcode.text_injective`: the name of an operation.
* `Instruction.eq_of_text_eq`: the words of a shown instruction.
* `Instruction.text_decode_inj`: an instruction word and its text.
-/

namespace LuaBytecode

/-! ## Words and blanks -/

/-- Where the first blank stands is the same in both readings of a text. -/
theorem append_blank_inj
    {first second rest rest' : List Char}
    (hfirst : ' ' ∉ first)
    (hsecond : ' ' ∉ second)
    (h : first ++ ' ' :: rest = second ++ ' ' :: rest') :
    first = second ∧ rest = rest' := by
  induction first generalizing second with
  | nil =>
      cases second with
      | nil =>
          exact ⟨rfl, (List.cons.inj h).2⟩
      | cons char others =>
          have hchar : ' ' = char := (List.cons.inj h).1
          exact absurd (hchar ▸ List.mem_cons_self) hsecond
  | cons char chars ih =>
      cases second with
      | nil =>
          have hchar : char = ' ' := (List.cons.inj h).1
          exact absurd (hchar ▸ List.mem_cons_self) hfirst
      | cons other others =>
          obtain ⟨rfl, htail⟩ := List.cons.inj h
          obtain ⟨rfl, hrest⟩ := ih (fun hmem => hfirst (List.mem_cons_of_mem _ hmem))
            (fun hmem => hsecond (List.mem_cons_of_mem _ hmem)) htail
          exact ⟨rfl, hrest⟩

/-! ## Numbers -/

theorem isDigit_toString
    (number : Nat) :
    ∀ char ∈ (toString number).toList, char.isDigit = true := by
  intro char hchar
  rw [Nat.toString_eq_repr, Nat.toList_repr] at hchar
  exact Nat.isDigit_of_mem_toDigits (by decide) (by decide) hchar

theorem blank_notMem_toString
    (number : Nat) :
    ' ' ∉ (toString number).toList :=
  fun hmem => absurd (isDigit_toString number ' ' hmem) (by decide)

/-- Numbers are determined by their digits. -/
theorem toString_nat_inj
    {first second : Nat}
    (h : (toString first).toList = (toString second).toList) :
    first = second := by
  have hvalue := congrArg (fun digits => Nat.ofDigitChars 10 digits 0) h
  simpa only [Nat.toString_eq_repr, Nat.toList_repr, Nat.ofDigitChars_ten_toDigits] using hvalue

/-- And so are numbers with a sign, since no digit is one. -/
theorem toString_int_inj
    {first second : Int}
    (h : (toString first).toList = (toString second).toList) :
    first = second := by
  have hnegative (below : Nat) :
      (toString (Int.negSucc below)).toList = '-' :: (toString (below + 1)).toList := by
    have htext : toString (Int.negSucc below) = "-" ++ toString (below + 1) := rfl
    rw [htext, String.toList_append]
    rfl
  have hsign (size below : Nat) :
      (toString size).toList ≠ '-' :: (toString (below + 1)).toList := fun hsame =>
    absurd (isDigit_toString size '-' (hsame ▸ List.mem_cons_self)) (by decide)
  cases first with
  | ofNat size =>
      cases second with
      | ofNat size' =>
          exact congrArg Int.ofNat (toString_nat_inj h)
      | negSucc below =>
          rw [hnegative] at h
          exact absurd h (hsign size below)
  | negSucc below =>
      rw [hnegative] at h
      cases second with
      | ofNat size =>
          exact absurd h.symm (hsign size below)
      | negSucc below' =>
          rw [hnegative] at h
          have hsize := toString_nat_inj (List.cons.inj h).2
          exact congrArg Int.negSucc (Nat.succ.inj hsize)

/-! ## Names -/

namespace Opcode

/-- The name of an operation of the table is the name of that operation only. -/
theorem find?_mnemonic :
    ∀ entry ∈ table,
      (table.find? fun other => other.mnemonic == entry.mnemonic).map Entry.opcode =
        some entry.opcode := by
  decide

theorem notMem_mnemonic :
    ∀ entry ∈ table, ' ' ∉ entry.mnemonic.toList ∧ '(' ∉ entry.mnemonic.toList := by
  decide

/-- An operation of the table is shown by its name, and an undefined code by its number. -/
theorem text_cases
    (op : Opcode) :
    (∃ entry ∈ table, entry.opcode = op ∧ op.text = entry.mnemonic) ∨
      ∃ code, op = .unknown code ∧ op.text = "UNKNOWN(" ++ toString code.toNat ++ ")" := by
  cases hentry : op.description? with
  | none =>
      cases op with
      | unknown code =>
          exact Or.inr ⟨code, rfl, rfl⟩
      | _ =>
          cases hentry
  | some entry =>
      have hopcode : entry.opcode = op := by
        simpa using List.find?_some hentry
      refine Or.inl ⟨entry, List.mem_of_find?_eq_some hentry, hopcode, ?_⟩
      have hname : op.name = entry.mnemonic := by
        rw [name, hentry]
      rw [← hname]
      cases op with
      | unknown code =>
          cases hentry
      | _ =>
          rfl

theorem blank_notMem_text
    (op : Opcode) :
    ' ' ∉ op.text.toList := by
  obtain ⟨entry, hmem, -, htext⟩ | ⟨code, -, htext⟩ := op.text_cases
  · rw [htext]
    exact (notMem_mnemonic entry hmem).1
  · have hcode := blank_notMem_toString code.toNat
    rw [htext]
    simp only [String.toList_append, List.mem_append, not_or]
    exact ⟨⟨by decide, hcode⟩, by decide⟩

/-- An operation is determined by how it is shown, an undefined code among others. -/
theorem text_injective :
    Function.Injective text := by
  intro first second h
  obtain ⟨entry, hmem, rfl, htext⟩ | ⟨code, rfl, htext⟩ := first.text_cases
  · obtain ⟨entry', hmem', rfl, htext'⟩ | ⟨code, rfl, htext'⟩ := second.text_cases
    · have hname : entry.mnemonic = entry'.mnemonic := by
        rw [← htext, ← htext', h]
      have hfirst := find?_mnemonic entry hmem
      rw [hname, find?_mnemonic entry' hmem'] at hfirst
      exact (Option.some.inj hfirst).symm
    · rw [h, htext'] at htext
      have hparenthesis := (notMem_mnemonic entry hmem).2
      rw [← htext] at hparenthesis
      exact absurd (by simp) hparenthesis
  · obtain ⟨entry', hmem', rfl, htext'⟩ | ⟨code', rfl, htext'⟩ := second.text_cases
    · rw [← h, htext] at htext'
      have hparenthesis := (notMem_mnemonic entry' hmem').2
      rw [← htext'] at hparenthesis
      exact absurd (by simp) hparenthesis
    · rw [htext, htext'] at h
      have hlist := congrArg String.toList h
      simp only [String.toList_append, List.append_left_inj, List.append_right_inj] at hlist
      rw [UInt8.toNat_inj.1 (toString_nat_inj hlist)]

end Opcode

/-! ## Instructions -/

namespace Instruction

/-- The numbers of an operand stand behind a blank. -/
theorem exists_operandText_eq
    (operand : Operand) :
    ∃ rest, (operandText operand).toList = ' ' :: rest := by
  cases operand with
  | abc b c =>
      exact ⟨_, by simp only [operandText, String.toList_append]; rfl⟩
  | bx index =>
      exact ⟨_, by simp only [operandText, String.toList_append]; rfl⟩
  | sbx offset =>
      exact ⟨_, by simp only [operandText, String.toList_append]; rfl⟩

/-- The words of an instruction, the blanks that fill the column standing behind the first one. -/
theorem toList_text
    (ins : Instruction) :
    ins.text.toList =
      ins.op.text.toList ++ ' ' :: (List.replicate (10 - ins.op.text.length) ' ' ++
        ((toString ins.a.toNat).toList ++ (operandText ins.operand).toList)) := by
  have hblanks : List.replicate (10 - ins.op.text.length) ' ' ++ [' '] =
      ' ' :: List.replicate (10 - ins.op.text.length) ' ' := by
    rw [← List.replicate_succ', List.replicate_succ]
  have hblank : " ".toList = [' '] := rfl
  rw [text, padded]
  simp only [String.toList_append, String.toList_ofList, List.append_assoc, hblank]
  rw [← List.append_assoc (List.replicate _ ' '), hblanks]
  rfl

/-- The operation, A and the numbers of the operand are told by the text. -/
theorem eq_of_text_eq
    {first second : Instruction}
    (h : first.text = second.text) :
    first.op = second.op ∧ first.a = second.a ∧
      operandText first.operand = operandText second.operand := by
  have hlist := congrArg String.toList h
  rw [toList_text, toList_text] at hlist
  obtain ⟨hname, hcolumn⟩ :=
    append_blank_inj first.op.blank_notMem_text second.op.blank_notMem_text hlist
  have hop : first.op = second.op := Opcode.text_injective (String.toList_inj.1 hname)
  rw [hop, List.append_right_inj] at hcolumn
  obtain ⟨rest, hrest⟩ := exists_operandText_eq first.operand
  obtain ⟨rest', hrest'⟩ := exists_operandText_eq second.operand
  rw [hrest, hrest'] at hcolumn
  obtain ⟨ha, rfl⟩ :=
    append_blank_inj (blank_notMem_toString _) (blank_notMem_toString _) hcolumn
  refine ⟨hop, UInt8.toNat_inj.1 (toString_nat_inj ha), String.toList_inj.1 ?_⟩
  rw [hrest, hrest']

/-- Operands of one mode are told by their numbers. -/
theorem operandOf_eq_of_text
    {mode : OperandMode}
    {first second : UInt32}
    (h : operandText (operandOf mode first) = operandText (operandOf mode second)) :
    operandOf mode first = operandOf mode second := by
  have hlist := congrArg String.toList h
  cases mode with
  | abc =>
      simp only [operandOf, operandText, String.toList_append, List.append_assoc,
        List.append_right_inj] at hlist
      obtain ⟨hb, hc⟩ :=
        append_blank_inj (blank_notMem_toString _) (blank_notMem_toString _) hlist
      rw [operandOf, operandOf, UInt16.toNat_inj.1 (toString_nat_inj hb),
        UInt16.toNat_inj.1 (toString_nat_inj hc)]
  | abx =>
      simp only [operandOf, operandText, String.toList_append, List.append_right_inj] at hlist
      rw [operandOf, operandOf, UInt32.toNat_inj.1 (toString_nat_inj hlist)]
  | asbx =>
      simp only [operandOf, operandText, String.toList_append, List.append_right_inj] at hlist
      rw [operandOf, operandOf, Int32.toInt_inj.1 (toString_int_inj hlist)]

/--
Different words are shown by different texts.  This holds for every operation,
whether its name fills the column, is as long as that or longer, and whether its
operand is B and C or one number with or without a sign.
-/
theorem text_decode_inj
    (first second : UInt32) :
    (decode first).text = (decode second).text ↔ first = second := by
  refine ⟨fun h => ?_, fun h => h ▸ rfl⟩
  obtain ⟨hop, ha, htext⟩ := eq_of_text_eq h
  refine eq_of_decode hop ha ?_
  have hmode : (Opcode.ofCode (Word.code first)).mode = (Opcode.ofCode (Word.code second)).mode :=
    congrArg Opcode.mode hop
  simp only [decode, hmode] at htext ⊢
  exact operandOf_eq_of_text htext

end Instruction
end LuaBytecode
