import LuaBytecode.Proofs.InstructionText
import LuaBytecode.Proofs.LoweringDomain
import Mathlib.Data.List.Intervals

/-!
# Ranges of registers

A call names two ranges of registers, its results and its arguments; clearing
registers and joining them name one.  The ranges are computed from A, B and C by
sums and differences, and none of these leaves the words that it is computed in.

The text of a call tells A, B and C: it has one name for each result, one for the
callee and one for each argument, the callee standing before the parenthesis.

**Results.**
* `Words.below?_eq`, `Words.through?_eq`: ranges that are counted up in words.
* `Statement.registers_eq_Ico`: what is named, as an interval.
* `Statement.callText_inj`: the text of a call.
* `Statement.register_ranges`: the statements of the three operations.
-/

namespace LuaBytecode

/-! ## Words -/

namespace Words

/-- A number as an unsigned word of `width` bits, if it is one. -/
def ofInt?
    (width : Nat)
    (number : Int) : Option Nat :=
  if 0 ≤ number ∧ number < 2 ^ width then
    some number.toNat
  else
    none

/-- The words from `first` on that are below `bound`, if counting up to it stays among them. -/
def below?
    (width : Nat)
    (first : Nat)
    (bound : Nat) : Option (List Nat) :=
  if first < bound then do
    -- the sum has to be a word; the recursion goes on with the number, which is the same
    let _ ← ofInt? width (first + 1)
    let rest ← below? width (first + 1) bound
    return first :: rest
  else
    some []
  termination_by bound - first

/-- The words from `first` up to `last`, where nothing is added to `last`. -/
def through?
    (width : Nat)
    (first : Nat)
    (last : Nat) : Option (List Nat) :=
  if first ≤ last then do
    return (← below? width first last) ++ [last]
  else
    some []

variable {width : Nat}

/-- A natural number that is small enough is a word. -/
theorem ofInt?_natCast
    (number : Nat)
    (h : number < 2 ^ width) :
    ofInt? width number = some number := by
  have hrange : (0 : Int) ≤ number ∧ (number : Int) < 2 ^ width :=
    ⟨Int.natCast_nonneg number, by exact_mod_cast h⟩
  rw [ofInt?, if_pos hrange, Int.toNat_natCast]

/-- Counting up to a bound that is a word gives the numbers below it. -/
theorem below?_eq
    {first bound : Nat}
    (h : bound < 2 ^ width) :
    below? width first bound = some (List.Ico first bound) := by
  induction hcount : bound - first generalizing first with
  | zero =>
      have hle : bound ≤ first := by
        omega
      rw [below?, if_neg (Nat.not_lt.2 hle), List.Ico.eq_nil_of_le hle]
  | succ count ih =>
      have hlt : first < bound := by
        omega
      have hnext : ofInt? width (first + 1) = some (first + 1) := by
        exact_mod_cast ofInt?_natCast (first + 1) (by omega)
      rw [below?, if_pos hlt, hnext, ih (by omega), List.Ico.eq_cons hlt]
      rfl

/-- Counting through the last number gives the numbers up to it. -/
theorem through?_eq
    {first last : Nat}
    (h : last < 2 ^ width) :
    through? width first last = some (List.Ico first (last + 1)) := by
  rw [through?]
  split
  next hle =>
      rw [below?_eq h, List.Ico.succ_top hle]
      rfl
  next hlt =>
      rw [List.Ico.eq_nil_of_le (by omega)]

end Words

/-! ## Texts computed in words -/

namespace Statement

/-- The results of a call with what stands behind them, if the last of them can be computed. -/
def resultsText?
    (width a c : Nat) : Option String :=
  if 2 ≤ c then do
    let sum ← Words.ofInt? width (a + c)
    let last ← Words.ofInt? width (sum - 2)
    let indices ← Words.through? width a last
    return String.intercalate ", " (indices.map register) ++ " = "
  else
    some ""

/-- The arguments of a call, if the bounds of their range can be computed. -/
def argumentsText?
    (width a b : Nat) : Option String := do
  let first ← Words.ofInt? width (a + 1)
  let bound ← Words.ofInt? width (a + b)
  let indices ← Words.below? width first bound
  return String.intercalate ", " (indices.map register)

/-- The text of a call, if both ranges can be computed. -/
def callText?
    (width a b c : Nat) : Option String := do
  let results ← resultsText? width a c
  let arguments ← argumentsText? width a b
  return results ++ register a ++ "(" ++ arguments ++ ")"

/-- The statements that clear registers. -/
def clear?
    (width a b : Nat) : Option (List Statement) := do
  return (← Words.through? width a b).map fun index => assign (register index) "nil"

/-- The text that joins registers. -/
def concatText?
    (width b c : Nat) : Option String := do
  return String.intercalate " .. " ((← Words.below? width b c).map register ++ [register c])

/-- A range of registers by its first one and the one behind it. -/
theorem registers_eq_Ico
    {first count : Nat}
    (bound : Nat)
    (h : count = bound - first) :
    registers first count = (List.Ico first bound).map register := by
  rw [registers, List.Ico, h]

/-- The results of a call with what stands behind them, if there are some. -/
def resultsText
    (a c : Nat) : String :=
  if 2 ≤ c then
    String.intercalate ", " ((List.Ico a (a + c - 1)).map register) ++ " = "
  else
    ""

/-- The arguments of a call. -/
def argumentsText
    (a b : Nat) : String :=
  String.intercalate ", " ((List.Ico (a + 1) (a + b)).map register)

/-- The text of a call with closed lists. -/
theorem callText_eq
    {a b c : Nat}
    (hb : 1 ≤ b)
    (hc : 1 ≤ c) :
    callText a b c = resultsText a c ++ register a ++ "(" ++ argumentsText a b ++ ")" := by
  rw [callText, registers_eq_Ico (a + c - 1) (by omega), registers_eq_Ico (a + b) (by omega)]
  rfl

theorem resultsText?_eq
    {width a c : Nat}
    (h : a + c < 2 ^ width) :
    resultsText? width a c = some (resultsText a c) := by
  rw [resultsText?, resultsText]
  split
  next hmany =>
      have hsum : Words.ofInt? width (a + c) = some (a + c) := by
        exact_mod_cast Words.ofInt?_natCast _ h
      have hlast : Words.ofInt? width ((a + c : Nat) - 2) = some (a + c - 2) := by
        rw [show ((a + c : Nat) : Int) - 2 = (a + c - 2 : Nat) by omega]
        exact Words.ofInt?_natCast _ (by omega)
      have hindices : Words.through? width a (a + c - 2) = some (List.Ico a (a + c - 1)) := by
        rw [Words.through?_eq (by omega), show a + c - 2 + 1 = a + c - 1 by omega]
      rw [hsum, Option.bind_eq_bind, Option.bind_some, hlast, Option.bind_eq_bind,
        Option.bind_some, hindices]
      rfl
  next =>
      rfl

theorem argumentsText?_eq
    {width a b : Nat}
    (hb : 1 ≤ b)
    (h : a + b < 2 ^ width) :
    argumentsText? width a b = some (argumentsText a b) := by
  have hfirst : Words.ofInt? width (a + 1) = some (a + 1) := by
    exact_mod_cast Words.ofInt?_natCast (a + 1) (by omega)
  have hbound : Words.ofInt? width (a + b) = some (a + b) := by
    exact_mod_cast Words.ofInt?_natCast _ h
  rw [argumentsText?, hfirst, hbound, Option.bind_eq_bind, Option.bind_some, Option.bind_eq_bind,
    Option.bind_some, Words.below?_eq h]
  rfl

/-- A call is written alike in words if all its sums are words. -/
theorem callText?_eq
    {width a b c : Nat}
    (hb : 1 ≤ b)
    (hc : 1 ≤ c)
    (harguments : a + b < 2 ^ width)
    (hresults : a + c < 2 ^ width) :
    callText? width a b c = some (callText a b c) := by
  rw [callText?, resultsText?_eq hresults, argumentsText?_eq hb harguments, callText_eq hb hc]
  rfl

-- eight bits would not do: there is no word behind the last register
example : callText? 8 255 1 1 = none := by
  decide

theorem assign_nil
    (index : Nat) :
    assign (register index) "nil" = .line (register index ++ " = nil") := by
  rw [assign, String.append_assoc]
  rfl

/-- Registers are cleared alike in words if the last one is a word. -/
theorem clear?_eq
    {width a b : Nat}
    (h : b < 2 ^ width) :
    clear? width a b =
      some ((List.Ico a (b + 1)).map fun index => .line (register index ++ " = nil")) := by
  rw [clear?, Words.through?_eq h]
  simp only [assign_nil]
  rfl

/-- Registers are joined up to the last one, which stands alone if the range is empty. -/
theorem concatText_eq
    (b c : Nat) :
    concatText b c =
      if b ≤ c then
        String.intercalate " .. " ((List.Ico b (c + 1)).map register)
      else
        register c := by
  rw [concatText, registers_eq_Ico c rfl]
  split
  next hle =>
      rw [List.Ico.succ_top hle, List.map_append]
      rfl
  next hlt =>
      rw [List.Ico.eq_nil_of_le (by omega)]
      exact String.intercalate_singleton

/-- A concatenation is written alike in words if its last register is a word. -/
theorem concatText?_eq
    {width b c : Nat}
    (h : c < 2 ^ width) :
    concatText? width b c = some (concatText b c) := by
  rw [concatText?, Words.below?_eq h, concatText, registers_eq_Ico c rfl]
  rfl

/-! ## What the text of a call tells -/

/-- The characters that names of registers begin with. -/
def nameChars : List Char := ['v', 'a', 'r']

theorem toList_register
    (index : Nat) :
    (register index).toList = nameChars ++ (toString index).toList := by
  rw [register, String.toList_append]
  rfl

theorem notMem_register
    {char : Char}
    (hname : char ∉ nameChars)
    (hdigit : char.isDigit = false)
    (index : Nat) :
    char ∉ (register index).toList := by
  rw [toList_register, List.mem_append, not_or]
  refine ⟨hname, fun hmem => ?_⟩
  rw [isDigit_toString index char hmem] at hdigit
  cases hdigit

/-- A name of a register has one `v`. -/
theorem count_register
    (index : Nat) :
    (register index).toList.count 'v' = 1 := by
  have hdigits : (toString index).toList.count 'v' = 0 :=
    List.count_eq_zero.2 fun hmem => absurd (isDigit_toString index 'v' hmem) (by decide)
  rw [toList_register, List.count_append, hdigits]
  rfl

/-- Registers of one name are one register. -/
theorem register_inj
    {first second : Nat}
    (h : (register first).toList = (register second).toList) :
    first = second := by
  rw [toList_register, toList_register, List.append_right_inj] at h
  exact toString_nat_inj h

section Joined

variable {separator : String} (indices : List Nat)

theorem notMem_intercalate_register
    {char : Char}
    (hseparator : char ∉ separator.toList)
    (hname : char ∉ nameChars)
    (hdigit : char.isDigit = false) :
    char ∉ (String.intercalate separator (indices.map register)).toList := by
  induction indices with
  | nil =>
      simp
  | cons first rest ih =>
      cases rest with
      | nil =>
          rw [List.map_singleton, String.intercalate_singleton]
          exact notMem_register hname hdigit first
      | cons second others =>
          rw [List.map_cons, List.map_cons, String.intercalate_cons_cons, ← List.map_cons]
          simp only [String.toList_append, List.mem_append, not_or]
          exact ⟨⟨notMem_register hname hdigit first, hseparator⟩, ih⟩

/-- As many names are joined as there are `v`. -/
theorem count_intercalate_register
    (hseparator : 'v' ∉ separator.toList) :
    (String.intercalate separator (indices.map register)).toList.count 'v' =
      indices.length := by
  induction indices with
  | nil =>
      simp
  | cons first rest ih =>
      cases rest with
      | nil =>
          rw [List.map_singleton, String.intercalate_singleton, count_register]
          rfl
      | cons second others =>
          rw [List.map_cons, List.map_cons, String.intercalate_cons_cons, ← List.map_cons]
          simp only [String.toList_append, List.count_append, ih, count_register,
            List.count_eq_zero.2 hseparator, List.length_cons]
          omega

end Joined

/-- The text of a call is what stands before its first parenthesis, and what stands behind. -/
theorem toList_callText
    {a b c : Nat}
    (hb : 1 ≤ b)
    (hc : 1 ≤ c) :
    (callText a b c).toList =
      (resultsText a c ++ register a).toList ++ '(' :: (argumentsText a b ++ ")").toList := by
  rw [callText_eq hb hc]
  simp only [String.toList_append, List.append_assoc]
  rfl

/-- No parenthesis stands before that of the arguments. -/
theorem parenthesis_notMem_resultsText
    (a c : Nat) :
    '(' ∉ (resultsText a c ++ register a).toList := by
  rw [resultsText, String.toList_append, List.mem_append, not_or]
  refine ⟨?_, notMem_register (by decide) (by decide) a⟩
  split
  · rw [String.toList_append, List.mem_append, not_or]
    exact ⟨notMem_intercalate_register _ (by decide) (by decide) (by decide), by decide⟩
  · decide

theorem parenthesis_notMem_argumentsText
    (a b : Nat) :
    '(' ∉ (argumentsText a b ++ ")").toList := by
  rw [argumentsText, String.toList_append, List.mem_append, not_or]
  exact ⟨notMem_intercalate_register _ (by decide) (by decide) (by decide), by decide⟩

/-- There is one name for each result and one for the callee. -/
theorem count_resultsText
    {a c : Nat}
    (hc : 1 ≤ c) :
    (resultsText a c ++ register a).toList.count 'v' = c := by
  rw [resultsText, String.toList_append, List.count_append, count_register]
  split
  next hmany =>
      have hsign : " = ".toList.count 'v' = 0 := by
        decide
      rw [String.toList_append, List.count_append,
        count_intercalate_register _ (by decide), List.Ico.length, hsign]
      omega
  next hone =>
      have hempty : "".toList.count 'v' = 0 := by
        decide
      rw [hempty]
      omega

/-- There is one name for each argument. -/
theorem count_argumentsText
    (a b : Nat) :
    (argumentsText a b ++ ")").toList.count 'v' = b - 1 := by
  have hend : ")".toList.count 'v' = 0 := by
    decide
  rw [argumentsText, String.toList_append, List.count_append,
    count_intercalate_register _ (by decide), List.Ico.length, hend]
  omega

/-- The callee stands behind the sign of the assignment, or alone. -/
theorem eq_of_resultsText_eq
    {a a' c : Nat}
    (h : (resultsText a c ++ register a).toList = (resultsText a' c ++ register a').toList) :
    a = a' := by
  rw [resultsText, resultsText] at h
  split at h
  next =>
      have hsign : " = ".toList = [' ', '=', ' '] := rfl
      have hresults (indices : List Nat) :
          '=' ∉ (String.intercalate ", " (indices.map register)).toList ++ [' '] := by
        rw [List.mem_append, not_or]
        exact ⟨notMem_intercalate_register _ (by decide) (by decide) (by decide), by decide⟩
      have hcallee (index : Nat) : '=' ∉ ' ' :: (register index).toList := by
        rw [List.mem_cons, not_or]
        exact ⟨by decide, notMem_register (by decide) (by decide) index⟩
      have hsplit (indices : List Nat) (index : Nat) :
          (String.intercalate ", " (indices.map register) ++ " = " ++ register index).toList =
            ((String.intercalate ", " (indices.map register)).toList ++ [' ']) ++
              '=' :: ' ' :: (register index).toList := by
        simp [String.toList_append, hsign]
      rw [hsplit, hsplit, List.append_cons_inj_of_notMem (hresults _) (hcallee _)] at h
      exact register_inj (List.cons.inj h.2.2).2
  next =>
      rw [String.empty_append, String.empty_append] at h
      exact register_inj h

/-- The number of results, the callee and the number of arguments are told by the text. -/
theorem callText_inj
    {a b c a' b' c' : Nat}
    (hb : 1 ≤ b)
    (hc : 1 ≤ c)
    (hb' : 1 ≤ b')
    (hc' : 1 ≤ c')
    (h : callText a b c = callText a' b' c') :
    a = a' ∧ b = b' ∧ c = c' := by
  have hlist := congrArg String.toList h
  rw [toList_callText hb hc, toList_callText hb' hc',
    List.append_cons_inj_of_notMem (parenthesis_notMem_resultsText _ _)
      (parenthesis_notMem_argumentsText _ _)] at hlist
  obtain ⟨hfront, -, hback⟩ := hlist
  have hresults := congrArg (List.count 'v') hfront
  have harguments := congrArg (List.count 'v') hback
  rw [count_resultsText hc, count_resultsText hc'] at hresults
  rw [count_argumentsText, count_argumentsText] at harguments
  subst hresults
  exact ⟨eq_of_resultsText_eq hfront, by omega, rfl⟩

/-! ## Instructions -/

section Instructions

variable {constants : List Constant} {pc : Nat} {ins : Instruction}

theorem ofInstruction_of_closed_call
    (hop : ins.op = .call)
    (hb : ins.b ≠ 0)
    (hc : ins.c ≠ 0) :
    ofInstruction constants pc ins =
      .ok [.line (callText ins.a.toNat ins.b.toNat ins.c.toNat)] := by
  rw [ofInstruction_of_call hop, call, if_neg hc, if_neg hb]
  rfl

/-- A call has a text only if both of its lists are closed. -/
theorem closed_of_ofInstruction
    {statements : List Statement}
    (hop : ins.op = .call)
    (h : ofInstruction constants pc ins = .ok statements) :
    ins.b ≠ 0 ∧ ins.c ≠ 0 :=
  ((ofInstruction_eq_ok_iff pc).1 ⟨statements, h⟩).closed hop |>.symm

theorem ofInstruction_of_loadNil
    (hop : ins.op = .loadNil) :
    ofInstruction constants pc ins =
      .ok ((List.Ico ins.a.toNat (ins.b.toNat + 1)).map
        fun index => .line (register index ++ " = nil")) := by
  obtain ⟨raw, op, a, operand⟩ := ins
  cases hop
  rw [← funext assign_nil, ← Function.comp_def (assign · "nil"), ← List.map_map,
    ← registers_eq_Ico _ rfl]
  rfl

theorem ofInstruction_of_concat
    (hop : ins.op = .concat) :
    ofInstruction constants pc ins =
      .ok [.line (register ins.a.toNat ++ " = " ++ concatText ins.b.toNat ins.c.toNat)] := by
  obtain ⟨raw, op, a, operand⟩ := ins
  cases hop
  rfl

theorem one_le_toNat
    {field : UInt16}
    (h : field ≠ 0) :
    1 ≤ field.toNat :=
  Nat.one_le_iff_ne_zero.2 fun hzero => h (UInt16.toNat_inj.1 hzero)

end Instructions

/--
The registers of calls, of clearing and of joining, by A, B and C.

A call with closed lists has `C - 1` results, the registers from A on, and
`B - 1` arguments, the registers behind A; the sign of an assignment stands there
if there is a result.  Two calls with one text have one A, B and C.  Clearing
gives a statement for each register from A to B, and none if B is less than A.
Joining takes the registers from B to C, and C alone if it is less than B.

All of it comes out the same in unsigned words of 32 bits, and for joining of 16
bits, where every sum, every difference and every step of a range has to be a word.
-/
theorem register_ranges :
    (∀ (constants : List Constant) (pc : Nat) (ins : Instruction),
      ins.op = .call → ins.b ≠ 0 → ins.c ≠ 0 →
      let a := ins.a.toNat
      let b := ins.b.toNat
      let c := ins.c.toNat
      let results := (List.Ico a (a + c - 1)).map register
      let arguments := (List.Ico (a + 1) (a + b)).map register
      let text :=
        (if 2 ≤ c then String.intercalate ", " results ++ " = " else "") ++ register a ++ "(" ++
          String.intercalate ", " arguments ++ ")"
      ofInstruction constants pc ins = .ok [.line text] ∧
        results.length = c - 1 ∧ arguments.length = b - 1 ∧ callText? 32 a b c = some text) ∧
    (∀ (constants constants' : List Constant) (pc pc' : Nat) (ins ins' : Instruction)
      (text : String),
      ins.op = .call → ins'.op = .call →
      ofInstruction constants pc ins = .ok [.line text] →
      ofInstruction constants' pc' ins' = .ok [.line text] →
      ins.a = ins'.a ∧ ins.b = ins'.b ∧ ins.c = ins'.c) ∧
    (∀ (constants : List Constant) (pc : Nat) (ins : Instruction), ins.op = .loadNil →
      let a := ins.a.toNat
      let b := ins.b.toNat
      let statements :=
        (List.Ico a (b + 1)).map fun index => Statement.line (register index ++ " = nil")
      ofInstruction constants pc ins = .ok statements ∧
        (statements.length : Int) = max 0 ((b : Int) - a + 1) ∧ clear? 32 a b = some statements) ∧
    ∀ (constants : List Constant) (pc : Nat) (ins : Instruction), ins.op = .concat →
      let b := ins.b.toNat
      let c := ins.c.toNat
      let text :=
        if b ≤ c then
          String.intercalate " .. " ((List.Ico b (c + 1)).map register)
        else
          register c
      ofInstruction constants pc ins = .ok [.line (register ins.a.toNat ++ " = " ++ text)] ∧
        concatText? 16 b c = some text := by
  refine ⟨fun constants pc ins hop hb hc => ?_,
    fun constants constants' pc pc' ins ins' text hop hop' h h' => ?_,
    fun constants pc ins hop => ?_, fun constants pc ins hop => ?_⟩
  · intro a b c results arguments text
    have ha : a < 256 := ins.a.toNat_lt
    have hb' : b < 512 := Word.b_toNat_lt ins.raw
    have hc' : c < 512 := Word.c_toNat_lt ins.raw
    have hbpos : 1 ≤ b := one_le_toNat hb
    have hcpos : 1 ≤ c := one_le_toNat hc
    have htext : callText a b c = text := callText_eq hbpos hcpos
    rw [ofInstruction_of_closed_call hop hb hc, callText?_eq hbpos hcpos (by omega) (by omega),
      htext, List.length_map, List.length_map, List.Ico.length, List.Ico.length]
    exact ⟨rfl, by omega, by omega, rfl⟩
  · obtain ⟨hb, hc⟩ := closed_of_ofInstruction hop h
    obtain ⟨hb', hc'⟩ := closed_of_ofInstruction hop' h'
    rw [ofInstruction_of_closed_call hop hb hc, ← h',
      ofInstruction_of_closed_call hop' hb' hc'] at h
    have htext : callText ins.a.toNat ins.b.toNat ins.c.toNat =
        callText ins'.a.toNat ins'.b.toNat ins'.c.toNat := by
      simpa only [Except.ok.injEq, List.cons.injEq, Statement.line.injEq, and_true] using h
    obtain ⟨ha, hb, hc⟩ := callText_inj (one_le_toNat hb) (one_le_toNat hc) (one_le_toNat hb')
      (one_le_toNat hc') htext
    exact ⟨UInt8.toNat_inj.1 ha, UInt16.toNat_inj.1 hb, UInt16.toNat_inj.1 hc⟩
  · intro a b statements
    have hb : b < 512 := Word.b_toNat_lt ins.raw
    refine ⟨ofInstruction_of_loadNil hop, ?_, clear?_eq (by omega)⟩
    rw [List.length_map, List.Ico.length]
    omega
  · intro b c text
    have hc : c < 512 := Word.c_toNat_lt ins.raw
    have htext : concatText b c = text := concatText_eq b c
    rw [ofInstruction_of_concat hop, concatText?_eq (by omega), htext]
    exact ⟨rfl, rfl⟩

end Statement
end LuaBytecode
