import LuaBytecode.Pseudocode.Statement
import Mathlib.Tactic

/-!
# How statements begin

A conditional assignment becomes a block, and every other instruction becomes
single lines.  How such a line begins is one of six things: a register, a global
variable, an upvalue, a comparison, a test, or the end of a function.

**Results.**
* `Beginning`: how the line of an instruction begins.
* `Statement.allSimple_ofInstruction`: the lines of an instruction.
* `Statement.ofInstruction_of_testSet`: the block of a conditional assignment.
-/

namespace LuaBytecode

/-- How the line of an instruction begins. -/
inductive Beginning where
  | register
  | globalVariable
  | upvalue
  | comparison
  | test
  | done
  deriving DecidableEq

namespace Beginning

/-- The first characters of a line. -/
def text :
    Beginning → String
  | .register => "var"
  | .globalVariable => "_G["
  | .upvalue => "upvalue["
  | .comparison => "if ("
  | .test => "if not "
  | .done => "return"

end Beginning

namespace Statement

/-- A text that begins like the line of an instruction. -/
def Begins
    (text : String) : Prop :=
  ∃ (beginning : Beginning) (rest : String), text = beginning.text ++ rest

/-- Only the beginning of a line matters. -/
theorem Begins.append
    {text : String}
    (h : Begins text)
    (more : String) :
    Begins (text ++ more) := by
  obtain ⟨beginning, rest, rfl⟩ := h
  exact ⟨beginning, rest ++ more, String.append_assoc⟩

theorem begins_register
    (index : Nat) :
    Begins (register index) :=
  ⟨.register, toString index, rfl⟩

/-- A statement that is a single line of an instruction. -/
def Simple
    (statement : Statement) : Prop :=
  ∃ text, statement = .line text ∧ Begins text

/-- All statements of an instruction are single lines, if it has some. -/
def AllSimple
    (lowered : Except GenerateError (List Statement)) : Prop :=
  ∀ statements, lowered = .ok statements → ∀ statement ∈ statements, statement.Simple

theorem simple_line
    {text : String}
    (h : Begins text) :
    (line text).Simple :=
  ⟨text, rfl, h⟩

/-- An assignment begins as its target does. -/
theorem simple_assign
    {target : String}
    (h : Begins target)
    (value : String) :
    (assign target value).Simple :=
  simple_line ((h.append _).append _)

theorem simple_assign_register
    (index : Nat)
    (value : String) :
    (assign (register index) value).Simple :=
  simple_assign (begins_register index) value

namespace AllSimple

theorem ok
    {statements : List Statement}
    (h : ∀ statement ∈ statements, statement.Simple) :
    AllSimple (.ok statements) := by
  intro others hothers
  cases hothers
  exact h

/-- An instruction with one statement, which is a single line. -/
theorem single
    {statement : Statement}
    (h : statement.Simple) :
    AllSimple (.ok [statement]) :=
  ok fun other hother => by
    rw [List.mem_singleton.1 hother]
    exact h

theorem error
    {error : GenerateError} :
    AllSimple (.error error) :=
  fun _ hnever => nomatch hnever

/-- What is looked up first may fail, and then there are no statements. -/
theorem bind
    {α : Type}
    {reading : Except GenerateError α}
    {follow : α → Except GenerateError (List Statement)}
    (h : ∀ x, reading = .ok x → AllSimple (follow x)) :
    AllSimple (reading >>= follow) := by
  cases hreading : reading with
  | error error =>
      exact AllSimple.error
  | ok x =>
      exact h x hreading

end AllSimple

/-- A comparison is a single line, whatever its operands are. -/
theorem simple_of_compare
    {constants : List Constant}
    {symbol : String}
    {ins : Instruction}
    {statement : Statement}
    (h : compare constants symbol ins = .ok statement) :
    statement.Simple := by
  rw [compare] at h
  cases hleft : rkText constants ins.b with
  | error error =>
      rw [hleft] at h
      cases h
  | ok left =>
      cases hright : rkText constants ins.c with
      | error error =>
          rw [hleft, hright] at h
          cases h
      | ok right =>
          rw [hleft, hright] at h
          cases h
          refine simple_line ?_
          simp only [String.append_assoc]
          exact ⟨.comparison, _, rfl⟩

/-- A call begins with the register of its first result, or with that of the function. -/
theorem simple_of_call
    {pc : Nat}
    {ins : Instruction}
    {statement : Statement}
    (h : call pc ins = .ok statement) :
    statement.Simple := by
  rw [call] at h
  split at h
  · cases h
  split at h
  · cases h
  cases h
  refine simple_line ?_
  have hfirst := begins_register ins.a.toNat
  rw [callText]
  split
  next hresults =>
      obtain ⟨count, hcount⟩ : ∃ count, ins.c.toNat - 1 = count + 1 := ⟨ins.c.toNat - 2, by omega⟩
      rw [hcount, registers, List.range'_succ, List.map_cons]
      cases (List.range' (ins.a.toNat + 1) count).map register with
      | nil =>
          simp only [String.intercalate_singleton, String.append_assoc]
          exact hfirst.append _
      | cons second others =>
          simp only [String.intercalate_cons_cons, String.append_assoc]
          exact hfirst.append _
  next =>
      simp only [String.empty_append, String.append_assoc]
      exact hfirst.append _

/-- An instruction becomes single lines unless it is a conditional assignment. -/
theorem allSimple_ofInstruction
    (constants : List Constant)
    (pc : Nat)
    {ins : Instruction}
    (hop : ins.op ≠ .testSet) :
    AllSimple (ofInstruction constants pc ins) := by
  have hglobal (key : String) : Begins (indexed "_G" key) := by
    simp only [indexed, String.append_assoc]
    exact ⟨.globalVariable, _, rfl⟩
  have hupvalue (key : String) : Begins (indexed "upvalue" key) := by
    simp only [indexed, String.append_assoc]
    exact ⟨.upvalue, _, rfl⟩
  have htable (key : String) : Begins (indexed (register ins.a.toNat) key) := by
    simp only [indexed, String.append_assoc]
    exact (begins_register ins.a.toNat).append _
  rw [ofInstruction]
  cases hcase : ins.op with
  | move | loadBool | getUpvalue | newTable | unm | not | len | concat =>
      exact .single (simple_assign_register _ _)
  | add | sub | mul | div | mod | pow =>
      exact .single (simple_assign_register _ _)
  | loadK | getGlobal | getTable =>
      exact .bind fun _ _ => .single (simple_assign_register _ _)
  | loadNil =>
      refine .ok fun statement hstatement => ?_
      simp only [registers, List.map_map, List.mem_map] at hstatement
      obtain ⟨index, -, rfl⟩ := hstatement
      exact simple_assign_register index _
  | setGlobal =>
      exact .bind fun _ _ => .single (simple_assign (hglobal _) _)
  | setUpvalue =>
      exact .single (simple_assign (hupvalue _) _)
  | setTable =>
      exact .bind fun _ _ => .bind fun _ _ => .single (simple_assign (htable _) _)
  | self =>
      refine .bind fun _ _ => .ok fun statement hstatement => ?_
      simp only [List.mem_cons, List.not_mem_nil, or_false] at hstatement
      rcases hstatement with rfl | rfl
      · exact simple_assign_register _ _
      · exact simple_assign_register _ _
  | eq | lt | le =>
      exact .bind fun _ hcompare => .single (simple_of_compare hcompare)
  | test =>
      refine .single (simple_line ?_)
      simp only [String.append_assoc]
      exact ⟨.test, _, rfl⟩
  | testSet =>
      exact absurd hcase hop
  | call =>
      exact .bind fun _ hcall => .single (simple_of_call hcall)
  | ret =>
      exact .single (simple_line ⟨.done, "", rfl⟩)
  | jmp | tailCall | forLoop | forPrep | genericForLoop | setList | close | closure | vararg
  | unknown code =>
      exact .error

/-- A conditional assignment is a block around one assignment. -/
theorem ofInstruction_of_testSet
    (constants : List Constant)
    (pc : Nat)
    {ins : Instruction}
    (hop : ins.op = .testSet) :
    ofInstruction constants pc ins =
      .ok [.block
        ("if " ++ register ins.b.toNat ++ " <=> " ++ toString ins.c.toNat ++ " then")
        [register ins.a.toNat ++ " = " ++ register ins.b.toNat]] := by
  rw [ofInstruction, hop]

end Statement
end LuaBytecode
