import LuaBytecode.Chunk.Basic

/-!
# Statements

An instruction becomes a list of statements over numbered registers.  Registers
are written `var0`, `var1` and so on; a constant is written as its value.  B, C
and Bx are those of the instruction word.

Jumps, loops, closures, tail calls, table constructors and variable arguments
have no statement, and neither have calls whose argument or result list reaches
up to the top of the stack.

**Contents.**
* `GenerateError` and its text.
* `Statement`: a line, or lines enclosed by a head and `end`.
* `Statement.ofInstruction`: the statements of one instruction.
-/

namespace LuaBytecode

/-- A list of a call that reaches up to the top of the stack. -/
inductive OpenList where
  | results
  | arguments
  deriving DecidableEq

/-- How an open list is reported. -/
def OpenList.text :
    OpenList → String
  | .results => "C == 0 (results up to top of stack)"
  | .arguments => "B == 0 (arguments up to top of stack)"

/-- Why an instruction has no statement. -/
inductive GenerateError where
  | unsupportedOpcode (op : Opcode) (pc : Nat)
  | unsupportedOperand (op : Opcode) (pc : Nat) (detail : OpenList)
  | invalidConstIndex (index : Nat) (length : Nat)
  deriving DecidableEq

/-- The text of a generation error. -/
def GenerateError.message :
    GenerateError → String
  | .unsupportedOpcode op pc =>
      "unsupported opcode " ++ op.text ++ " at pc=" ++ toString pc
  | .unsupportedOperand op pc detail =>
      "unsupported operands for " ++ op.text ++ " at pc=" ++ toString pc ++
        ": " ++ detail.text
  | .invalidConstIndex index length =>
      "invalid constant index " ++ toString index ++ " (constant table has " ++
        toString length ++ " entries)"

/-- A piece of pseudocode. -/
inductive Statement where
  | line (text : String)
  | block (head : String) (body : List String)
  deriving DecidableEq

namespace Statement

/-- The name of a register. -/
def register
    (index : Nat) : String :=
  "var" ++ toString index

/-- The names of `count` registers from `first` on. -/
def registers
    (first : Nat)
    (count : Nat) : List String :=
  (List.range' first count).map register

/-- The text of a constant, if the table has it. -/
def constantText
    (constants : List Constant)
    (index : Nat) : Except GenerateError String :=
  match constants[index]? with
  | some constant => .ok constant.text
  | none => .error (.invalidConstIndex index constants.length)

/-- The text of a field that names a register or a constant. -/
def rkText
    (constants : List Constant)
    (field : UInt16) : Except GenerateError String :=
  match Rk.ofField field with
  | .register index => .ok (register index.toNat)
  | .constant index => constantText constants index.toNat

/-- An assignment. -/
def assign
    (target : String)
    (value : String) : Statement :=
  .line (target ++ " = " ++ value)

/-- An indexed value. -/
def indexed
    (table : String)
    (key : String) : String :=
  table ++ "[" ++ key ++ "]"

/-- A binary operation. -/
def binary
    (left : String)
    (symbol : String)
    (right : String) : String :=
  left ++ " " ++ symbol ++ " " ++ right

/--
A call of the register `a` with the `b - 1` registers after it, its results
going to the `c - 1` registers from it on.
-/
def callText
    (a : Nat)
    (b : Nat)
    (c : Nat) : String :=
  let results :=
    if 2 ≤ c then
      String.intercalate ", " (registers a (c - 1)) ++ " = "
    else
      ""
  results ++ register a ++ "(" ++
    String.intercalate ", " (registers (a + 1) (b - 1)) ++ ")"

/-- The statement of a call with closed lists; an open result list is reported first. -/
def call
    (pc : Nat)
    (ins : Instruction) : Except GenerateError Statement :=
  if ins.c = 0 then
    .error (.unsupportedOperand ins.op pc .results)
  else if ins.b = 0 then
    .error (.unsupportedOperand ins.op pc .arguments)
  else
    .ok (.line (callText ins.a.toNat ins.b.toNat ins.c.toNat))

/-- A comparison that skips the next instruction, a jump without statement: it opens no block. -/
def compare
    (constants : List Constant)
    (symbol : String)
    (ins : Instruction) : Except GenerateError Statement := do
  let left ← rkText constants ins.b
  let right ← rkText constants ins.c
  return .line
    ("if (" ++ binary left symbol right ++ ") ~= " ++ toString ins.a.toNat ++ " then")

/-- The registers from `b` up to `c`, or `c` alone, joined. -/
def concatText
    (b : Nat)
    (c : Nat) : String :=
  String.intercalate " .. " (registers b (c - b) ++ [register c])

/-- The statements of the instruction at `pc` in a function with the given constants. -/
def ofInstruction
    (constants : List Constant)
    (pc : Nat)
    (ins : Instruction) : Except GenerateError (List Statement) :=
  let a := register ins.a.toNat
  let b := register ins.b.toNat
  let c := register ins.c.toNat
  let arithmetic (symbol : String) : Except GenerateError (List Statement) :=
    .ok [assign a (binary b symbol c)]
  match ins.op with
  | .move => .ok [assign a b]
  | .loadK => do
      return [assign a (← constantText constants ins.bx.toNat)]
  | .loadBool => .ok [assign a (if ins.b = 0 then "false" else "true")]
  | .loadNil =>
      .ok ((registers ins.a.toNat (ins.b.toNat + 1 - ins.a.toNat)).map (assign · "nil"))
  | .getUpvalue => .ok [assign a (indexed "upvalue" (toString ins.b.toNat))]
  | .getGlobal => do
      return [assign a (indexed "_G" (← constantText constants ins.bx.toNat))]
  | .getTable => do
      return [assign a (indexed b (← rkText constants ins.c))]
  | .setGlobal => do
      return [assign (indexed "_G" (← constantText constants ins.bx.toNat)) a]
  | .setUpvalue => .ok [assign (indexed "upvalue" (toString ins.b.toNat)) a]
  | .setTable => do
      let key ← rkText constants ins.b
      let value ← rkText constants ins.c
      return [assign (indexed a key) value]
  | .newTable => .ok [assign a "\x7b\x7d"]
  | .self => do
      let key ← rkText constants ins.c
      return [assign (register (ins.a.toNat + 1)) b, assign a (indexed b key)]
  | .add => arithmetic "+"
  | .sub => arithmetic "-"
  | .mul => arithmetic "*"
  | .div => arithmetic "/"
  | .mod => arithmetic "%"
  | .pow => arithmetic "^"
  | .unm => .ok [assign a ("-" ++ b)]
  | .not => .ok [assign a ("not " ++ b)]
  | .len => .ok [assign a ("#" ++ b)]
  | .concat => .ok [assign a (concatText ins.b.toNat ins.c.toNat)]
  | .eq => return [← compare constants "==" ins]
  | .lt => return [← compare constants "<" ins]
  | .le => return [← compare constants "<=" ins]
  | .test => .ok [.line ("if not " ++ a ++ " <=> " ++ toString ins.c.toNat ++ " then")]
  | .testSet =>
      .ok [.block ("if " ++ b ++ " <=> " ++ toString ins.c.toNat ++ " then") [a ++ " = " ++ b]]
  | .call => return [← call pc ins]
  | .ret => .ok [.line "return"]
  | .jmp
  | .tailCall
  | .forLoop
  | .forPrep
  | .genericForLoop
  | .setList
  | .close
  | .closure
  | .vararg
  | .unknown _ => .error (.unsupportedOpcode ins.op pc)

end Statement
end LuaBytecode
