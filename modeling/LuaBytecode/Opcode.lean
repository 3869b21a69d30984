/-!
# Operation codes

The low six bits of an instruction word choose one of 38 operations; the codes
past them are kept as they are.  A table lists the operations in the order of
their codes, with the name that a listing shows, the name that a dump shows,
and how the rest of the word is divided.

**Contents.**
* `Opcode`, `OperandMode`, and the table `Opcode.table`.
* `Opcode.ofCode` and `Opcode.code`, inverse to each other on defined codes.
* `Opcode.text`, `Opcode.label?`: the two names of an operation.
-/

namespace LuaBytecode

/-- An operation, or a code that stands for none. -/
inductive Opcode where
  | move
  | loadK
  | loadBool
  | loadNil
  | getUpvalue
  | getGlobal
  | getTable
  | setGlobal
  | setUpvalue
  | setTable
  | newTable
  | self
  | add
  | sub
  | mul
  | div
  | mod
  | pow
  | unm
  | not
  | len
  | concat
  | jmp
  | eq
  | lt
  | le
  | test
  | testSet
  | call
  | tailCall
  | ret
  | forLoop
  | forPrep
  | genericForLoop
  | setList
  | close
  | closure
  | vararg
  | unknown (code : UInt8)
  deriving DecidableEq

/-- How the bits above A are divided: into B and C, or one number with or without a bias. -/
inductive OperandMode where
  | abc
  | abx
  | asbx
  deriving DecidableEq

/-- The name of an operand mode in a dump. -/
def OperandMode.label :
    OperandMode → String
  | .abc => "Abc"
  | .abx => "ABx"
  | .asbx => "AsBx"

namespace Opcode

/-- A row of the table of operations. -/
structure Entry where
  opcode : Opcode
  /-- The name in listings. -/
  mnemonic : String
  /-- The name in dumps. -/
  label : String
  mode : OperandMode

/-- The operations in the order of their codes. -/
def table : List Entry :=
  [ ⟨.move, "MOVE", "Move", .abc⟩,
    ⟨.loadK, "LOADK", "LoadK", .abx⟩,
    ⟨.loadBool, "LOADBOOL", "LoadBool", .abc⟩,
    ⟨.loadNil, "LOADNIL", "LoadNil", .abc⟩,
    ⟨.getUpvalue, "GETUPVAL", "GetUpVal", .abc⟩,
    ⟨.getGlobal, "GETGLOBAL", "GetGlobal", .abx⟩,
    ⟨.getTable, "GETTABLE", "GetTable", .abc⟩,
    ⟨.setGlobal, "SETGLOBAL", "SetGlobal", .abx⟩,
    ⟨.setUpvalue, "SETUPVAL", "SetUpVal", .abc⟩,
    ⟨.setTable, "SETTABLE", "SetTable", .abc⟩,
    ⟨.newTable, "NEWTABLE", "NewTable", .abc⟩,
    ⟨.self, "SELF", "Self_", .abc⟩,
    ⟨.add, "ADD", "Add", .abc⟩,
    ⟨.sub, "SUB", "Sub", .abc⟩,
    ⟨.mul, "MUL", "Mul", .abc⟩,
    ⟨.div, "DIV", "Div", .abc⟩,
    ⟨.mod, "MOD", "Mod", .abc⟩,
    ⟨.pow, "POW", "Pow", .abc⟩,
    ⟨.unm, "UNM", "Unm", .abc⟩,
    ⟨.not, "NOT", "Not", .abc⟩,
    ⟨.len, "LEN", "Len", .abc⟩,
    ⟨.concat, "CONCAT", "Concat", .abc⟩,
    ⟨.jmp, "JMP", "Jmp", .asbx⟩,
    ⟨.eq, "EQ", "Eq", .abc⟩,
    ⟨.lt, "LT", "Lt", .abc⟩,
    ⟨.le, "LE", "Le", .abc⟩,
    ⟨.test, "TEST", "Test", .abc⟩,
    ⟨.testSet, "TESTSET", "TestSet", .abc⟩,
    ⟨.call, "CALL", "Call", .abc⟩,
    ⟨.tailCall, "TAILCALL", "TailCall", .abc⟩,
    ⟨.ret, "RETURN", "Return", .abc⟩,
    ⟨.forLoop, "FORLOOP", "ForLoop", .asbx⟩,
    ⟨.forPrep, "FORPREP", "ForPrep", .asbx⟩,
    ⟨.genericForLoop, "TFORLOOP", "TForLoop", .abc⟩,
    ⟨.setList, "SETLIST", "SetList", .abc⟩,
    ⟨.close, "CLOSE", "Close", .abc⟩,
    ⟨.closure, "CLOSURE", "Closure", .abx⟩,
    ⟨.vararg, "VARARG", "VarArg", .abc⟩ ]

/-- The row of a code, if the code is defined. -/
def entry?
    (code : UInt8) : Option Entry :=
  table[code.toNat]?

/-- The operation with the given code. -/
def ofCode
    (code : UInt8) : Opcode :=
  match entry? code with
  | some entry => entry.opcode
  | none => .unknown code

/-- The row that describes an operation. -/
def description?
    (opcode : Opcode) : Option Entry :=
  table.find? fun entry => entry.opcode == opcode

/-- The code of an operation: its place in the table. -/
def code :
    Opcode → UInt8
  | .unknown code => code
  | opcode => UInt8.ofNat (table.findIdx fun entry => entry.opcode == opcode)

/-- The name of an operation without its code. -/
def name
    (opcode : Opcode) : String :=
  match opcode.description? with
  | some entry => entry.mnemonic
  | none => "UNKNOWN"

/-- How an operation divides its word; an undefined code is read as B and C. -/
def mode
    (opcode : Opcode) : OperandMode :=
  match opcode.description? with
  | some entry => entry.mode
  | none => .abc

/-- The name of an operation in a listing. -/
def text :
    Opcode → String
  | .unknown code => "UNKNOWN(" ++ toString code.toNat ++ ")"
  | opcode => opcode.name

/-- The name of an operation in a dump, or nothing for an undefined code. -/
def label?
    (opcode : Opcode) : Option String :=
  opcode.description?.map Entry.label

/-- The operation with the given name in a dump. -/
def ofLabel?
    (label : String) : Option Opcode :=
  (table.find? fun entry => entry.label == label).map Entry.opcode

end Opcode
end LuaBytecode
