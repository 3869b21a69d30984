import LuaBytecode.Chunk.Basic
import LuaBytecode.Double.Decimal
import LuaBytecode.Json.Value

/-!
# Chunks as JSON

Records become objects with their members in a fixed order, lists become
arrays, and integers are written in full.  A choice without data is a string,
and one with data an object of one member.  A number that is not finite is
written as a string, JSON having no numeral for it.

**Contents.**
* `Chunk.toJson` and the same for each part of a chunk.
-/

namespace LuaBytecode

open Json (Value)

namespace Json.Value

/-- A string that has a text. -/
def text
    (content : String) : Value :=
  .string (some content)

/-- An integer. -/
def int
    (content : Int) : Value :=
  .number (toString content)

/-- A natural number. -/
def nat
    (content : Nat) : Value :=
  .number (toString content)

/-- Named values in order. -/
def record
    (names : List String)
    (values : List Value) : Value :=
  .object ((names.map some).zip values)

/-- A choice with data. -/
def tagged
    (tag : String)
    (content : Value) : Value :=
  .object [(some tag, content)]

end Json.Value

/-- The name of a byte order in a dump. -/
def ByteOrder.label :
    ByteOrder → String
  | .big => "Big"
  | .little => "Little"

/-- A byte order by its name. -/
def ByteOrder.toJson
    (order : ByteOrder) : Value :=
  .text order.label

/-- The members of a header. -/
def Header.memberNames : List String :=
  ["version", "format", "endianness", "int_size", "size_t_size", "instruction_size",
    "number_size", "integral"]

/-- A header as an object. -/
def Header.toJson
    (header : Header) : Value :=
  .record memberNames
    [ .nat header.version.toNat,
      .nat header.format.toNat,
      header.order.toJson,
      .nat header.intWidth.toNat,
      .nat header.sizeWidth.toNat,
      .nat header.instructionWidth.toNat,
      .nat header.numberWidth.toNat,
      .bool header.integral ]

/-- A finite number as a numeral, any other by its name. -/
def Double.toJson :
    Double → Value
  | .nan => .text "nan"
  | .infinite negative => .text (if negative then "-inf" else "inf")
  | .finite negative magnitude =>
      .number (DecimalStyle.scaled.finiteText negative magnitude)

/-- A constant by its kind. -/
def Constant.toJson :
    Constant → Value
  | .nil => .text "Nil"
  | .bool value => .tagged "Bool" (.bool value)
  | .number value => .tagged "Number" value.toJson
  | .string value => .tagged "String" (.text value)

/-- Flags as the number of their bits. -/
def VarargFlags.toJson
    (flags : VarargFlags) : Value :=
  .nat flags.bits.toNat

/-- An operand mode by its name. -/
def OperandMode.toJson
    (mode : OperandMode) : Value :=
  .text mode.label

/-- A defined operation by its name, an undefined one with its code. -/
def Opcode.toJson
    (op : Opcode) : Value :=
  match op.label? with
  | some label => .text label
  | none => .tagged "Unknown" (.nat op.code.toNat)

/-- The members of an operand of two fields. -/
def Operand.memberNames : List String :=
  ["b", "c"]

/-- An operand by its kind. -/
def Operand.toJson :
    Operand → Value
  | .abc b c => .tagged "Abc" (.record memberNames [.nat b.toNat, .nat c.toNat])
  | .bx index => .tagged "Bx" (.nat index.toNat)
  | .sbx offset => .tagged "SBx" (.int offset.toInt)

/-- The members of an instruction. -/
def Instruction.memberNames : List String :=
  ["raw", "op", "a", "operand"]

/-- An instruction as an object. -/
def Instruction.toJson
    (ins : Instruction) : Value :=
  .record memberNames
    [.nat ins.raw.toNat, ins.op.toJson, .nat ins.a.toNat, ins.operand.toJson]

/-- The members of a local variable. -/
def LocalVariable.memberNames : List String :=
  ["name", "start_pc", "end_pc"]

/-- A local variable as an object. -/
def LocalVariable.toJson
    (entry : LocalVariable) : Value :=
  .record memberNames
    [.text entry.name, .int entry.startPc.toInt, .int entry.endPc.toInt]

namespace Prototype

/-- The members of a prototype. -/
def memberNames : List String :=
  ["source_name", "line_defined", "last_line_defined", "num_upvalues", "num_params",
    "vararg", "max_stack_size", "instructions", "constants", "prototypes", "line_info",
    "locals", "upvalue_names"]

/-- The values of the members of a function, its inner functions being given. -/
def infoValues
    (info : FunctionInfo)
    (children : List Value) : List Value :=
  [ .text info.sourceName,
    .int info.lineDefined.toInt,
    .int info.lastLineDefined.toInt,
    .nat info.upvalueCount.toNat,
    .nat info.parameterCount.toNat,
    info.vararg.toJson,
    .nat info.maxStackSize.toNat,
    .array (info.instructions.map Instruction.toJson),
    .array (info.constants.map Constant.toJson),
    .array children,
    .array (info.lineInfo.map fun line => .int line.toInt),
    .array (info.locals.map LocalVariable.toJson),
    .array (info.upvalueNames.map Value.text) ]

/-- A function as an object. -/
def infoToJson
    (info : FunctionInfo)
    (children : List Value) : Value :=
  .record memberNames (infoValues info children)

mutual

/-- A prototype as an object. -/
def toJson :
    Prototype → Value
  | .node info children => infoToJson info (toJsonAll children)

/-- Prototypes as objects. -/
def toJsonAll :
    List Prototype → List Value
  | [] => []
  | tree :: rest => toJson tree :: toJsonAll rest

end
end Prototype

/-- The members of a chunk. -/
def Chunk.memberNames : List String :=
  ["header", "main"]

/-- A chunk as an object. -/
def Chunk.toJson
    (chunk : Chunk) : Value :=
  .record memberNames [chunk.header.toJson, chunk.main.toJson]

end LuaBytecode
