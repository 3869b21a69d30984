import LuaBytecode.Chunk.Dump
import LuaBytecode.Json.Numeral
import LuaBytecode.Json.Parser

/-!
# Chunks from JSON

A record is read from an object, whose members may come in any order and among
which unknown ones are passed over, or from an array of exactly its members in
their order.  A known member must be there once.  A choice without data is its
name, or an object of one member with that name and nothing in it.

Arrays and objects that are looked into may be nested 127 deep; what is passed
over may be nested at will.

**Contents.**
* `Loader`: a reader of values with what is left of the nesting.
* `Chunk.ofJson?` and the same for each part of a chunk.
-/

namespace LuaBytecode

open Json (Value Member)

/-- Reads a value inside which so many levels of arrays and objects may be opened. -/
abbrev Loader (α : Type) := Nat → Value → Option α

namespace Loader

variable {α : Type}

/-- How deep arrays and objects may be nested. -/
def levels : Nat := 127

/-- What a whole value holds. -/
def load?
    (loader : Loader α)
    (value : Value) : Option α :=
  loader levels value

/-- Text. -/
def text : Loader String
  | _, .string content => content
  | _, _ => none

/-- A truth value. -/
def bool : Loader Bool
  | _, .bool content => some content
  | _, _ => none

/-- An integer from `low` up to `high`. -/
def int
    (low : Int)
    (high : Int) : Loader Int
  | _, .number text => do
      let content ← (← Json.Numeral.ofText? text.toList).toInt?
      guard (low ≤ content ∧ content ≤ high)
      return content
  | _, _ => none

/-- A natural number below `2 ^ width`. -/
def nat
    (width : Nat) : Loader Nat :=
  fun left value => Int.toNat <$> int 0 (2 ^ width - 1) left value

/-- An unsigned number of 8 bits. -/
def uint8 : Loader UInt8 :=
  fun left value => UInt8.ofNat <$> nat 8 left value

/-- An unsigned number of 16 bits. -/
def uint16 : Loader UInt16 :=
  fun left value => UInt16.ofNat <$> nat 16 left value

/-- An unsigned number of 32 bits. -/
def uint32 : Loader UInt32 :=
  fun left value => UInt32.ofNat <$> nat 32 left value

/-- A signed number of 32 bits. -/
def int32 : Loader Int32 :=
  fun left value => Int32.ofInt <$> int (-2 ^ 31) (2 ^ 31 - 1) left value

/-- A signed number of 64 bits. -/
def int64 : Loader Int64 :=
  fun left value => Int64.ofInt <$> int (-2 ^ 63) (2 ^ 63 - 1) left value

/-- A list. -/
def list
    (item : Loader α) : Loader (List α)
  | left + 1, .array items => items.mapM (item left)
  | _, _ => none

/-- The value of the only member with the given name. -/
def member?
    (members : List Member)
    (name : String) : Option Value :=
  match members.filter fun member => member.1 == some name with
  | [(_, value)] => some value
  | _ => none

/-- The values of the members of a record, in the order of their names. -/
def memberValues?
    (names : List String) :
    Value → Option (List Value)
  | .array items => do
      guard (items.length = names.length)
      return items
  | .object members => do
      guard (members.all fun member => member.1.isSome)
      names.mapM (member? members)
  | _ => none

/-- A record, made from the values of its members. -/
def record
    (names : List String)
    (make : Nat → List Value → Option α) : Loader α
  | left + 1, value => do
      let values ← memberValues? names value
      make left values
  | 0, _ => none

/-- A choice: its name, or its name with data. -/
def choice
    (plain : String → Option α)
    (tagged : String → Loader α) : Loader α
  | _, .string (some name) => plain name
  | _ + 1, .object [(some name, .null)] => plain name
  | left + 1, .object [(some name, content)] => tagged name left content
  | _, _ => none

end Loader

open Loader

/-- A byte order. -/
def ByteOrder.ofJson? : Loader ByteOrder :=
  choice
    (fun name => [ByteOrder.big, .little].find? fun order => order.label == name)
    (fun _ _ _ => none)

/-- A header; its fields are not checked against each other. -/
def Header.ofJson? : Loader Header :=
  record memberNames fun left values =>
    match values with
    | [version, format, order, intWidth, sizeWidth, instructionWidth, numberWidth,
        integral] => do
        return {
          version := ← uint8 left version
          format := ← uint8 left format
          order := ← ByteOrder.ofJson? left order
          intWidth := ← uint8 left intWidth
          sizeWidth := ← uint8 left sizeWidth
          instructionWidth := ← uint8 left instructionWidth
          numberWidth := ← uint8 left numberWidth
          integral := ← bool left integral }
    | _ => none

/-- A number: a numeral, or the name of one that is not finite. -/
def Double.ofJson? : Loader Double
  | _, .number text => do (← Json.Numeral.ofText? text.toList).toDouble?
  | _, .string (some name) =>
      if name = "nan" then
        some .nan
      else if name = "inf" then
        some (.infinite false)
      else if name = "-inf" then
        some (.infinite true)
      else
        none
  | _, _ => none

/-- A constant. -/
def Constant.ofJson? : Loader Constant :=
  choice
    (fun name => if name = "Nil" then some .nil else none)
    (fun name left content =>
      if name = "Bool" then
        .bool <$> Loader.bool left content
      else if name = "Number" then
        .number <$> Double.ofJson? left content
      else if name = "String" then
        .string <$> Loader.text left content
      else
        none)

/-- Flags. -/
def VarargFlags.ofJson? : Loader VarargFlags :=
  fun left value => VarargFlags.mk <$> uint8 left value

/-- An operand mode. -/
def OperandMode.ofJson? : Loader OperandMode :=
  choice
    (fun name => [OperandMode.abc, .abx, .asbx].find? fun mode => mode.label == name)
    (fun _ _ _ => none)

/-- An operation; an undefined one may have any code. -/
def Opcode.ofJson? : Loader Opcode :=
  choice Opcode.ofLabel? fun name left content =>
    if name = "Unknown" then
      .unknown <$> uint8 left content
    else
      none

/-- An operand. -/
def Operand.ofJson? : Loader Operand :=
  choice (fun _ => none) fun name left content =>
    if name = "Abc" then
      record memberNames
        (fun left values =>
          match values with
          | [b, c] => do return .abc (← uint16 left b) (← uint16 left c)
          | _ => none)
        left content
    else if name = "Bx" then
      .bx <$> uint32 left content
    else if name = "SBx" then
      .sbx <$> int32 left content
    else
      none

/-- An instruction; its parts need not agree. -/
def Instruction.ofJson? : Loader Instruction :=
  record memberNames fun left values =>
    match values with
    | [raw, op, a, operand] => do
        return {
          raw := ← uint32 left raw
          op := ← Opcode.ofJson? left op
          a := ← uint8 left a
          operand := ← Operand.ofJson? left operand }
    | _ => none

/-- A local variable. -/
def LocalVariable.ofJson? : Loader LocalVariable :=
  record memberNames fun left values =>
    match values with
    | [name, startPc, endPc] => do
        return {
          name := ← text left name
          startPc := ← int64 left startPc
          endPc := ← int64 left endPc }
    | _ => none

/-- A prototype, which takes two levels of nesting for each level of functions. -/
def Prototype.ofJson? : Loader Prototype
  | left + 2, value => do
      match ← memberValues? memberNames value with
      | [sourceName, lineDefined, lastLineDefined, upvalueCount, parameterCount, vararg,
          maxStackSize, instructions, constants, .array children, lineInfo, locals,
          upvalueNames] =>
          let info : FunctionInfo := {
            sourceName := ← text (left + 1) sourceName
            lineDefined := ← int64 (left + 1) lineDefined
            lastLineDefined := ← int64 (left + 1) lastLineDefined
            upvalueCount := ← uint8 (left + 1) upvalueCount
            parameterCount := ← uint8 (left + 1) parameterCount
            vararg := ← VarargFlags.ofJson? (left + 1) vararg
            maxStackSize := ← uint8 (left + 1) maxStackSize
            instructions := ← list Instruction.ofJson? (left + 1) instructions
            constants := ← list Constant.ofJson? (left + 1) constants
            lineInfo := ← list int64 (left + 1) lineInfo
            locals := ← list LocalVariable.ofJson? (left + 1) locals
            upvalueNames := ← list text (left + 1) upvalueNames }
          let children ← children.mapM (Prototype.ofJson? left)
          return .node info children
      | _ => none
  | _, _ => none

/-- A chunk. -/
def Chunk.ofJson? : Loader Chunk :=
  record memberNames fun left values =>
    match values with
    | [header, main] => do
        return {
          header := ← Header.ofJson? left header
          main := ← Prototype.ofJson? left main }
    | _ => none

/-- The chunk that a text dumps. -/
def Chunk.parse?
    (text : String) : Option Chunk := do
  load? Chunk.ofJson? (← Value.parse? text)

end LuaBytecode
