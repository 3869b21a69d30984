import LuaBytecode.Bytes
import LuaBytecode.Double
import LuaBytecode.Double.Decimal
import LuaBytecode.Instruction

/-!
# Chunks

A chunk is a header and the prototype of its main function.  A prototype holds
what is known of one function and the prototypes of the functions defined in it,
so prototypes form a tree.

**Contents.**
* `Header`, `Constant`, `VarargFlags`, `LocalVariable`, `FunctionInfo`.
* `Prototype`: a tree of functions, and its size `Prototype.count`.
* `Chunk`.
* `Prototype.equal`, `Chunk.equal`: equality in which numbers are compared as
  numbers.
-/

namespace LuaBytecode

/-- The first bytes of a chunk. -/
structure Header where
  version : UInt8
  format : UInt8
  order : ByteOrder
  intWidth : UInt8
  sizeWidth : UInt8
  instructionWidth : UInt8
  numberWidth : UInt8
  integral : Bool
  deriving DecidableEq

/-- A literal value of a function. -/
inductive Constant where
  | nil
  | bool (value : Bool)
  | number (value : Double)
  | string (value : String)
  deriving DecidableEq

namespace Constant

/-- A constant as it stands in a listing or in pseudocode; strings are not escaped. -/
def text :
    Constant → String
  | .nil => "nil"
  | .bool value => if value then "true" else "false"
  | .number value => value.text
  | .string value => "\"" ++ value ++ "\""

/-- Equality of constants, numbers being compared as numbers. -/
def equal :
    Constant → Constant → Bool
  | .number x, .number y => x.equal y
  | x, y => x == y

end Constant

/-- How a function takes a variable number of arguments. -/
structure VarargFlags where
  bits : UInt8
  deriving DecidableEq

namespace VarargFlags

/-- Whether all bits of `flag` are set. -/
def contains
    (flags : VarargFlags)
    (flag : UInt8) : Bool :=
  flags.bits &&& flag == flag

/-- The named flags and their bits. -/
def named : List (UInt8 × String) :=
  [(1, "has"), (2, "is"), (4, "needs")]

/-- The names of the flags that are set. -/
def text
    (flags : VarargFlags) : String :=
  match named.filter fun entry => flags.contains entry.1 with
  | [] => "none"
  | set => String.intercalate "|" (set.map Prod.snd)

end VarargFlags

/-- A local variable and the instructions between which it lives. -/
structure LocalVariable where
  name : String
  startPc : Int64
  endPc : Int64
  deriving DecidableEq

/-- What is known of one function, apart from the functions defined in it. -/
structure FunctionInfo where
  sourceName : String
  lineDefined : Int64
  lastLineDefined : Int64
  upvalueCount : UInt8
  parameterCount : UInt8
  vararg : VarargFlags
  maxStackSize : UInt8
  instructions : List Instruction
  constants : List Constant
  /-- The source line of each instruction, the first line being 0. -/
  lineInfo : List Int64
  locals : List LocalVariable
  upvalueNames : List String
  deriving DecidableEq

/-- A main function is told by both of its lines being 0. -/
def FunctionInfo.isMain
    (info : FunctionInfo) : Bool :=
  info.lineDefined == 0 && info.lastLineDefined == 0

/-- Equality of functions, numbers among the constants being compared as numbers. -/
def FunctionInfo.equal
    (f : FunctionInfo)
    (g : FunctionInfo) : Bool :=
  f.constants.length == g.constants.length &&
    (f.constants.zip g.constants).all (fun pair => pair.1.equal pair.2) &&
    { f with constants := [] } == { g with constants := [] }

/-- A function with the functions defined in it. -/
inductive Prototype where
  | node (info : FunctionInfo) (children : List Prototype)

namespace Prototype

/-- The function at the root. -/
def info :
    Prototype → FunctionInfo
  | .node info _ => info

/-- The functions defined directly in the root. -/
def children :
    Prototype → List Prototype
  | .node _ children => children

mutual

/-- The number of functions of a tree. -/
def count :
    Prototype → Nat
  | .node _ children => countAll children + 1

/-- The number of functions of several trees. -/
def countAll :
    List Prototype → Nat
  | [] => 0
  | tree :: rest => count tree + countAll rest

end

@[simp] theorem count_node
    (info : FunctionInfo)
    (children : List Prototype) :
    count (.node info children) = countAll children + 1 := by
  rw [count]

@[simp] theorem countAll_nil :
    countAll [] = 0 := by
  rw [countAll]

@[simp] theorem countAll_cons
    (tree : Prototype)
    (rest : List Prototype) :
    countAll (tree :: rest) = count tree + countAll rest := by
  rw [countAll]

@[simp] theorem countAll_append
    (first : List Prototype)
    (second : List Prototype) :
    countAll (first ++ second) = countAll first + countAll second := by
  induction first with
  | nil => simp
  | cons tree rest ih =>
      simp only [List.cons_append, countAll_cons, ih]
      omega

mutual

/-- Equality of trees, numbers among the constants being compared as numbers. -/
def equal :
    Prototype → Prototype → Bool
  | .node f firsts, .node g seconds => f.equal g && equalAll firsts seconds

/-- Equality of lists of trees. -/
def equalAll :
    List Prototype → List Prototype → Bool
  | [], [] => true
  | first :: firsts, second :: seconds =>
      equal first second && equalAll firsts seconds
  | _, _ => false

end
end Prototype

/-- A compiled file. -/
structure Chunk where
  header : Header
  main : Prototype

/-- Equality of chunks, numbers among the constants being compared as numbers. -/
def Chunk.equal
    (first : Chunk)
    (second : Chunk) : Bool :=
  first.header == second.header && first.main.equal second.main

end LuaBytecode
