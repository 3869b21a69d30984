import LuaBytecode.Error

/-!
# Listings

A listing shows the functions of a tree one after the other, each with its
attributes, its constants and its instructions.  The functions still to be shown
are kept on a stack, whose top is shown next and replaced by the functions
defined in it; functions that are not main ones are numbered in that order.

An instruction is shown from its operation, A and operand as they are stored.  A
comment behind it gives the constants it uses or the place it jumps to.

**Contents.**
* `Listing.comment?`: the comment of an instruction.
* `Listing.functionLines`: the listing of one function.
* `Listing.walk`: the functions of a tree with their names.
* `Listing.write`, `Prototype.listing`: the listing of a tree.
-/

namespace LuaBytecode
namespace Listing

/-! ## Comments -/

/-- Which of B and C may name a constant. -/
structure RkFields where
  b : Bool
  c : Bool
  deriving DecidableEq

/-- The fields of an operation that name a register or a constant. -/
def rkFields :
    Opcode → RkFields
  | .setTable
  | .add
  | .sub
  | .mul
  | .div
  | .mod
  | .pow
  | .eq
  | .lt
  | .le => ⟨true, true⟩
  | .getTable
  | .self => ⟨false, true⟩
  | _ => ⟨false, false⟩

/-- A constant, or a mark in its place if the table is too short. -/
def constantText
    (constants : List Constant)
    (index : Nat) : String :=
  match constants[index]? with
  | some constant => constant.text
  | none => "<const:" ++ toString index ++ ">"

/-- The index of the constant that a field names. -/
def constantIndex?
    (selected : Bool)
    (field : UInt16) : Option Nat :=
  match selected, Rk.ofField field with
  | true, .constant index => some index.toNat
  | _, _ => none

/-- The indices of the constants that B and C name. -/
def rkConstants
    (op : Opcode)
    (b : UInt16)
    (c : UInt16) : List Nat :=
  (constantIndex? (rkFields op).b b).toList ++ (constantIndex? (rkFields op).c c).toList

/-- What is said behind the instruction at `pc`, if anything. -/
def comment?
    (constants : List Constant)
    (pc : Nat)
    (ins : Instruction) : Option String :=
  match ins.operand with
  | .bx index =>
      if ins.op = .closure then
        some ("proto[" ++ toString index.toNat ++ "]")
      else
        some (constantText constants index.toNat)
  | .sbx offset => some ("to " ++ toString ((pc : Int) + 1 + offset.toInt))
  | .abc b c =>
      match rkConstants ins.op b c with
      | [] => none
      | indices => some (String.intercalate " " (indices.map (constantText constants)))

/-! ## Functions -/

/-- A number of at least five digits. -/
def pcText
    (pc : Nat) : String :=
  let digits := toString pc
  String.ofList (List.replicate (5 - digits.length) '0') ++ digits

/-- The line of the instruction at `pc`, with its source line if that is known. -/
def instructionText
    (info : FunctionInfo)
    (pc : Nat)
    (ins : Instruction) : String :=
  let source :=
    match info.lineInfo[pc]? with
    | some line => " [" ++ toString (line + 1).toInt ++ "]"
    | none => ""
  let remark :=
    match comment? info.constants pc ins with
    | some comment => " ; " ++ comment
    | none => ""
  "  " ++ pcText pc ++ source ++ " " ++ ins.text ++ remark ++ "\n"

/-- The lines of the instructions from `pc` on. -/
def instructionLines
    (info : FunctionInfo) :
    Nat → List Instruction → List String
  | _, [] => []
  | pc, ins :: rest => instructionText info pc ins :: instructionLines info (pc + 1) rest

/-- The lines of the constants from `index` on. -/
def constantLines :
    Nat → List Constant → List String
  | _, [] => []
  | index, constant :: rest =>
      ("  [" ++ toString index ++ "] " ++ constant.text ++ "\n") ::
        constantLines (index + 1) rest

/-- The first line of a function. -/
def headText
    (name : String)
    (info : FunctionInfo) : String :=
  "function " ++ name ++ " (lines " ++ toString info.lineDefined.toInt ++ ".." ++
    toString info.lastLineDefined.toInt ++ ", params=" ++
    toString info.parameterCount.toNat ++ ", upvalues=" ++
    toString info.upvalueCount.toNat ++ ", vararg=" ++ info.vararg.text ++ ", stack=" ++
    toString info.maxStackSize.toNat ++ ")\n"

/-- The lines of a function; an empty source name and an empty table are left out. -/
def functionLines
    (name : String)
    (info : FunctionInfo) : List String :=
  let source :=
    if info.sourceName = "" then
      []
    else
      ["source: " ++ info.sourceName ++ "\n"]
  let constants :=
    match info.constants with
    | [] => []
    | table => "constants:\n" :: constantLines 0 table
  headText name info ::
    source ++ constants ++ "code:\n" :: instructionLines info 0 info.instructions

/-! ## Trees -/

/--
The functions on a stack with their names, `next` being the first number not yet
given.  The numbers are naturals; a counter of 32 bits gives the same names as long
as there are fewer than `2 ^ 32` functions.
-/
def walk
    (next : Nat) :
    List Prototype → List (String × FunctionInfo)
  | [] => []
  | .node info children :: rest =>
      if info.isMain then
        ("main", info) :: walk next (children ++ rest)
      else
        ("func" ++ toString next, info) :: walk (next + 1) (children ++ rest)
  termination_by stack => Prototype.countAll stack
  decreasing_by all_goals simp only [Prototype.countAll_append, Prototype.countAll_cons,
    Prototype.count_node]; omega

/-- A computation that writes. -/
abbrev Writing (σ : Type) := EStateM SinkError σ

variable {σ : Type} [ByteSink σ]

/-- Writes lines that bring their own ends. -/
def writeAll :
    List String → Writing σ Unit
  | [] => return ()
  | text :: rest => do
      ByteSink.writeText text
      writeAll rest

/-- Writes named functions with an empty line before each. -/
def writeFollowing :
    List (String × FunctionInfo) → Writing σ Unit
  | [] => return ()
  | (name, info) :: rest => do
      ByteSink.writeText "\n"
      writeAll (functionLines name info)
      writeFollowing rest

/-- Writes named functions with an empty line between them. -/
def writeFunctions :
    List (String × FunctionInfo) → Writing σ Unit
  | [] => return ()
  | (name, info) :: rest => do
      writeAll (functionLines name info)
      writeFollowing rest

/-- Writes the listing of a tree. -/
def write
    (main : Prototype) : Writing σ Unit :=
  writeFunctions (walk 0 [main])

end Listing

/-- The listing of a tree. -/
def Prototype.listing
    (main : Prototype) : Except Error String :=
  match Listing.write main Sink.unlimited with
  | .ok () sink => .ok sink.text
  | .error error _ => .error (.io error)

end LuaBytecode
