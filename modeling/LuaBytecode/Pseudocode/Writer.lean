import LuaBytecode.Error

/-!
# Writing pseudocode

Functions are written one inside the other, each line after as many tabs as
there are functions and blocks around it.  A function that is not a main one
stands between a head with its number and `end`; the number counts the heads
written since the chunk began.  Inner functions come before the statements of
the function that holds them.  An instruction without statement ends the
writing, and what was written stays.

**Contents.**
* `Line`, and `LineSink`: what lines can be written to.
* `PseudocodeWriter`: a sink with the number of the next function.
* `PseudocodeWriter.writeChunk`: a whole tree; the writer can be used again
  afterwards, whatever the outcome.
* `Prototype.pseudocode`: the text of a tree.
-/

namespace LuaBytecode

/-- A line of pseudocode and the number of functions and blocks around it. -/
structure Line where
  depth : Nat
  text : String
  deriving DecidableEq

/-- Something that takes lines. -/
class LineSink (σ : Type) where
  /-- Takes one line, or as much of it as there is room for. -/
  writeLine : Line → EStateM SinkError σ Unit

/-- Writes tabs, one at a time. -/
def ByteSink.writeTabs
    {σ : Type}
    [ByteSink σ] :
    Nat → EStateM SinkError σ Unit
  | 0 => return ()
  | count + 1 => do
      writeText "\t"
      writeTabs count

/-- What takes bytes takes the tabs of a line, its text and a line break. -/
instance {σ : Type} [ByteSink σ] : LineSink σ where
  writeLine := fun line => do
    ByteSink.writeTabs line.depth
    ByteSink.writeText line.text
    ByteSink.writeText "\n"

/-- A sink for pseudocode. -/
structure PseudocodeWriter (σ : Type) where
  sink : σ
  /--
  The number of the next function head.  It is a natural number; a counter of 32
  bits agrees with it as long as there are fewer than `2 ^ 32` functions.
  -/
  nextFunction : Nat
  /-- Whether the constants of a function are listed before its body. -/
  listConstants : Bool

/-- A computation that writes pseudocode. -/
abbrev Emission (σ : Type) := EStateM Error (PseudocodeWriter σ)

namespace PseudocodeWriter

variable {σ : Type}

/-- A writer that has written nothing yet. -/
def new
    (sink : σ)
    (listConstants : Bool) : PseudocodeWriter σ where
  sink
  nextFunction := 0
  listConstants

variable [LineSink σ]

/-- Writes a line. -/
def writeLine
    (depth : Nat)
    (text : String) : Emission σ Unit :=
  fun writer =>
    match LineSink.writeLine ⟨depth, text⟩ writer.sink with
    | .ok () sink => .ok () { writer with sink }
    | .error error sink => .error (.io error) { writer with sink }

/-- Writes lines at one depth. -/
def writeLines
    (depth : Nat) :
    List String → Emission σ Unit
  | [] => return ()
  | text :: rest => do
      writeLine depth text
      writeLines depth rest

/-- Writes a statement. -/
def writeStatement
    (depth : Nat) :
    Statement → Emission σ Unit
  | .line text => writeLine depth text
  | .block head body => do
      writeLine depth head
      writeLines (depth + 1) body
      writeLine depth "end"

/-- Writes statements at one depth. -/
def writeStatements
    (depth : Nat) :
    List Statement → Emission σ Unit
  | [] => return ()
  | statement :: rest => do
      writeStatement depth statement
      writeStatements depth rest

/-- Writes the statements of an instruction, or nothing if it has none. -/
def writeInstruction
    (depth : Nat)
    (constants : List Constant)
    (pc : Nat)
    (ins : Instruction) : Emission σ Unit :=
  match Statement.ofInstruction constants pc ins with
  | .ok statements => writeStatements depth statements
  | .error error => throw (.generate error)

/-- Writes the instructions from `pc` on. -/
def writeInstructions
    (depth : Nat)
    (constants : List Constant) :
    Nat → List Instruction → Emission σ Unit
  | _, [] => return ()
  | pc, ins :: rest => do
      writeInstruction depth constants pc ins
      writeInstructions depth constants (pc + 1) rest

/-- The lines that list constants, the first of which has the number `index`. -/
def constantLines :
    Nat → List Constant → List String
  | _, [] => []
  | index, constant :: rest =>
      ("const" ++ toString index ++ " = " ++ constant.text) ::
        constantLines (index + 1) rest

/-- Writes the constants of a function if the writer lists them. -/
def writeConstants
    (depth : Nat)
    (constants : List Constant) : Emission σ Unit := do
  if (← get).listConstants then
    writeLines depth (constantLines 0 constants)

/-- Takes the number of the next function head. -/
def takeNumber : Emission σ Nat :=
  fun writer =>
    .ok writer.nextFunction
      { writer with nextFunction := writer.nextFunction + 1 }

/-- The head of a function. -/
def headText
    (number : Nat)
    (parameterCount : Nat) : String :=
  let parameters :=
    (List.range parameterCount).map fun index => "arg" ++ toString index
  "function func" ++ toString number ++ "(" ++ String.intercalate ", " parameters ++ ")"

/-- Writes what a function holds: its constants, its inner functions, its instructions. -/
def writeBody
    (depth : Nat)
    (info : FunctionInfo)
    (inner : Emission σ Unit) : Emission σ Unit := do
  writeConstants depth info.constants
  inner
  writeInstructions depth info.constants 0 info.instructions

mutual

/-- Writes a function; a main one has neither head nor end. -/
def writeFunction
    (depth : Nat) :
    Prototype → Emission σ Unit
  | .node info children =>
      if info.isMain then
        writeBody depth info (writeFunctions depth children)
      else do
        let number ← takeNumber
        writeLine depth (headText number info.parameterCount.toNat)
        writeBody (depth + 1) info (writeFunctions (depth + 1) children)
        writeLine depth "end"

/-- Writes functions one after the other. -/
def writeFunctions
    (depth : Nat) :
    List Prototype → Emission σ Unit
  | [] => return ()
  | tree :: rest => do
      writeFunction depth tree
      writeFunctions depth rest

end

/-- Writes a tree, its functions being numbered from 0. -/
def writeChunk
    (main : Prototype) : Emission σ Unit := do
  modify fun writer => { writer with nextFunction := 0 }
  writeFunction 0 main

end PseudocodeWriter

/-- The pseudocode of a tree. -/
def Prototype.pseudocode
    (main : Prototype)
    (listConstants : Bool) : Except Error String :=
  match PseudocodeWriter.writeChunk main (.new Sink.unlimited listConstants) with
  | .ok () writer => .ok writer.sink.text
  | .error error _ => .error error

end LuaBytecode
