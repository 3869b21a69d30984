import LuaBytecode.Listing
import LuaBytecode.Pseudocode.Writer
import Mathlib.Data.List.Forall2

/-!
# Fields that are not read

Two trees of one shape are compared whose functions differ only where a rendering
does not look.  Pseudocode is made from the words of the instructions, whatever
operands are stored beside them, and from nothing that is only of use to debug a
function.  A listing is made from the operands, whatever the words are.  So both
trees are rendered in one way, to every sink, with one result.

**Results.**
* `Prototype.Alike`: trees of one shape with related functions.
* `PseudocodeWriter.writeFunction_congr`: pseudocode of alike trees.
* `Listing.walk_congr`, `Listing.functionLines_congr`: listings of alike trees.
* `Prototype.renderings_of_alike`: both renderings.
* `Prototype.writeChunk_stripped`: a tree without its names and lines.
-/

namespace LuaBytecode

/-! ## Trees of one shape -/

namespace Prototype

mutual

/-- Trees of one shape, in which functions at the same place are related. -/
inductive Alike
    (R : FunctionInfo → FunctionInfo → Prop) :
    Prototype → Prototype → Prop
  | node {f g : FunctionInfo} {firsts seconds : List Prototype}
      (hinfo : R f g)
      (hchildren : AllAlike R firsts seconds) :
      Alike R (.node f firsts) (.node g seconds)

/-- As many trees, each alike to the one at the same place. -/
inductive AllAlike
    (R : FunctionInfo → FunctionInfo → Prop) :
    List Prototype → List Prototype → Prop
  | nil :
      AllAlike R [] []
  | cons {first second : Prototype} {firsts seconds : List Prototype}
      (hfirst : Alike R first second)
      (hrest : AllAlike R firsts seconds) :
      AllAlike R (first :: firsts) (second :: seconds)

end

/-- Lists of alike trees may be put together. -/
theorem AllAlike.append
    {R : FunctionInfo → FunctionInfo → Prop}
    {firsts seconds others more : List Prototype}
    (h : AllAlike R firsts seconds)
    (h' : AllAlike R others more) :
    AllAlike R (firsts ++ others) (seconds ++ more) := by
  induction firsts generalizing seconds with
  | nil =>
      cases h
      exact h'
  | cons first rest ih =>
      cases h with
      | cons hfirst hrest =>
          exact .cons hfirst (ih hrest)

end Prototype

/-! ## Instructions and functions -/

namespace Instruction

/-- Instructions with one word, and one operation and A; what is stored as operand may differ. -/
structure SameWord
    (first second : Instruction) : Prop where
  op : first.op = second.op
  a : first.a = second.a
  raw : first.raw = second.raw

/-- Instructions with one operation, A and operand; their words may differ. -/
structure SameOperand
    (first second : Instruction) : Prop where
  op : first.op = second.op
  a : first.a = second.a
  operand : first.operand = second.operand

end Instruction

namespace FunctionInfo

/-- Functions that agree in all that their pseudocode is made from. -/
structure SameInPseudocode
    (f g : FunctionInfo) : Prop where
  isMain : f.isMain = g.isMain
  parameterCount : f.parameterCount = g.parameterCount
  constants : f.constants = g.constants
  instructions : List.Forall₂ Instruction.SameWord f.instructions g.instructions

/-- Functions that differ at most in words, local variables and names of upvalues. -/
structure SameInListing
    (f g : FunctionInfo) : Prop where
  sourceName : f.sourceName = g.sourceName
  lineDefined : f.lineDefined = g.lineDefined
  lastLineDefined : f.lastLineDefined = g.lastLineDefined
  upvalueCount : f.upvalueCount = g.upvalueCount
  parameterCount : f.parameterCount = g.parameterCount
  vararg : f.vararg = g.vararg
  maxStackSize : f.maxStackSize = g.maxStackSize
  instructions : List.Forall₂ Instruction.SameOperand f.instructions g.instructions
  constants : f.constants = g.constants
  lineInfo : f.lineInfo = g.lineInfo

/-- Whether a function is a main one is told by its lines, and a listing shows these. -/
theorem SameInListing.isMain
    {f g : FunctionInfo}
    (h : f.SameInListing g) :
    f.isMain = g.isMain := by
  rw [FunctionInfo.isMain, FunctionInfo.isMain, h.lineDefined, h.lastLineDefined]

end FunctionInfo

open Prototype

/-! ## Pseudocode -/

/-- B, C and Bx are taken from the word of an instruction, so no statement shows the operand. -/
theorem Statement.ofInstruction_congr
    {first second : Instruction}
    (h : first.SameWord second)
    (constants : List Constant)
    (pc : Nat) :
    ofInstruction constants pc first = ofInstruction constants pc second := by
  obtain ⟨raw, op, a, operand⟩ := first
  obtain ⟨rfl, rfl, rfl⟩ := h
  rfl

namespace PseudocodeWriter

variable {σ : Type} [LineSink σ]

/-- Instructions with the same words are written alike. -/
theorem writeInstructions_congr
    {firsts seconds : List Instruction}
    (h : List.Forall₂ Instruction.SameWord firsts seconds)
    (depth : Nat)
    (constants : List Constant)
    (pc : Nat) :
    (writeInstructions depth constants pc firsts : Emission σ Unit) =
      writeInstructions depth constants pc seconds := by
  induction h generalizing pc with
  | nil =>
      rfl
  | cons hfirst _ ih =>
      rw [writeInstructions, writeInstructions, ih, writeInstruction, writeInstruction,
        Statement.ofInstruction_congr hfirst]

/-- What a function holds is written from its constants and its words. -/
theorem writeBody_congr
    {f g : FunctionInfo}
    (h : f.SameInPseudocode g)
    (depth : Nat)
    (inner : Emission σ Unit) :
    writeBody depth f inner = writeBody depth g inner := by
  rw [writeBody, writeBody, h.constants, writeInstructions_congr h.instructions]

mutual

/-- Functions are written alike by recursion on trees of one shape. -/
theorem writeFunction_congr
    {first second : Prototype}
    (h : first.Alike FunctionInfo.SameInPseudocode second)
    (depth : Nat) :
    (writeFunction depth first : Emission σ Unit) = writeFunction depth second := by
  cases h with
  | node hinfo hchildren =>
      rw [writeFunction, writeFunction, hinfo.isMain, hinfo.parameterCount,
        writeFunctions_congr hchildren depth, writeFunctions_congr hchildren (depth + 1),
        writeBody_congr hinfo, writeBody_congr hinfo]

theorem writeFunctions_congr
    {firsts seconds : List Prototype}
    (h : AllAlike FunctionInfo.SameInPseudocode firsts seconds)
    (depth : Nat) :
    (writeFunctions depth firsts : Emission σ Unit) = writeFunctions depth seconds := by
  cases h with
  | nil =>
      rfl
  | cons hfirst hrest =>
      rw [writeFunctions, writeFunctions, writeFunction_congr hfirst, writeFunctions_congr hrest]

end

/-- Pseudocode shows nothing of operands, debugging data and names. -/
theorem writeChunk_congr
    {first second : Prototype}
    (h : first.Alike FunctionInfo.SameInPseudocode second) :
    (writeChunk first : Emission σ Unit) = writeChunk second := by
  rw [writeChunk, writeChunk, writeFunction_congr h]

end PseudocodeWriter

/-! ## Listings -/

namespace Listing

/-- A comment is made from the operation and the operand. -/
theorem comment?_congr
    {first second : Instruction}
    (h : first.SameOperand second)
    (constants : List Constant)
    (pc : Nat) :
    comment? constants pc first = comment? constants pc second := by
  rw [comment?, comment?, h.op, h.operand]

/-- The line of an instruction shows its operand, its comment and its source line. -/
theorem instructionText_congr
    {f g : FunctionInfo}
    {first second : Instruction}
    (hinfo : f.SameInListing g)
    (h : first.SameOperand second)
    (pc : Nat) :
    instructionText f pc first = instructionText g pc second := by
  have htext : first.text = second.text := by
    rw [Instruction.text, Instruction.text, h.op, h.a, h.operand]
  rw [instructionText, instructionText, hinfo.lineInfo, hinfo.constants, comment?_congr h, htext]

theorem instructionLines_congr
    {f g : FunctionInfo}
    (hinfo : f.SameInListing g)
    {firsts seconds : List Instruction}
    (h : List.Forall₂ Instruction.SameOperand firsts seconds)
    (pc : Nat) :
    instructionLines f pc firsts = instructionLines g pc seconds := by
  induction h generalizing pc with
  | nil =>
      rfl
  | cons hfirst _ ih =>
      rw [instructionLines, instructionLines, ih, instructionText_congr hinfo hfirst]

/-- The first line of a function shows its attributes only. -/
theorem headText_congr
    {f g : FunctionInfo}
    (h : f.SameInListing g)
    (name : String) :
    headText name f = headText name g := by
  unfold headText
  rw [h.lineDefined, h.lastLineDefined, h.parameterCount, h.upvalueCount, h.vararg,
    h.maxStackSize]

/-- A function is listed from what both functions have in common. -/
theorem functionLines_congr
    {f g : FunctionInfo}
    (h : f.SameInListing g)
    (name : String) :
    functionLines name f = functionLines name g := by
  rw [functionLines, functionLines, headText_congr h, h.sourceName, h.constants,
    instructionLines_congr h h.instructions]

/-- Listed functions with one name and related attributes. -/
def Corresponds
    (R : FunctionInfo → FunctionInfo → Prop)
    (entry other : String × FunctionInfo) : Prop :=
  entry.1 = other.1 ∧ R entry.2 other.2

/-- Trees of one shape, of which the same functions are main ones, are walked in one order. -/
theorem walk_congr
    {R : FunctionInfo → FunctionInfo → Prop}
    (hmain : ∀ f g, R f g → f.isMain = g.isMain)
    (next : Nat)
    {stack other : List Prototype}
    (h : AllAlike R stack other) :
    List.Forall₂ (Corresponds R) (walk next stack) (walk next other) := by
  induction next, stack using walk.induct generalizing other with
  | case1 next =>
      cases h
      rw [walk]
      exact .nil
  | case2 next info children rest hinfo ih =>
      cases h with
      | cons hfirst hrest =>
          cases hfirst with
          | node hrelated hchildren =>
              have hother := (hmain _ _ hrelated).symm.trans hinfo
              rw [walk, walk, if_pos hinfo, if_pos hother]
              exact .cons ⟨rfl, hrelated⟩ (ih (hchildren.append hrest))
  | case3 next info children rest hinfo ih =>
      cases h with
      | cons hfirst hrest =>
          cases hfirst with
          | node hrelated hchildren =>
              have hother := hmain _ _ hrelated ▸ hinfo
              rw [walk, walk, if_neg hinfo, if_neg hother]
              exact .cons ⟨rfl, hrelated⟩ (ih (hchildren.append hrest))

variable {σ : Type} [ByteSink σ]

/-- Listed functions that correspond to each other are written alike. -/
theorem writeFollowing_congr
    {entries others : List (String × FunctionInfo)}
    (h : List.Forall₂ (Corresponds FunctionInfo.SameInListing) entries others) :
    (writeFollowing entries : Writing σ Unit) = writeFollowing others := by
  induction h with
  | nil =>
      rfl
  | @cons entry other _ _ hfirst _ ih =>
      obtain ⟨name, f⟩ := entry
      obtain ⟨_, g⟩ := other
      obtain ⟨rfl, hinfo⟩ := hfirst
      rw [writeFollowing, writeFollowing, ih, functionLines_congr hinfo]

theorem writeFunctions_congr
    {entries others : List (String × FunctionInfo)}
    (h : List.Forall₂ (Corresponds FunctionInfo.SameInListing) entries others) :
    (writeFunctions entries : Writing σ Unit) = writeFunctions others := by
  cases h with
  | nil =>
      rfl
  | @cons entry other _ _ hfirst hrest =>
      obtain ⟨name, f⟩ := entry
      obtain ⟨_, g⟩ := other
      obtain ⟨rfl, hinfo⟩ := hfirst
      rw [writeFunctions, writeFunctions, functionLines_congr hinfo, writeFollowing_congr hrest]

theorem write_congr
    {first second : Prototype}
    (h : first.Alike FunctionInfo.SameInListing second) :
    (write first : Writing σ Unit) = write second := by
  have hwalk := walk_congr (fun _ _ => FunctionInfo.SameInListing.isMain) 0 (.cons h .nil)
  rw [write, write, writeFunctions_congr hwalk]

end Listing

/-! ## Both renderings -/

/--
Pseudocode is blind to what only serves debugging, and a listing to words.

Let two trees have one shape.  If at each place both functions are main ones or
neither is, and they have the same number of parameters, the same constants, and
instructions with the same operations, A and words, then writing pseudocode does
the same with every writer, whether or not it lists constants.  If they differ in
nothing but words, local variables and names of upvalues, then writing a listing
does the same with every sink.
-/
theorem Prototype.renderings_of_alike
    {σ τ : Type}
    [LineSink σ]
    [ByteSink τ]
    {first second : Prototype} :
    (first.Alike FunctionInfo.SameInPseudocode second →
      (PseudocodeWriter.writeChunk first : Emission σ Unit) =
        PseudocodeWriter.writeChunk second) ∧
    (first.Alike FunctionInfo.SameInListing second →
      (Listing.write first : Listing.Writing τ Unit) = Listing.write second) :=
  ⟨PseudocodeWriter.writeChunk_congr, Listing.write_congr⟩

/-- A function with one parameter that returns the string `x`. -/
def FunctionInfo.exampleInner : FunctionInfo where
  sourceName := ""
  lineDefined := 3
  lastLineDefined := 5
  upvalueCount := 1
  parameterCount := 1
  vararg := ⟨0⟩
  maxStackSize := 2
  instructions := [Instruction.decode 0x00000041, Instruction.decode 0x0100005e]
  constants := [.string "x"]
  lineInfo := [3, 4]
  locals := [⟨"parameter", 0, 2⟩]
  upvalueNames := ["outer"]

/-- The same function with other operands, and compiled elsewhere without debug data. -/
def FunctionInfo.exampleMoved : FunctionInfo :=
  { exampleInner with
    sourceName := "@moved.lua"
    lineDefined := 7
    lastLineDefined := 9
    upvalueCount := 0
    vararg := ⟨2⟩
    maxStackSize := 250
    instructions := exampleInner.instructions.map fun ins => { ins with operand := .sbx 1 }
    lineInfo := []
    locals := []
    upvalueNames := [] }

/-- The same function with other words and names. -/
def FunctionInfo.exampleReworded : FunctionInfo :=
  { exampleInner with
    instructions := exampleInner.instructions.map fun ins => { ins with raw := 0 }
    locals := [⟨"renamed", 1, 2⟩]
    upvalueNames := [] }

/-- A function inside of a main function with the same code. -/
def Prototype.exampleAround
    (inner : FunctionInfo) : Prototype :=
  .node { inner with lineDefined := 0, lastLineDefined := 0 } [.node inner []]

/-- Trees that differ in all that one rendering does not show, and are rendered alike. -/
theorem Prototype.exampleAround_renderings :
    (exampleAround .exampleInner).Alike FunctionInfo.SameInPseudocode
        (exampleAround .exampleMoved) ∧
      (PseudocodeWriter.writeChunk (exampleAround .exampleInner) : Emission Sink Unit) =
        PseudocodeWriter.writeChunk (exampleAround .exampleMoved) ∧
      (exampleAround .exampleInner).Alike FunctionInfo.SameInListing
        (exampleAround .exampleReworded) ∧
      (Listing.write (exampleAround .exampleInner) : Listing.Writing Sink Unit) =
        Listing.write (exampleAround .exampleReworded) := by
  have hwords : List.Forall₂ Instruction.SameWord FunctionInfo.exampleInner.instructions
      FunctionInfo.exampleMoved.instructions :=
    .cons ⟨rfl, rfl, rfl⟩ (.cons ⟨rfl, rfl, rfl⟩ .nil)
  have hoperands : List.Forall₂ Instruction.SameOperand FunctionInfo.exampleInner.instructions
      FunctionInfo.exampleReworded.instructions :=
    .cons ⟨rfl, rfl, rfl⟩ (.cons ⟨rfl, rfl, rfl⟩ .nil)
  have hmoved : (exampleAround .exampleInner).Alike FunctionInfo.SameInPseudocode
      (exampleAround .exampleMoved) :=
    .node ⟨rfl, rfl, rfl, hwords⟩ (.cons (.node ⟨rfl, rfl, rfl, hwords⟩ .nil) .nil)
  have hreworded : (exampleAround .exampleInner).Alike FunctionInfo.SameInListing
      (exampleAround .exampleReworded) :=
    .node ⟨rfl, rfl, rfl, rfl, rfl, rfl, rfl, hoperands, rfl, rfl⟩
      (.cons (.node ⟨rfl, rfl, rfl, rfl, rfl, rfl, rfl, hoperands, rfl, rfl⟩ .nil) .nil)
  exact ⟨hmoved, (@renderings_of_alike Sink Sink _ _ _ _).1 hmoved,
    hreworded, (@renderings_of_alike Sink Sink _ _ _ _).2 hreworded⟩

/-! ## Stripped trees -/

/-- A function without its source name, its source lines and the names of its variables. -/
def FunctionInfo.stripped
    (info : FunctionInfo) : FunctionInfo :=
  { info with
    sourceName := ""
    lineInfo := []
    locals := []
    upvalueNames := [] }

theorem FunctionInfo.sameInPseudocode_stripped
    (info : FunctionInfo) :
    info.stripped.SameInPseudocode info where
  isMain := rfl
  parameterCount := rfl
  constants := rfl
  instructions := List.forall₂_same.2 fun _ _ => ⟨rfl, rfl, rfl⟩

namespace Prototype

mutual

/-- A tree of stripped functions. -/
def stripped :
    Prototype → Prototype
  | .node info children => .node info.stripped (strippedAll children)

/-- Trees of stripped functions. -/
def strippedAll :
    List Prototype → List Prototype
  | [] => []
  | tree :: rest => stripped tree :: strippedAll rest

end

mutual

/-- A tree without names and lines has the same pseudocode at each place. -/
theorem alike_stripped :
    (tree : Prototype) → tree.stripped.Alike FunctionInfo.SameInPseudocode tree
  | .node info children => by
      rw [stripped]
      exact .node info.sameInPseudocode_stripped (allAlike_strippedAll children)

theorem allAlike_strippedAll :
    (trees : List Prototype) → AllAlike FunctionInfo.SameInPseudocode (strippedAll trees) trees
  | [] => by
      rw [strippedAll]
      exact .nil
  | tree :: rest => by
      rw [strippedAll]
      exact .cons (alike_stripped tree) (allAlike_strippedAll rest)

end

/-- To strip a tree does not change how its pseudocode is written. -/
theorem writeChunk_stripped
    {σ : Type}
    [LineSink σ]
    (main : Prototype) :
    (PseudocodeWriter.writeChunk main.stripped : Emission σ Unit) =
      PseudocodeWriter.writeChunk main :=
  PseudocodeWriter.writeChunk_congr main.alike_stripped

end Prototype
end LuaBytecode
