import LuaBytecode.Pseudocode.Writer
import Mathlib.Tactic

/-!
# The pieces of a tree in order

The pseudocode of a tree is a list of lines and instructions.  The list is read
off the tree alone: the number in a head counts the heads of the functions that
come before it in the tree, and nothing is known of what was written.

The writer keeps that number in its state and stops at the first instruction
without statements.  It goes through the list nevertheless: each of its parts
traces the part of the list that belongs to it, and leaves as the next number the
number of heads up to there.

**Results.**
* `Prototype.flatten`: the list of a tree.
* `Traces.bind`: parts in sequence trace the parts of a list.
* `PseudocodeWriter.traces_writeFunction`, `PseudocodeWriter.traces_writeChunk`:
  functions, by recursion on the tree.
-/

namespace LuaBytecode

/-! ## Functions in order -/

namespace Prototype

mutual

/-- The functions of a tree, each before those defined in it. -/
def preorder :
    Prototype → List FunctionInfo
  | .node info children => info :: preorderAll children

/-- The functions of several trees. -/
def preorderAll :
    List Prototype → List FunctionInfo
  | [] => []
  | tree :: rest => preorder tree ++ preorderAll rest

end

mutual

theorem length_preorder :
    ∀ tree : Prototype, (preorder tree).length = count tree
  | .node info children => by
      rw [preorder, List.length_cons, length_preorderAll children, count_node]

theorem length_preorderAll :
    ∀ trees : List Prototype, (preorderAll trees).length = countAll trees
  | [] => by
      rw [preorderAll, List.length_nil, countAll_nil]
  | tree :: rest => by
      rw [preorderAll, List.length_append, length_preorder tree, length_preorderAll rest,
        countAll_cons]

end

end Prototype

/-- The number of functions with a head among the first `place` ones. -/
def headsBefore
    (functions : List FunctionInfo)
    (place : Nat) : Nat :=
  (functions.take place).countP fun info => !info.isMain

/-! ## Pieces -/

/-- The lines of a statement. -/
def Statement.lines
    (depth : Nat) :
    Statement → List Line
  | .line text => [⟨depth, text⟩]
  | .block head body =>
      ⟨depth, head⟩ :: body.map (fun text => ⟨depth + 1, text⟩) ++ [⟨depth, "end"⟩]

/-- The head of a function with a name, its parameters being `arg0`, `arg1` and so on. -/
def functionHead
    (name : String)
    (parameterCount : Nat) : String :=
  let parameters :=
    (List.range parameterCount).map fun index => "arg" ++ toString index
  "function " ++ name ++ "(" ++ String.intercalate ", " parameters ++ ")"

/-- A piece of the pseudocode of a tree. -/
inductive Item where
  | line (written : Line)
  | instruction (depth : Nat) (constants : List Constant) (pc : Nat) (ins : Instruction)

/-- The lines of a piece, unless it is an instruction without statements. -/
def Item.lower :
    Item → Except GenerateError (List Line)
  | .line written => .ok [written]
  | .instruction depth constants pc ins =>
      match Statement.ofInstruction constants pc ins with
      | .ok statements => .ok (statements.flatMap (Statement.lines depth))
      | .error error => .error error

/-- The lines that list the constants of a function, if they are wanted. -/
def constantItems
    (listConstants : Bool)
    (depth : Nat)
    (constants : List Constant) : List Item :=
  if listConstants then
    constants.mapIdx fun index constant =>
      .line ⟨depth, "const" ++ toString index ++ " = " ++ constant.text⟩
  else
    []

/-- The instructions of a function. -/
def instructionItems
    (depth : Nat)
    (constants : List Constant)
    (instructions : List Instruction) : List Item :=
  instructions.mapIdx fun pc ins => .instruction depth constants pc ins

/-- What a function holds: its constants, then `inner`, then its instructions. -/
def bodyItems
    (listConstants : Bool)
    (depth : Nat)
    (info : FunctionInfo)
    (inner : List Item) : List Item :=
  constantItems listConstants depth info.constants ++ inner ++
    instructionItems depth info.constants info.instructions

namespace Prototype

section Flattening

variable (listConstants : Bool) (functions : List FunctionInfo)

mutual

/-- The pieces of the function at `place` among all functions, and of those defined in it. -/
def items
    (place : Nat)
    (depth : Nat) :
    Prototype → List Item
  | .node info children =>
      if info.isMain then
        bodyItems listConstants depth info (itemsAll (place + 1) depth children)
      else
        .line ⟨depth, functionHead ("func" ++ toString (headsBefore functions place))
            info.parameterCount.toNat⟩ ::
          bodyItems listConstants (depth + 1) info (itemsAll (place + 1) (depth + 1) children) ++
          [.line ⟨depth, "end"⟩]

/-- The pieces of functions that stand one after the other. -/
def itemsAll
    (place : Nat)
    (depth : Nat) :
    List Prototype → List Item
  | [] => []
  | tree :: rest =>
      items place depth tree ++ itemsAll (place + count tree) depth rest

end

end Flattening

/-- The pieces of a tree. -/
def flatten
    (listConstants : Bool)
    (main : Prototype) : List Item :=
  items listConstants (preorder main) 0 0 main

end Prototype

/-! ## Writing pieces -/

section Emitting

variable {σ : Type} [LineSink σ]

/-- Writes a line to a sink. -/
def putLine
    (line : Line) : EStateM Error σ Unit :=
  fun sink =>
    match LineSink.writeLine line sink with
    | .ok () sink => .ok () sink
    | .error error sink => .error (.io error) sink

/-- Writes lines to a sink. -/
def putLines :
    List Line → EStateM Error σ Unit
  | [] => return ()
  | line :: rest => do
      putLine line
      putLines rest

/-- Writes the lines of a piece to a sink. -/
def Item.put
    (item : Item) : EStateM Error σ Unit :=
  match item.lower with
  | .ok lines => putLines lines
  | .error error => throw (.generate error)

/-- Writes pieces to a sink, up to the first that has no lines. -/
def emit :
    List Item → EStateM Error σ Unit
  | [] => return ()
  | item :: rest => do
      item.put
      emit rest

theorem putLines_append
    (first second : List Line) :
    (putLines (first ++ second) : EStateM Error σ Unit) =
      (do putLines first; putLines second) := by
  induction first with
  | nil =>
      rfl
  | cons line rest ih =>
      rw [List.cons_append, putLines, putLines, ih, bind_assoc]

/-- Pieces are written one behind the other, up to the first failure. -/
theorem emit_append
    (first second : List Item) :
    (emit (first ++ second) : EStateM Error σ Unit) =
      (do emit first; emit second) := by
  induction first with
  | nil =>
      rfl
  | cons item rest ih =>
      rw [List.cons_append, emit, emit, ih, bind_assoc]

theorem emit_singleton
    (item : Item) :
    (emit [item] : EStateM Error σ Unit) = item.put := by
  rw [emit, emit]
  exact bind_pure _

/--
What is written is what the pieces say, and `first` and `next` are the numbers
of the next head before and after it.  After a failure that number is left open.
-/
structure Traces
    (listConstants : Bool)
    (first next : Nat)
    (writing : Emission σ Unit)
    (pieces : List Item) : Prop where
  ok : ∀ {sink sink' : σ}, emit pieces sink = .ok () sink' →
    writing ⟨sink, first, listConstants⟩ = .ok () ⟨sink', next, listConstants⟩
  error : ∀ {sink sink' : σ} {error : Error}, emit pieces sink = .error error sink' →
    ∃ number, writing ⟨sink, first, listConstants⟩ =
      .error error ⟨sink', number, listConstants⟩

namespace Traces

variable {listConstants : Bool} {first middle next : Nat}

theorem pure :
    Traces (σ := σ) listConstants first first (pure ()) [] := by
  constructor
  · intro sink sink' h
    cases h
    rfl
  · intro sink sink' error h
    cases h

/-- What is written in sequence traces the pieces in sequence. -/
theorem bind
    {writing following : Emission σ Unit}
    {pieces others : List Item}
    (h : Traces listConstants first middle writing pieces)
    (h' : Traces listConstants middle next following others) :
    Traces listConstants first next (do writing; following) (pieces ++ others) := by
  constructor
  · intro sink sink' hrun
    rw [emit_append] at hrun
    cases hfirst : emit pieces sink with
    | ok _ reached =>
        simp only [Bind.bind, EStateM.bind, hfirst] at hrun
        simp only [Bind.bind, EStateM.bind, h.ok hfirst]
        exact h'.ok hrun
    | error error reached =>
        simp only [Bind.bind, EStateM.bind, hfirst] at hrun
        cases hrun
  · intro sink sink' error hrun
    rw [emit_append] at hrun
    cases hfirst : emit pieces sink with
    | ok _ reached =>
        simp only [Bind.bind, EStateM.bind, hfirst] at hrun
        simp only [Bind.bind, EStateM.bind, h.ok hfirst]
        exact h'.error hrun
    | error error reached =>
        simp only [Bind.bind, EStateM.bind, hfirst] at hrun
        cases hrun
        obtain ⟨number, hwriting⟩ := h.error hfirst
        exact ⟨number, by simp only [Bind.bind, EStateM.bind, hwriting]⟩

/-- Pieces that are written alike may stand for each other. -/
theorem congr
    {writing : Emission σ Unit}
    {pieces others : List Item}
    (h : Traces listConstants first next writing pieces)
    (hsame : (emit others : EStateM Error σ Unit) = emit pieces) :
    Traces listConstants first next writing others := by
  constructor
  · intro sink sink' hrun
    rw [hsame] at hrun
    exact h.ok hrun
  · intro sink sink' error hrun
    rw [hsame] at hrun
    exact h.error hrun

/-- Taking a number for a head counts that head. -/
theorem takeNumber
    {writing : Nat → Emission σ Unit}
    {pieces : List Item}
    (h : Traces listConstants (first + 1) next (writing first) pieces) :
    Traces listConstants first next (PseudocodeWriter.takeNumber >>= writing) pieces :=
  ⟨fun hrun => h.ok hrun, fun hrun => h.error hrun⟩

end Traces

theorem put_line
    (line : Line) :
    ((Item.line line).put : EStateM Error σ Unit) = putLine line :=
  bind_pure _

theorem emit_map_line
    (lines : List Line) :
    (emit (lines.map Item.line) : EStateM Error σ Unit) = putLines lines := by
  induction lines with
  | nil =>
      rfl
  | cons line rest ih =>
      rw [List.map_cons, emit, ih, put_line]
      rfl

/-- A piece with lines is written by them. -/
theorem put_of_lower_ok
    {item : Item}
    {lines : List Line}
    (h : item.lower = .ok lines) :
    (item.put : EStateM Error σ Unit) = putLines lines := by
  rw [Item.put, h]

/-- An instruction without statements is reported, and nothing is written of it. -/
theorem put_of_lower_error
    {item : Item}
    {error : GenerateError}
    (h : item.lower = .error error) :
    (item.put : EStateM Error σ Unit) = throw (.generate error) := by
  rw [Item.put, h]

namespace PseudocodeWriter

variable (listConstants : Bool)

/-! ## Lines and instructions -/

/-- A line is a piece of its own, and takes no number. -/
theorem traces_writeLine
    (first depth : Nat)
    (text : String) :
    Traces listConstants first first (writeLine (σ := σ) depth text) [.line ⟨depth, text⟩] := by
  constructor
  · intro sink sink' hrun
    rw [emit_singleton, put_line, putLine] at hrun
    rw [writeLine]
    cases hline : LineSink.writeLine ⟨depth, text⟩ sink with
    | ok _ reached =>
        rw [hline] at hrun
        cases hrun
        rfl
    | error error reached =>
        rw [hline] at hrun
        cases hrun
  · intro sink sink' error hrun
    rw [emit_singleton, put_line, putLine] at hrun
    refine ⟨first, ?_⟩
    rw [writeLine]
    cases hline : LineSink.writeLine ⟨depth, text⟩ sink with
    | ok _ reached =>
        rw [hline] at hrun
        cases hrun
    | error error reached =>
        rw [hline] at hrun
        cases hrun
        rfl

theorem traces_writeLines
    (first depth : Nat)
    (texts : List String) :
    Traces listConstants first first (writeLines (σ := σ) depth texts)
      (texts.map fun text => .line ⟨depth, text⟩) := by
  induction texts with
  | nil =>
      exact Traces.pure
  | cons text rest ih =>
      exact (traces_writeLine listConstants first depth text).bind ih

theorem traces_writeStatement
    (first depth : Nat)
    (statement : Statement) :
    Traces listConstants first first (writeStatement (σ := σ) depth statement)
      ((statement.lines depth).map Item.line) := by
  cases statement with
  | line text =>
      exact traces_writeLine listConstants first depth text
  | block head body =>
      have hhead := traces_writeLine (σ := σ) listConstants first depth head
      have hbody := traces_writeLines (σ := σ) listConstants first (depth + 1) body
      have hend := traces_writeLine (σ := σ) listConstants first depth "end"
      have hpieces : ((Statement.block head body).lines depth).map Item.line =
          [.line ⟨depth, head⟩] ++ (body.map (fun text => .line ⟨depth + 1, text⟩) ++
            [.line ⟨depth, "end"⟩]) := by
        simp [Statement.lines]
      rw [hpieces]
      exact hhead.bind (hbody.bind hend)

theorem traces_writeStatements
    (first depth : Nat)
    (statements : List Statement) :
    Traces listConstants first first (writeStatements (σ := σ) depth statements)
      ((statements.flatMap (Statement.lines depth)).map Item.line) := by
  induction statements with
  | nil =>
      exact Traces.pure
  | cons statement rest ih =>
      rw [List.flatMap_cons, List.map_append]
      exact (traces_writeStatement listConstants first depth statement).bind ih

/-- An instruction is one piece, whether or not it has statements. -/
theorem traces_writeInstruction
    (first depth : Nat)
    (constants : List Constant)
    (pc : Nat)
    (ins : Instruction) :
    Traces listConstants first first (writeInstruction (σ := σ) depth constants pc ins)
      [.instruction depth constants pc ins] := by
  rw [writeInstruction]
  cases hlower : Statement.ofInstruction constants pc ins with
  | ok statements =>
      refine (traces_writeStatements listConstants first depth statements).congr ?_
      have hlines : (Item.instruction depth constants pc ins).lower =
          .ok (statements.flatMap (Statement.lines depth)) := by
        rw [Item.lower, hlower]
      rw [emit_singleton, put_of_lower_ok hlines, emit_map_line]
  | error error =>
      have hnone : (Item.instruction depth constants pc ins).lower = .error error := by
        rw [Item.lower, hlower]
      constructor
      · intro sink sink' hrun
        rw [emit_singleton, put_of_lower_error hnone] at hrun
        cases hrun
      · intro sink sink' error' hrun
        rw [emit_singleton, put_of_lower_error hnone] at hrun
        cases hrun
        exact ⟨first, rfl⟩

/-- Instructions from `pc` on; the list of pieces counts from there. -/
theorem traces_writeInstructions
    (first depth : Nat)
    (constants : List Constant)
    (pc : Nat)
    (instructions : List Instruction) :
    Traces listConstants first first (writeInstructions (σ := σ) depth constants pc instructions)
      (instructions.mapIdx fun index ins => .instruction depth constants (pc + index) ins) := by
  induction instructions generalizing pc with
  | nil =>
      exact Traces.pure
  | cons ins rest ih =>
      rw [List.mapIdx_cons]
      simp only [Nat.add_zero, ← Nat.add_assoc, Nat.add_right_comm pc _ 1]
      exact (traces_writeInstruction listConstants first depth constants pc ins).bind
        (ih (pc + 1))

/-- The constants are counted from the first one on. -/
theorem constantLines_eq
    (index : Nat)
    (constants : List Constant) :
    constantLines index constants =
      constants.mapIdx fun offset constant =>
        "const" ++ toString (index + offset) ++ " = " ++ constant.text := by
  induction constants generalizing index with
  | nil =>
      rfl
  | cons constant rest ih =>
      rw [constantLines, ih, List.mapIdx_cons]
      simp only [Nat.add_zero, Nat.add_assoc, Nat.add_comm 1]

/-- The list of constants is there if it is wanted. -/
theorem traces_writeConstants
    (first depth : Nat)
    (constants : List Constant) :
    Traces listConstants first first (writeConstants (σ := σ) depth constants)
      (constantItems listConstants depth constants) := by
  cases listConstants with
  | false =>
      exact ⟨fun hrun => Traces.pure.ok hrun, fun hrun => Traces.pure.error hrun⟩
  | true =>
      have h := traces_writeLines (σ := σ) true first depth (constantLines 0 constants)
      have hpieces : constantItems true depth constants =
          (constantLines 0 constants).map fun text => .line ⟨depth, text⟩ := by
        simp [constantItems, constantLines_eq, List.mapIdx_eq_zipIdx_map]
      rw [hpieces]
      exact ⟨fun hrun => h.ok hrun, fun hrun => h.error hrun⟩

/-- What a function holds, around what is written of the functions defined in it. -/
theorem traces_writeBody
    {first next depth : Nat}
    {info : FunctionInfo}
    {inner : Emission σ Unit}
    {pieces : List Item}
    (h : Traces listConstants first next inner pieces) :
    Traces listConstants first next (writeBody depth info inner)
      (bodyItems listConstants depth info pieces) := by
  have hconstants := traces_writeConstants (σ := σ) listConstants first depth info.constants
  have hcode := traces_writeInstructions (σ := σ) listConstants next depth info.constants 0
    info.instructions
  have hzero : (info.instructions.mapIdx fun index ins =>
      Item.instruction depth info.constants (0 + index) ins) =
        instructionItems depth info.constants info.instructions := by
    simp only [instructionItems, Nat.zero_add]
  rw [hzero] at hcode
  rw [bodyItems, List.append_assoc]
  exact hconstants.bind (h.bind hcode)

/-! ## Trees -/

variable (functions : List FunctionInfo)

/-- One function more is one head more, unless it is a main one. -/
theorem headsBefore_succ
    {place : Nat}
    {info : FunctionInfo}
    {others : List FunctionInfo}
    (h : info :: others <+: functions.drop place) :
    headsBefore functions (place + 1) =
      headsBefore functions place + if info.isMain then 0 else 1 := by
  obtain ⟨rest, hrest⟩ := h
  have hone : (functions.drop place).take 1 = [info] := by
    rw [← hrest]
    rfl
  rw [headsBefore, headsBefore, List.take_add, hone, List.countP_append, List.countP_singleton]
  cases info.isMain <;> rfl

/-- What stands behind the first part of a list in a larger one. -/
theorem append_prefix_drop
    {first second : List FunctionInfo}
    {place : Nat}
    (h : first ++ second <+: functions.drop place) :
    second <+: functions.drop (place + first.length) := by
  obtain ⟨rest, hrest⟩ := h
  rw [← List.drop_drop, ← hrest, List.append_assoc, List.drop_left]
  exact ⟨rest, rfl⟩

/-- The writer numbers a function where its head names it. -/
theorem headText_eq
    (number parameterCount : Nat) :
    headText number parameterCount =
      functionHead ("func" ++ toString number) parameterCount := by
  have hfunc : "function func" = "function " ++ "func" := rfl
  unfold headText functionHead
  simp only [hfunc, String.append_assoc]

mutual

/--
A function at `place` among all functions traces its pieces: the next number is
the number of heads before it, and afterwards that of the heads before what
follows it.
-/
theorem traces_writeFunction :
    ∀ (tree : Prototype) (place depth : Nat), tree.preorder <+: functions.drop place →
      Traces listConstants (headsBefore functions place)
        (headsBefore functions (place + tree.count)) (writeFunction (σ := σ) depth tree)
        (tree.items listConstants functions place depth)
  | .node info children, place, depth, h => by
      rw [Prototype.preorder] at h
      have hself : [info] ++ Prototype.preorderAll children <+: functions.drop place := h
      have hinner := append_prefix_drop functions hself
      have hnext := headsBefore_succ functions h
      have hcount : place + 1 + Prototype.countAll children =
          place + (Prototype.node info children).count := by
        rw [Prototype.count_node]
        omega
      rw [writeFunction, Prototype.items, ← hcount]
      by_cases hmain : info.isMain = true
      · rw [if_pos hmain] at hnext
        rw [if_pos hmain, if_pos hmain, ← Nat.add_zero (headsBefore functions place), ← hnext]
        exact traces_writeBody listConstants
          (traces_writeFunctions children (place + 1) depth hinner)
      · rw [if_neg hmain] at hnext
        rw [if_neg hmain, if_neg hmain]
        refine Traces.takeNumber ?_
        rw [← hnext, ← headText_eq]
        have hhead := traces_writeLine (σ := σ) listConstants (headsBefore functions (place + 1))
          depth (headText (headsBefore functions place) info.parameterCount.toNat)
        have hchildren := traces_writeFunctions children (place + 1) (depth + 1) hinner
        have hend := traces_writeLine (σ := σ) listConstants
          (headsBefore functions (place + 1 + Prototype.countAll children)) depth "end"
        exact hhead.bind ((traces_writeBody listConstants hchildren).bind hend)

theorem traces_writeFunctions :
    ∀ (trees : List Prototype) (place depth : Nat),
      Prototype.preorderAll trees <+: functions.drop place →
      Traces listConstants (headsBefore functions place)
        (headsBefore functions (place + Prototype.countAll trees))
        (writeFunctions (σ := σ) depth trees)
        (Prototype.itemsAll listConstants functions place depth trees)
  | [], place, depth, _ => by
      rw [writeFunctions, Prototype.itemsAll]
      exact Traces.pure
  | tree :: rest, place, depth, h => by
      rw [Prototype.preorderAll] at h
      have hfirst : tree.preorder <+: functions.drop place :=
        (List.prefix_append _ _).trans h
      have hrest := append_prefix_drop functions h
      rw [Prototype.length_preorder] at hrest
      rw [writeFunctions, Prototype.itemsAll, Prototype.countAll_cons, ← Nat.add_assoc]
      exact (traces_writeFunction tree place depth hfirst).bind
        (traces_writeFunctions rest (place + tree.count) depth hrest)

end

/-- A tree traces its pieces from any number on, since the count starts anew. -/
theorem traces_writeChunk
    (number : Nat)
    (main : Prototype) :
    Traces listConstants number (headsBefore main.preorder main.count)
      (writeChunk (σ := σ) main) (main.flatten listConstants) := by
  have hself : main.preorder <+: main.preorder.drop 0 := List.prefix_rfl
  have h := traces_writeFunction (σ := σ) listConstants main.preorder main 0 0 hself
  rw [Nat.zero_add] at h
  exact ⟨fun hrun => h.ok hrun, fun hrun => h.error hrun⟩

end PseudocodeWriter
end Emitting
end LuaBytecode
