import LuaBytecode.Proofs.BlockStack
import LuaBytecode.Proofs.WrittenLines

/-!
# Indentation of pseudocode

The depth of a line is handed down from function to function and from a block to
what it holds.  In the lines that are written it is the number of open blocks, and
a block is closed by the line that belongs to it.  If the writing ends early, the
blocks that stay open are the functions around the instruction that ended it.

**Results.**
* `Prototype.halt?`: the first instruction without statements, and the functions
  around it.
* `Traverses`: what pieces do to the stack of open blocks, up to the end of the writing.
* `Prototype.traverses_items`: functions, by recursion on the tree.
* `PseudocodeWriter.writeChunk_indented`: the lines of a run.
-/

namespace LuaBytecode

/-! ## Halts -/

/-- An instruction without statements, where the writing of a tree ends. -/
structure Halt where
  /-- The functions around the instruction, the outermost first and its own one last. -/
  path : List FunctionInfo
  error : GenerateError

namespace Halt

/-- The same in a function that is defined in another one. -/
def within
    (info : FunctionInfo)
    (halt : Halt) : Halt :=
  { halt with path := info :: halt.path }

/-- The number of functions with a head around an instruction. -/
def heads
    (halt : Halt) : Nat :=
  halt.path.countP fun info => !info.isMain

/-- A main function around an instruction has no head. -/
theorem heads_within_of_isMain
    {info : FunctionInfo}
    (h : info.isMain = true)
    (halt : Halt) :
    (halt.within info).heads = halt.heads :=
  List.countP_cons_of_neg (by simp [h])

/-- Every other function around an instruction has one. -/
theorem heads_within
    {info : FunctionInfo}
    (h : ¬ info.isMain = true)
    (halt : Halt) :
    (halt.within info).heads = halt.heads + 1 :=
  List.countP_cons_of_pos (by simp [h])

end Halt

/-- The first instruction of a function without statements. -/
def FunctionInfo.halt?
    (info : FunctionInfo) : Option Halt :=
  info.instructions.zipIdx.findSome? fun entry =>
    match Statement.ofInstruction info.constants entry.2 entry.1 with
    | .ok _ => none
    | .error error => some ⟨[], error⟩

namespace Prototype

mutual

/--
The first instruction of a tree without statements; the functions defined in another
one come before its instructions.
-/
def halt? :
    Prototype → Option Halt
  | .node info children =>
      ((haltAll? children).or info.halt?).map (Halt.within info)

/-- The first such instruction of trees that stand one after the other. -/
def haltAll? :
    List Prototype → Option Halt
  | [] => none
  | tree :: rest => (halt? tree).or (haltAll? rest)

end
end Prototype

/-! ## Statements -/

namespace Statement

variable {constants : List Constant} {pc depth : Nat} {ins : Instruction}
variable {statements : List Statement}

/-- No line of an instruction opens a block, a conditional assignment apart. -/
theorem opens_of_begins
    {text : String}
    (h : Begins text)
    (depth : Nat) :
    (Line.mk depth text).opens = false := by
  obtain ⟨beginning, rest, rfl⟩ := h
  rw [Line.opens, Line.isHead, String.toList_append]
  cases beginning <;> rfl

theorem closes_of_begins
    {text : String}
    (h : Begins text)
    (depth : Nat) :
    (Line.mk depth text).closes = false := by
  obtain ⟨beginning, rest, rfl⟩ := h
  cases beginning <;> exact Line.closes_append rfl (by decide) depth rest

/-- The head of a conditional assignment opens a block, since a register stands in front. -/
theorem opens_if_register
    (depth index : Nat) :
    (Line.mk depth ("if " ++ register index)).opens = true := by
  rw [Line.opens, register, ← String.append_assoc, Bool.or_eq_true]
  simp only [String.toList_append, List.isPrefixOf_iff_prefix]
  exact Or.inr (List.prefix_append _ _)

theorem flatMap_lines_block
    (head body : String)
    (depth : Nat) :
    [block head [body]].flatMap (lines depth) =
      [⟨depth, head⟩, ⟨depth + 1, body⟩, ⟨depth, "end"⟩] := rfl

/-- The lines of a conditional assignment are a block, and other lines stand at one depth. -/
theorem lines_ofInstruction
    (h : ofInstruction constants pc ins = .ok statements)
    (depth : Nat) :
    if ins.op = .testSet then
      ∃ opener body : Line,
        statements.flatMap (lines depth) = [opener, body, ⟨depth, "end"⟩] ∧
          opener.opens = true ∧ opener.depth = depth ∧
          body.opens = false ∧ body.closes = false ∧ body.depth = depth + 1
    else
      ∀ line ∈ statements.flatMap (lines depth),
        line.opens = false ∧ line.closes = false ∧ line.depth = depth := by
  by_cases hop : ins.op = .testSet
  · rw [ofInstruction_of_testSet constants pc hop] at h
    cases h
    have hbody := ((begins_register ins.a.toNat).append " = ").append (register ins.b.toNat)
    have hhead := Line.opens_append (Line.opens_append (Line.opens_append
      (opens_if_register depth ins.b.toNat) " <=> ") (toString ins.c.toNat)) " then"
    rw [if_pos hop, flatMap_lines_block]
    exact ⟨_, _, rfl, hhead, rfl, opens_of_begins hbody _, closes_of_begins hbody _, rfl⟩
  · rw [if_neg hop]
    intro line hline
    obtain ⟨statement, hstatement, hline⟩ := List.mem_flatMap.1 hline
    obtain ⟨text, rfl, htext⟩ :=
      allSimple_ofInstruction constants pc hop statements h statement hstatement
    rw [lines, List.mem_singleton] at hline
    rw [hline]
    exact ⟨opens_of_begins htext _, closes_of_begins htext _, rfl⟩

/-- The lines of an instruction are indented rightly, and leave no block open. -/
theorem nests_ofInstruction
    (h : ofInstruction constants pc ins = .ok statements)
    (stack : List Line) :
    Nests stack (statements.flatMap (lines stack.length)) stack := by
  have hlines := lines_ofInstruction h stack.length
  by_cases hop : ins.op = .testSet
  · rw [if_pos hop] at hlines
    obtain ⟨opener, body, hshape, hopens, hdepth, hinner, hcloses, hbody⟩ := hlines
    rw [hshape]
    exact .cons (.opener hopens hdepth)
      (.cons (.inner hinner hcloses hbody) (.single (.closer rfl rfl)))
  · rw [if_neg hop] at hlines
    exact .of_inner hlines

/-- Only conditional assignments open and close a block. -/
theorem blocks_ofInstruction
    (h : ofInstruction constants pc ins = .ok statements)
    (depth : Nat) :
    let blocks := if ins.op = .testSet then 1 else 0
    openers (statements.flatMap (lines depth)) = blocks ∧
      closers (statements.flatMap (lines depth)) = blocks := by
  have hlines := lines_ofInstruction h depth
  by_cases hop : ins.op = .testSet
  · rw [if_pos hop] at hlines ⊢
    obtain ⟨opener, body, hshape, hopens, -, hinner, hcloses, -⟩ := hlines
    have hend : (Line.mk depth "end").closes = true := rfl
    rw [hshape]
    simp [hopens, hinner, hcloses, hend, Line.closes_of_opens hopens, Line.opens_of_closes hend]
  · rw [if_neg hop] at hlines ⊢
    exact ⟨List.countP_eq_zero.2 fun line hline => by simp [(hlines line hline).1],
      List.countP_eq_zero.2 fun line hline => by simp [(hlines line hline).2.1]⟩

end Statement

/-! ## Pieces -/

/-- The number of blocks that stay open where the writing ends. -/
def leftOpen :
    Option Halt → Nat
  | none => 0
  | some halt => halt.heads

/--
Pieces at `depth` that fail where `halt` says, and whose lines are indented
rightly up to there.  The blocks that they leave open are the functions around
the instruction that fails.
-/
structure Traverses
    (depth : Nat)
    (pieces : List Item)
    (halt : Option Halt) : Prop where
  failure : failure? pieces = halt.map Halt.error
  nests : ∀ stack : List Line, stack.length = depth →
    ∃ opened, Nests stack (writtenLines pieces) (opened ++ stack) ∧
      opened.length = leftOpen halt

namespace Traverses

variable {depth : Nat} {pieces first second : List Item} {halt halt' : Option Halt}

theorem nil :
    Traverses depth [] none :=
  ⟨rfl, fun _ _ => ⟨[], .nil, rfl⟩⟩

/-- Lines that open and close nothing stand in the block around them. -/
theorem lines
    {written : List Line}
    (h : ∀ line ∈ written, line.opens = false ∧ line.closes = false ∧ line.depth = depth) :
    Traverses depth (written.map Item.line) none := by
  have hnone : failure? (written.map Item.line) = none :=
    List.findSome?_eq_none_iff.2 fun item hitem => by
      obtain ⟨line, -, rfl⟩ := List.mem_map.1 hitem
      rfl
  refine ⟨hnone, ?_⟩
  rintro stack rfl
  rw [writtenLines_of_failure?_eq_none hnone, flatMap_lines_map_line]
  exact ⟨[], .of_inner h, rfl⟩

/--
Pieces that leave no block open are followed by others; those behind a failure are
not reached.
-/
theorem append
    (h : Traverses depth first halt)
    (h' : Traverses depth second halt') :
    Traverses depth (first ++ second) (halt.or halt') := by
  constructor
  · rw [failure?_append, h.failure, h'.failure]
    cases halt <;> rfl
  · intro stack hstack
    obtain ⟨opened, hfirst, hopened⟩ := h.nests stack hstack
    rw [writtenLines_append, h.failure]
    cases halt with
    | none =>
        obtain rfl := List.eq_nil_of_length_eq_zero hopened
        obtain ⟨opened', hsecond, hopened'⟩ := h'.nests stack hstack
        exact ⟨opened', hfirst.append hsecond, hopened'⟩
    | some halt =>
        refine ⟨opened, ?_, hopened⟩
        simpa using hfirst

/-- Pieces for the entries of a list; the first entry that has a failure decides. -/
theorem map
    {α : Type}
    {entries : List α}
    {piece : α → Item}
    {halt? : α → Option Halt}
    (h : ∀ entry ∈ entries, Traverses depth [piece entry] (halt? entry)) :
    Traverses depth (entries.map piece) (entries.findSome? halt?) := by
  induction entries with
  | nil =>
      exact nil
  | cons entry rest ih =>
      rw [List.forall_mem_cons] at h
      have hboth := h.1.append (ih h.2)
      have hfirst : (entry :: rest).findSome? halt? =
          (halt? entry).or (rest.findSome? halt?) := by
        rw [List.findSome?_cons]
        cases halt? entry <;> rfl
      rw [hfirst]
      exact hboth

/-- An instruction leaves no block open, unless it fails. -/
theorem instruction
    (constants : List Constant)
    (pc : Nat)
    (ins : Instruction) :
    Traverses depth [.instruction depth constants pc ins]
      (match Statement.ofInstruction constants pc ins with
        | .ok _ => none
        | .error error => some ⟨[], error⟩) := by
  cases hlower : Statement.ofInstruction constants pc ins with
  | ok statements =>
      have hlines : (Item.instruction depth constants pc ins).lower =
          .ok (statements.flatMap (Statement.lines depth)) := by
        rw [Item.lower, hlower]
      constructor
      · rw [failure?_cons_of_ok hlines]
        rfl
      · rintro stack rfl
        rw [writtenLines_cons_of_ok hlines]
        exact ⟨[], (Statement.nests_ofInstruction hlower stack).append .nil, rfl⟩
  | error error =>
      have hnone : (Item.instruction depth constants pc ins).lower = .error error := by
        rw [Item.lower, hlower]
      constructor
      · rw [failure?_cons_of_error hnone]
        rfl
      · intro stack _
        rw [writtenLines_cons_of_error hnone]
        exact ⟨[], .nil, rfl⟩

/-- A function without a head has no block of its own. -/
theorem of_isMain
    {info : FunctionInfo}
    (hmain : info.isMain = true)
    (h : Traverses depth pieces halt) :
    Traverses depth pieces (halt.map (Halt.within info)) := by
  constructor
  · rw [h.failure, Option.map_map]
    rfl
  · intro stack hstack
    obtain ⟨opened, hnests, hopened⟩ := h.nests stack hstack
    refine ⟨opened, hnests, hopened.trans ?_⟩
    cases halt with
    | none =>
        rfl
    | some halt =>
        exact (halt.heads_within_of_isMain hmain).symm

/-- The block of a function is closed by its end, unless an instruction inside ends the writing. -/
theorem enclosed
    {info : FunctionInfo}
    (hmain : ¬ info.isMain = true)
    {head : String}
    (hopens : (Line.mk depth head).opens = true)
    (h : Traverses (depth + 1) pieces halt) :
    Traverses depth (.line ⟨depth, head⟩ :: pieces ++ [.line ⟨depth, "end"⟩])
      (halt.map (Halt.within info)) := by
  have hlower : (Item.line ⟨depth, head⟩).lower = .ok [⟨depth, head⟩] := rfl
  have hend : writtenLines [.line ⟨depth, "end"⟩] = [⟨depth, "end"⟩] := rfl
  constructor
  · rw [List.cons_append, failure?_cons_of_ok hlower, failure?_append, h.failure,
      Option.map_map]
    cases halt <;> rfl
  · intro stack hstack
    have hstep : Line.Step stack ⟨depth, head⟩ (⟨depth, head⟩ :: stack) :=
      .opener hopens hstack.symm
    obtain ⟨opened, hnests, hopened⟩ :=
      h.nests (⟨depth, head⟩ :: stack) (by rw [List.length_cons, hstack])
    rw [List.cons_append, writtenLines_cons_of_ok hlower, writtenLines_append, h.failure, hend]
    cases halt with
    | none =>
        obtain rfl := List.eq_nil_of_length_eq_zero hopened
        have hclose : Line.Step (⟨depth, head⟩ :: stack) ⟨depth, "end"⟩ stack :=
          .closer rfl hstack.symm
        exact ⟨[], .cons hstep (hnests.append (.single hclose)), rfl⟩
    | some halt =>
        refine ⟨opened ++ [⟨depth, head⟩], ?_, ?_⟩
        · rw [List.append_assoc]
          exact .cons hstep (by simpa using hnests)
        · rw [List.length_append, hopened]
          exact (halt.heads_within hmain).symm

end Traverses

/-- The head of a function opens its block. -/
theorem opens_functionHead
    (depth : Nat)
    (name : String)
    (parameterCount : Nat) :
    (Line.mk depth (functionHead name parameterCount)).opens = true := by
  rw [Line.opens, isHead_functionHead, Bool.true_or]

theorem opens_constant
    (depth : Nat)
    (rest : String) :
    (Line.mk depth ("const" ++ rest)).opens = false := by
  rw [Line.opens, Line.isHead, String.toList_append]
  rfl

theorem closes_constant
    (depth : Nat)
    (rest : String) :
    (Line.mk depth ("const" ++ rest)).closes = false :=
  Line.closes_append rfl (by decide) depth rest

/-- Constants are listed by lines that open and close nothing. -/
theorem traverses_constantItems
    (listConstants : Bool)
    (depth : Nat)
    (constants : List Constant) :
    Traverses depth (constantItems listConstants depth constants) none := by
  obtain ⟨lines, hitems, hlines⟩ := exists_constantItems_eq listConstants depth constants
  rw [hitems]
  refine Traverses.lines fun line hline => ?_
  obtain ⟨rest, rfl⟩ := hlines line hline
  exact ⟨opens_constant depth rest, closes_constant depth rest, rfl⟩

theorem traverses_instructionItems
    (depth : Nat)
    (info : FunctionInfo) :
    Traverses depth (instructionItems depth info.constants info.instructions) info.halt? := by
  rw [instructionItems, List.mapIdx_eq_zipIdx_map, FunctionInfo.halt?]
  exact Traverses.map fun entry _ => Traverses.instruction info.constants entry.2 entry.1

/-- What a function holds stands in the block of the function. -/
theorem traverses_bodyItems
    (listConstants : Bool)
    {depth : Nat}
    (info : FunctionInfo)
    {inner : List Item}
    {halt : Option Halt}
    (h : Traverses depth inner halt) :
    Traverses depth (bodyItems listConstants depth info inner) (halt.or info.halt?) :=
  ((traverses_constantItems listConstants depth info.constants).append h).append
    (traverses_instructionItems depth info)

namespace Prototype

variable (listConstants : Bool) (functions : List FunctionInfo)

mutual

/-- A tree leaves no block open, or those of the functions around the instruction that fails. -/
theorem traverses_items :
    ∀ (tree : Prototype) (place depth : Nat),
      Traverses depth (tree.items listConstants functions place depth) tree.halt?
  | .node info children, place, depth => by
      rw [items, halt?]
      by_cases hmain : info.isMain = true
      · rw [if_pos hmain]
        exact (traverses_bodyItems listConstants info
          (traverses_itemsAll children (place + 1) depth)).of_isMain hmain
      · rw [if_neg hmain]
        exact (traverses_bodyItems listConstants info
          (traverses_itemsAll children (place + 1) (depth + 1))).enclosed hmain
            (opens_functionHead depth _ _)

theorem traverses_itemsAll :
    ∀ (trees : List Prototype) (place depth : Nat),
      Traverses depth (itemsAll listConstants functions place depth trees) (haltAll? trees)
  | [], place, depth => by
      rw [itemsAll, haltAll?]
      exact Traverses.nil
  | tree :: rest, place, depth => by
      rw [itemsAll, haltAll?]
      exact (traverses_items tree place depth).append
        (traverses_itemsAll rest (place + tree.count) depth)

end
end Prototype

/-! ## Ends -/

theorem closers_instruction
    (depth : Nat)
    (constants : List Constant)
    (pc : Nat)
    (ins : Instruction) :
    closers (Item.instruction depth constants pc ins).lines =
      if ins.op = .testSet then 1 else 0 := by
  rw [Item.lines, Item.lower]
  cases hlower : Statement.ofInstruction constants pc ins with
  | ok statements =>
      exact (Statement.blocks_ofInstruction hlower depth).2
  | error error =>
      have hop : ins.op ≠ .testSet := fun hop => by
        rw [Statement.ofInstruction_of_testSet constants pc hop] at hlower
        cases hlower
      rw [if_neg hop]
      rfl

/-- The number of conditional assignments among instructions. -/
def FunctionInfo.testSets
    (info : FunctionInfo) : Nat :=
  info.instructions.countP fun ins => ins.op == .testSet

/-- Among instructions only conditional assignments have an end of their own. -/
theorem closers_instructionItems
    (depth : Nat)
    (info : FunctionInfo) :
    closers ((instructionItems depth info.constants info.instructions).flatMap Item.lines) =
      info.testSets := by
  rw [instructionItems, List.mapIdx_eq_zipIdx_map, FunctionInfo.testSets]
  generalize 0 = start
  induction info.instructions generalizing start with
  | nil =>
      rfl
  | cons ins rest ih =>
      rw [List.zipIdx_cons, List.map_cons, List.flatMap_cons, closers_append, ih,
        closers_instruction, List.countP_cons, Nat.add_comm]
      simp

theorem closers_constantItems
    (listConstants : Bool)
    (depth : Nat)
    (constants : List Constant) :
    closers ((constantItems listConstants depth constants).flatMap Item.lines) = 0 := by
  obtain ⟨lines, hitems, hlines⟩ := exists_constantItems_eq listConstants depth constants
  rw [hitems, flatMap_lines_map_line]
  refine List.countP_eq_zero.2 fun line hline => ?_
  obtain ⟨rest, rfl⟩ := hlines line hline
  simp [closes_constant]

/-- The ends in what a function holds, those of inner functions among them. -/
theorem closers_bodyItems
    (listConstants : Bool)
    (depth : Nat)
    (info : FunctionInfo)
    (inner : List Item) :
    closers ((bodyItems listConstants depth info inner).flatMap Item.lines) =
      closers (inner.flatMap Item.lines) + info.testSets := by
  rw [bodyItems, List.flatMap_append, List.flatMap_append, closers_append, closers_append,
    closers_constantItems, closers_instructionItems, Nat.zero_add]

/-- The number of functions with a head, and of conditional assignments. -/
def endsOf
    (functions : List FunctionInfo) : Nat :=
  (functions.countP fun info => !info.isMain) + (functions.map FunctionInfo.testSets).sum

/-- A function has the ends of its conditional assignments, and its own if it is not a main one. -/
theorem endsOf_cons
    (info : FunctionInfo)
    (rest : List FunctionInfo) :
    endsOf (info :: rest) =
      endsOf rest + info.testSets + if info.isMain then 0 else 1 := by
  rw [endsOf, endsOf, List.countP_cons, List.map_cons, List.sum_cons]
  cases info.isMain <;> simp <;> omega

theorem endsOf_append
    (first second : List FunctionInfo) :
    endsOf (first ++ second) = endsOf first + endsOf second := by
  rw [endsOf, endsOf, endsOf, List.countP_append, List.map_append, List.sum_append]
  omega

namespace Prototype

variable (listConstants : Bool) (functions : List FunctionInfo)

mutual

/-- The ends in a tree are those of its functions. -/
theorem closers_items :
    ∀ (tree : Prototype) (place depth : Nat),
      closers ((tree.items listConstants functions place depth).flatMap Item.lines) =
        endsOf tree.preorder
  | .node info children, place, depth => by
      rw [items, preorder, endsOf_cons]
      by_cases hmain : info.isMain = true
      · rw [if_pos hmain, if_pos hmain, closers_bodyItems,
          closers_itemsAll children (place + 1) depth, Nat.add_zero]
      · have hhead (name : String) (parameterCount : Nat) :
            (Line.mk depth (functionHead name parameterCount)).closes = false :=
          Line.closes_of_opens (opens_functionHead depth name parameterCount)
        have hend : (Line.mk depth "end").closes = true := rfl
        have hline (written : Line) : (Item.line written).lines = [written] := rfl
        rw [if_neg hmain, if_neg hmain, List.flatMap_append, List.flatMap_cons, closers_append,
          closers_append, closers_bodyItems, closers_itemsAll children (place + 1) (depth + 1)]
        simp [hline, hhead, hend]

theorem closers_itemsAll :
    ∀ (trees : List Prototype) (place depth : Nat),
      closers ((itemsAll listConstants functions place depth trees).flatMap Item.lines) =
        endsOf (preorderAll trees)
  | [], place, depth => by
      rw [itemsAll, preorderAll]
      rfl
  | tree :: rest, place, depth => by
      rw [itemsAll, preorderAll, List.flatMap_append, closers_append, endsOf_append,
        closers_items tree place depth, closers_itemsAll rest (place + tree.count) depth]

end
end Prototype

/-! ## Runs -/

/--
The lines that are written of a tree, which are those that a sink for bytes
without a limit holds as text.  At every line no more blocks were closed than
opened, the depth is the number of open blocks, and a line that closes a block
closes the innermost one, at the depth at which that was opened.  The head of a
function opens a block, and among the lines of an instruction only those of a
conditional assignment do.

If the writing is complete all blocks are closed, one for each function that is
not a main one and one for each conditional assignment.  If it ends at an
instruction, as many blocks stay open as there are functions that are not main
ones around that instruction.
-/
theorem PseudocodeWriter.writeChunk_indented
    (main : Prototype)
    (listConstants : Bool)
    (number : Nat) :
    let run := outcome (writeChunk main ⟨LineLog.mk [], number, listConstants⟩)
    let lines := run.2.lines
    (∀ sink : Sink,
      outcome (writeChunk main ⟨{ sink with limit := none }, number, listConstants⟩) =
        (run.1, { sink with
          stored := sink.stored ++ (Line.renderAll lines).toUTF8
          limit := none })) ∧
    Indented lines ∧
    (∀ depth number parameterCount, (Line.mk depth (headText number parameterCount)).opens = true) ∧
    (∀ constants pc ins statements depth,
      Statement.ofInstruction constants pc ins = .ok statements →
        openers (statements.flatMap (Statement.lines depth)) =
          if ins.op = .testSet then 1 else 0) ∧
    match main.halt? with
    | none =>
        run.1 = .ok () ∧ openers lines = closers lines ∧
          closers lines = (main.preorder.countP fun info => !info.isMain) +
            (main.preorder.map FunctionInfo.testSets).sum
    | some halt =>
        run.1 = .error (.generate halt.error) ∧
          openers lines = closers lines + halt.path.countP fun info => !info.isMain := by
  intro run lines
  have hrun : run = (runResult (failure? (main.flatten listConstants)),
      ⟨[] ++ writtenLines (main.flatten listConstants)⟩) :=
    outcome_log main listConstants number ⟨[]⟩
  have hlines : lines = writtenLines (main.flatten listConstants) :=
    congrArg (fun run => run.2.lines) hrun
  have hresult : run.1 = runResult (failure? (main.flatten listConstants)) :=
    congrArg Prod.fst hrun
  have htraverses : Traverses 0 (main.flatten listConstants) main.halt? :=
    main.traverses_items listConstants main.preorder 0 0
  obtain ⟨opened, hnests, hopened⟩ := htraverses.nests [] rfl
  have hfailure := htraverses.failure
  have hcount := hnests.length_add_openers
  rw [List.append_nil, hopened] at hcount
  have hheads (depth number parameterCount : Nat) :
      (Line.mk depth (headText number parameterCount)).opens = true := by
    rw [headText_eq]
    exact opens_functionHead depth _ parameterCount
  refine ⟨fun sink => ?_, ?_, hheads,
    fun _ _ _ _ depth h => (Statement.blocks_ofInstruction h depth).1, ?_⟩
  · rw [outcome_sink, hresult, hlines]
  · rw [hlines]
    exact hnests.indented
  · rw [hresult, hlines, hfailure]
    cases hhalt : main.halt? with
    | none =>
        rw [hhalt] at hcount hfailure
        have hclosers := Prototype.closers_items listConstants main.preorder main 0 0
        rw [← Prototype.flatten, ← writtenLines_of_failure?_eq_none hfailure] at hclosers
        refine ⟨rfl, ?_, hclosers⟩
        simpa [leftOpen] using hcount
    | some halt =>
        rw [hhalt] at hcount
        refine ⟨rfl, ?_⟩
        rw [leftOpen, Halt.heads, List.length_nil] at hcount
        omega

end LuaBytecode
