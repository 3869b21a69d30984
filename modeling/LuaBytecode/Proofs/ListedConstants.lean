import LuaBytecode.Proofs.FunctionHeads

/-!
# Listed constants

Whether the constants of functions are listed is the same to all other lines.
Pseudocode consists of portions, and one portion of each function is the list of
its constants: it stands where what the function holds begins, and it is the only
one that the choice concerns.  So the writing ends at the same portion under both
choices, and leaving the lists out of the one run gives the other.

**Results.**
* `Prototype.portions`: the portions of a tree, without regard to the choice.
* `Prototype.items_eq_flatMap_portions`: the pieces of a tree under either choice.
* `Prototype.Occurs.portions_eq`: where the constants of a function stand.
* `PseudocodeWriter.writeChunk_listConstants`: two runs that differ in the choice.
-/

namespace LuaBytecode

/-! ## Portions -/

/-- A portion of pseudocode: the constants of a function, or a piece that stands in any case. -/
inductive Portion where
  | constants (depth : Nat) (info : FunctionInfo)
  | piece (item : Item)

namespace Portion

/-- The lines of a portion, if constants are listed. -/
def lines :
    Portion → List Line
  | .constants depth info =>
      info.constants.mapIdx fun index constant =>
        ⟨depth, "const" ++ toString index ++ " = " ++ constant.text⟩
  | .piece item => item.lines

/-- The function whose constants a portion lists. -/
def listed? :
    Portion → Option FunctionInfo
  | .constants _ info => some info
  | .piece _ => none

/-- Why a portion has no lines; a list of constants always has them. -/
def error? :
    Portion → Option GenerateError
  | .constants _ _ => none
  | .piece item => item.error?

/-- The pieces of a portion. -/
def items
    (listConstants : Bool) :
    Portion → List Item
  | .constants depth info => constantItems listConstants depth info.constants
  | .piece item => [item]

end Portion

namespace FunctionInfo

/-- The depth of what a function at `depth` holds. -/
def bodyDepth
    (info : FunctionInfo)
    (depth : Nat) : Nat :=
  if info.isMain then depth else depth + 1

/-- The head of a function, if it has one. -/
def headPortions
    (info : FunctionInfo)
    (functions : List FunctionInfo)
    (place : Nat)
    (depth : Nat) : List Portion :=
  if info.isMain then
    []
  else
    [.piece (.line ⟨depth, functionHead ("func" ++ toString (headsBefore functions place))
      info.parameterCount.toNat⟩)]

/-- What a function holds: its constants first, then `inner`, then its instructions. -/
def bodyPortions
    (info : FunctionInfo)
    (depth : Nat)
    (inner : List Portion) : List Portion :=
  .constants depth info :: inner ++
    (instructionItems depth info.constants info.instructions).map .piece

/-- The end of a function that has a head. -/
def endPortions
    (info : FunctionInfo)
    (depth : Nat) : List Portion :=
  if info.isMain then
    []
  else
    [.piece (.line ⟨depth, "end"⟩)]

end FunctionInfo

namespace Prototype

section Portions

variable (functions : List FunctionInfo)

mutual

/-- The portions of the function at `place` among all functions, and of those defined in it. -/
def portions
    (place : Nat)
    (depth : Nat) :
    Prototype → List Portion
  | .node info children =>
      info.headPortions functions place depth ++
        info.bodyPortions (info.bodyDepth depth)
          (portionsAll (place + 1) (info.bodyDepth depth) children) ++
        info.endPortions depth

/-- The portions of functions that stand one after the other. -/
def portionsAll
    (place : Nat)
    (depth : Nat) :
    List Prototype → List Portion
  | [] => []
  | tree :: rest =>
      portions place depth tree ++ portionsAll (place + count tree) depth rest

end

end Portions

/-! ## Pieces from portions -/

section Items

variable (listConstants : Bool) (functions : List FunctionInfo)

theorem flatMap_items_map_piece
    (pieces : List Item) :
    (pieces.map Portion.piece).flatMap (Portion.items listConstants) = pieces := by
  induction pieces with
  | nil =>
      rfl
  | cons item rest ih =>
      rw [List.map_cons, List.flatMap_cons, ih]
      rfl

/-- What a function holds, from its portions. -/
theorem bodyItems_eq_flatMap
    (info : FunctionInfo)
    (depth : Nat)
    (inner : List Portion) :
    (info.bodyPortions depth inner).flatMap (Portion.items listConstants) =
      bodyItems listConstants depth info (inner.flatMap (Portion.items listConstants)) := by
  rw [FunctionInfo.bodyPortions, List.cons_append, List.flatMap_cons, List.flatMap_append,
    flatMap_items_map_piece, bodyItems, List.append_assoc]
  rfl

mutual

/-- The pieces of a tree are those of its portions, whether constants are listed or not. -/
theorem items_eq_flatMap_portions :
    ∀ (tree : Prototype) (place depth : Nat),
      tree.items listConstants functions place depth =
        (tree.portions functions place depth).flatMap (Portion.items listConstants)
  | .node info children, place, depth => by
      rw [items, portions, List.flatMap_append, List.flatMap_append, bodyItems_eq_flatMap,
        ← itemsAll_eq_flatMap_portionsAll children (place + 1) (info.bodyDepth depth),
        FunctionInfo.headPortions, FunctionInfo.endPortions, FunctionInfo.bodyDepth]
      by_cases hmain : info.isMain = true
      · simp [hmain]
      · simp [hmain, Portion.items]

theorem itemsAll_eq_flatMap_portionsAll :
    ∀ (trees : List Prototype) (place depth : Nat),
      itemsAll listConstants functions place depth trees =
        (portionsAll functions place depth trees).flatMap (Portion.items listConstants)
  | [], place, depth => by
      rw [itemsAll, portionsAll]
      rfl
  | tree :: rest, place, depth => by
      rw [itemsAll, portionsAll, List.flatMap_append,
        items_eq_flatMap_portions tree place depth,
        itemsAll_eq_flatMap_portionsAll rest (place + tree.count) depth]

end

end Items

/-! ## Functions and their constants -/

section Places

variable (functions : List FunctionInfo)

theorem filterMap_listed?_headPortions
    (info : FunctionInfo)
    (place depth : Nat) :
    (info.headPortions functions place depth).filterMap Portion.listed? = [] := by
  rw [FunctionInfo.headPortions]
  cases info.isMain <;> rfl

theorem filterMap_listed?_endPortions
    (info : FunctionInfo)
    (depth : Nat) :
    (info.endPortions depth).filterMap Portion.listed? = [] := by
  rw [FunctionInfo.endPortions]
  cases info.isMain <;> rfl

theorem filterMap_listed?_map_piece
    (pieces : List Item) :
    (pieces.map Portion.piece).filterMap Portion.listed? = [] := by
  rw [List.filterMap_map, List.filterMap_eq_nil_iff]
  exact fun _ _ => rfl

mutual

/-- The constants of every function have one portion, in the order of the functions. -/
theorem filterMap_listed?_portions :
    ∀ (tree : Prototype) (place depth : Nat),
      (tree.portions functions place depth).filterMap Portion.listed? = tree.preorder
  | .node info children, place, depth => by
      rw [portions, FunctionInfo.bodyPortions, List.filterMap_append, List.filterMap_append,
        filterMap_listed?_headPortions, filterMap_listed?_endPortions, List.cons_append,
        List.filterMap_cons, List.filterMap_append, filterMap_listed?_map_piece,
        filterMap_listed?_portionsAll children (place + 1) (info.bodyDepth depth), preorder_node]
      simp [Portion.listed?]

theorem filterMap_listed?_portionsAll :
    ∀ (trees : List Prototype) (place depth : Nat),
      (portionsAll functions place depth trees).filterMap Portion.listed? = preorderAll trees
  | [], place, depth => by
      rw [portionsAll, preorderAll_nil]
      rfl
  | tree :: rest, place, depth => by
      rw [portionsAll, List.filterMap_append, filterMap_listed?_portions tree place depth,
        filterMap_listed?_portionsAll rest (place + tree.count) depth, preorderAll_cons]

end

theorem portionsAll_append
    (place depth : Nat)
    (first second : List Prototype) :
    portionsAll functions place depth (first ++ second) =
      portionsAll functions place depth first ++
        portionsAll functions (place + countAll first) depth second := by
  induction first generalizing place with
  | nil =>
      simp [portionsAll]
  | cons tree rest ih =>
      rw [List.cons_append, portionsAll, portionsAll, ih, countAll_cons, List.append_assoc,
        Nat.add_assoc]

end Places

/--
The portions of a tree stand together among those of the tree around it, behind
the constants of as many functions as come before it.
-/
theorem Occurs.portions_eq
    {main tree : Prototype}
    {place depth : Nat}
    (h : Occurs main place depth tree) :
    ∃ front back,
      main.portions main.preorder 0 0 =
        front ++ tree.portions main.preorder place depth ++ back ∧
      (front.filterMap Portion.listed?).length = place := by
  induction h with
  | root =>
      exact ⟨[], [], by simp, rfl⟩
  | @child place depth info before after tree _ ih =>
      obtain ⟨front, back, houter, hplace⟩ := ih
      rw [portions, FunctionInfo.bodyPortions, portionsAll_append, portionsAll] at houter
      refine ⟨front ++ info.headPortions main.preorder place depth ++
          .constants (info.bodyDepth depth) info ::
            portionsAll main.preorder (place + 1) (info.bodyDepth depth) before,
        portionsAll main.preorder (place + 1 + countAll before + tree.count)
            (info.bodyDepth depth) after ++
          (instructionItems (info.bodyDepth depth) info.constants info.instructions).map .piece ++
          info.endPortions depth ++ back, ?_, ?_⟩
      · rw [houter, ← FunctionInfo.bodyDepth]
        simp only [List.append_assoc, List.cons_append]
      · rw [List.filterMap_append, List.filterMap_append, filterMap_listed?_headPortions,
          List.filterMap_cons, filterMap_listed?_portionsAll, Portion.listed?]
        simp only [List.append_nil, List.length_append, List.length_cons, hplace,
          length_preorderAll]
        omega

end Prototype

/-! ## Runs -/

theorem Item.lower_eq_error
    {item : Item}
    {error : GenerateError}
    (h : item.error? = some error) :
    item.lower = .error error := by
  rw [error?] at h
  cases hlower : item.lower with
  | ok lines =>
      rw [hlower] at h
      cases h
  | error found =>
      rw [hlower] at h
      cases h
      rfl

namespace Portion

/--
The portions that are written: all of them, or those before the first without
lines, which is then the reason that the writing ends.
-/
inductive Cut :
    List Portion → List Portion → Option GenerateError → Prop
  | complete
      {written : List Portion}
      (hwritten : ∀ portion ∈ written, portion.error? = none) :
      Cut written written none
  | failed
      {written rest : List Portion}
      {next : Portion}
      {error : GenerateError}
      (hwritten : ∀ portion ∈ written, portion.error? = none)
      (hnext : next.error? = some error) :
      Cut (written ++ next :: rest) written (some error)

/-- A run stops at the first portion that fails, or at none. -/
theorem exists_cut
    (portions : List Portion) :
    ∃ written failure, Cut portions written failure := by
  cases hfailure : portions.findSome? error? with
  | none =>
      exact ⟨portions, none, .complete (List.findSome?_eq_none_iff.1 hfailure)⟩
  | some error =>
      obtain ⟨written, next, rest, rfl, hnext, hwritten⟩ := List.findSome?_eq_some_iff.1 hfailure
      exact ⟨written, some error, .failed hwritten hnext⟩

variable (listConstants : Bool)

theorem failure?_constantItems
    (depth : Nat)
    (constants : List Constant) :
    failure? (constantItems listConstants depth constants) = none := by
  obtain ⟨lines, hitems, -⟩ := exists_constantItems_eq listConstants depth constants
  rw [hitems, failure?, List.findSome?_eq_none_iff]
  intro item hitem
  obtain ⟨line, -, rfl⟩ := List.mem_map.1 hitem
  rfl

/-- A portion fails alike whether or not constants are listed. -/
theorem failure?_items
    (portion : Portion) :
    failure? (portion.items listConstants) = portion.error? := by
  cases portion with
  | constants depth info =>
      exact failure?_constantItems listConstants depth info.constants
  | piece item =>
      rw [items, failure?, List.findSome?_cons, error?]
      cases item.error? <;> rfl

/-- The lines of a portion under either choice: only those of constants are left out. -/
theorem flatMap_lines_items
    (portion : Portion) :
    (portion.items listConstants).flatMap Item.lines =
      if listConstants || portion.listed?.isNone then portion.lines else [] := by
  cases portion with
  | constants depth info =>
      cases listConstants with
      | false =>
          rfl
      | true =>
          have hitems : constantItems true depth info.constants =
              (lines (.constants depth info)).map Item.line := by
            simp [constantItems, lines, List.mapIdx_eq_zipIdx_map]
          rw [items, hitems, flatMap_lines_map_line]
          rfl
  | piece item =>
      cases listConstants <;> simp [items, listed?, lines]

/-- Without lists of constants the lines are those of the other portions. -/
theorem flatMap_lines_flatMap_items
    (portions : List Portion) :
    (portions.flatMap (items listConstants)).flatMap Item.lines =
      (portions.filter fun portion => listConstants || portion.listed?.isNone).flatMap lines := by
  induction portions with
  | nil =>
      rfl
  | cons portion rest ih =>
      rw [List.flatMap_cons, List.flatMap_append, flatMap_lines_items, ih, List.filter_cons]
      split
      · rw [List.flatMap_cons]
      · rw [List.nil_append]

theorem failure?_flatMap_items
    {portions : List Portion}
    (h : ∀ portion ∈ portions, portion.error? = none) :
    failure? (portions.flatMap (items listConstants)) = none := by
  induction portions with
  | nil =>
      rfl
  | cons portion rest ih =>
      rw [List.forall_mem_cons] at h
      rw [List.flatMap_cons, failure?_append, failure?_items, h.1, ih h.2]
      rfl

variable {portions written : List Portion} {failure : Option GenerateError}

/-- What a run writes and how it ends, by the place where the portions are cut. -/
theorem Cut.run_eq
    (h : Cut portions written failure) :
    failure? (portions.flatMap (items listConstants)) = failure ∧
      writtenLines (portions.flatMap (items listConstants)) =
        (written.filter fun portion => listConstants || portion.listed?.isNone).flatMap
          lines := by
  cases h with
  | complete hwritten =>
      have hnone := failure?_flatMap_items listConstants hwritten
      refine ⟨hnone, ?_⟩
      rw [writtenLines_of_failure?_eq_none hnone, flatMap_lines_flatMap_items]
  | @failed _ rest next error hwritten hnext =>
      have hnone := failure?_flatMap_items listConstants hwritten
      cases next with
      | constants depth info =>
          cases hnext
      | piece item =>
          have hlower := Item.lower_eq_error hnext
          rw [List.flatMap_append, List.flatMap_cons, items, List.singleton_append,
            failure?_append, writtenLines_append, hnone, writtenLines_of_failure?_eq_none hnone,
            flatMap_lines_flatMap_items, failure?_cons_of_error hlower,
            writtenLines_cons_of_error hlower]
          exact ⟨rfl, by simp⟩

/-- No list of constants looks like the head of a function. -/
theorem filter_isHead_lines
    (portion : Portion)
    (h : portion.listed?.isNone = false) :
    portion.lines.filter Line.isHead = [] := by
  cases portion with
  | constants depth info =>
      rw [List.filter_eq_nil_iff]
      intro line hline
      obtain ⟨index, hindex, rfl⟩ := List.mem_mapIdx.1 hline
      have hother : BeginsOtherwise "const" := ⟨'c', ['o', 'n', 's', 't'], rfl, by decide⟩
      rw [Bool.not_eq_true]
      exact BeginsOtherwise.isHead_eq_false (((hother.append _).append _).append _)
  | piece item =>
      cases h

/-- No constant is listed under a head. -/
theorem filter_isHead_flatMap
    (portions : List Portion) :
    ((portions.filter fun portion => portion.listed?.isNone).flatMap lines).filter Line.isHead =
      (portions.flatMap lines).filter Line.isHead := by
  induction portions with
  | nil =>
      rfl
  | cons portion rest ih =>
      rw [List.filter_cons, List.flatMap_cons, List.filter_append, ← ih]
      cases hlisted : portion.listed?.isNone with
      | false =>
          rw [filter_isHead_lines portion hlisted]
          rfl
      | true =>
          rw [if_pos rfl, List.flatMap_cons, List.filter_append]

end Portion

/--
Listing constants only inserts lines.

The portions of a tree do not depend on whether constants are listed.  A run
writes them up to the first without lines, under both choices the same one, and
with the same result; the lines are those of the written portions if constants are
listed, and otherwise those of the written portions that are not such lists.  This
holds of a sink that keeps lines, and of a sink without a limit, which holds the
same lines as text.  Heads, with their numbers and depths, are the same.

Each function has one list of constants.  It stands behind the head of the
function, if there is one, at the depth of what the function holds, and before
the portions of the functions defined in it and its instructions.
-/
theorem PseudocodeWriter.writeChunk_listConstants
    (main : Prototype)
    (number : Nat) :
    let run := fun listConstants =>
      outcome (writeChunk main ⟨LineLog.mk [], number, listConstants⟩)
    let portions := main.portions main.preorder 0 0
    (∀ (listConstants : Bool) (sink : Sink),
      outcome (writeChunk main ⟨{ sink with limit := none }, number, listConstants⟩) =
        ((run listConstants).1, { sink with
          stored := sink.stored ++ (Line.renderAll (run listConstants).2.lines).toUTF8
          limit := none })) ∧
    (run true).1 = (run false).1 ∧
    (∃ written failure, Portion.Cut portions written failure ∧
      (run true).1 = runResult failure ∧
      (run true).2.lines = written.flatMap Portion.lines ∧
      (run false).2.lines =
        (written.filter fun portion => portion.listed?.isNone).flatMap Portion.lines) ∧
    (run true).2.lines.filter Line.isHead = (run false).2.lines.filter Line.isHead ∧
    portions.filterMap Portion.listed? = main.preorder ∧
    ∀ place depth info children, Prototype.Occurs main place depth (.node info children) →
      ∃ front back,
        portions = front ++ info.headPortions main.preorder place depth ++
          .constants (info.bodyDepth depth) info ::
            (Prototype.portionsAll main.preorder (place + 1) (info.bodyDepth depth) children ++
              (instructionItems (info.bodyDepth depth) info.constants info.instructions).map
                .piece) ++ info.endPortions depth ++ back ∧
        (front.filterMap Portion.listed?).length = place := by
  intro run portions
  have hflat (listConstants : Bool) :
      main.flatten listConstants = portions.flatMap (Portion.items listConstants) :=
    main.items_eq_flatMap_portions listConstants main.preorder 0 0
  obtain ⟨written, failure, hcut⟩ := Portion.exists_cut portions
  have hrun (listConstants : Bool) :
      run listConstants = (runResult failure, ⟨(written.filter fun portion =>
        listConstants || portion.listed?.isNone).flatMap Portion.lines⟩) := by
    obtain ⟨hfailure, hlines⟩ := hcut.run_eq listConstants
    have houtcome := outcome_log main listConstants number ⟨[]⟩
    rwa [hflat, hfailure, hlines, List.nil_append] at houtcome
  have hall : (written.filter fun portion => true || portion.listed?.isNone) = written := by
    simp
  refine ⟨fun listConstants sink => ?_, ?_, ⟨written, failure, hcut, ?_, ?_, ?_⟩, ?_, ?_, ?_⟩
  · obtain ⟨hfailure, hlines⟩ := hcut.run_eq listConstants
    rw [hrun, outcome_sink, hflat, hfailure, hlines]
  · rw [hrun, hrun]
  · rw [hrun]
  · rw [hrun, hall]
  · rw [hrun]
    rfl
  · rw [hrun, hrun, hall]
    exact (Portion.filter_isHead_flatMap written).symm
  · exact Prototype.filterMap_listed?_portions main.preorder main 0 0
  · intro place depth info children hoccurs
    obtain ⟨front, back, hportions, hplace⟩ := hoccurs.portions_eq
    refine ⟨front, back, ?_, hplace⟩
    rw [Prototype.portions, FunctionInfo.bodyPortions] at hportions
    simpa only [List.append_assoc, List.cons_append] using hportions

end LuaBytecode
