import LuaBytecode.Proofs.FunctionHeads

/-!
# Open blocks

A line opens a block, closes one, or does neither, and which of these can be told
from its text.  The blocks that are open after some lines form a stack.  A line
is indented rightly if its depth is the number of open blocks around it, where a
line that closes a block counts as standing outside of that block.

**Results.**
* `Line.opens`, `Line.closes`, `Line.Step`: what a line does to the stack.
* `Nests`: lines that are indented rightly, one after the other.
* `OpenBlocks.nests`: each open block has its first line among the lines, and what
  stands between two of these is balanced.
* `Nests.indented`: depths and numbers of blocks at every line.
-/

namespace LuaBytecode

/-! ## Lines -/

namespace Line

/-- A line that opens a block: the head of a function, or of a conditional assignment. -/
def opens
    (line : Line) : Bool :=
  line.isHead || "if var".toList.isPrefixOf line.text.toList

/-- A line that closes a block. -/
def closes
    (line : Line) : Bool :=
  line.text == "end"

theorem text_of_closes
    {line : Line}
    (h : line.closes = true) :
    line.text = "end" :=
  eq_of_beq h

theorem opens_of_closes
    {line : Line}
    (h : line.closes = true) :
    line.opens = false := by
  rw [opens, isHead, text_of_closes h]
  rfl

/-- No line both opens and closes a block. -/
theorem closes_of_opens
    {line : Line}
    (h : line.opens = true) :
    line.closes = false := by
  cases hcloses : line.closes with
  | false =>
      rfl
  | true =>
      rw [opens_of_closes hcloses] at h
      cases h

/-- A line that does not begin as `end` does closes nothing. -/
theorem closes_append
    {first : Char}
    {text : String}
    (htext : text.toList.head? = some first)
    (hfirst : first ≠ 'e')
    (depth : Nat)
    (rest : String) :
    (mk depth (text ++ rest)).closes = false := by
  rw [closes, beq_eq_false_iff_ne]
  intro hend
  have hhead := congrArg (fun text => text.toList.head?) hend
  simp only [String.toList_append, List.head?_append, htext] at hhead
  exact hfirst (Option.some.inj hhead)

/-- How a line opens a block is told by its first characters. -/
theorem opens_append
    {depth : Nat}
    {text : String}
    (h : (mk depth text).opens = true)
    (more : String) :
    (mk depth (text ++ more)).opens = true := by
  simp only [opens, isHead, Bool.or_eq_true, List.isPrefixOf_iff_prefix,
    String.toList_append] at h ⊢
  exact h.imp (fun h => h.trans (List.prefix_append _ _)) fun h => h.trans (List.prefix_append _ _)

/-- The blocks that are open before a line and after it, the innermost first. -/
inductive Step :
    List Line → Line → List Line → Prop
  | opener
      {stack : List Line}
      {line : Line}
      (hopens : line.opens = true)
      (hdepth : line.depth = stack.length) :
      Step stack line (line :: stack)
  | closer
      {stack : List Line}
      {first line : Line}
      (hcloses : line.closes = true)
      (hdepth : line.depth = stack.length) :
      Step (first :: stack) line stack
  | inner
      {stack : List Line}
      {line : Line}
      (hopens : line.opens = false)
      (hcloses : line.closes = false)
      (hdepth : line.depth = stack.length) :
      Step stack line stack

end Line

/-- The number of lines that open a block. -/
def openers
    (lines : List Line) : Nat :=
  lines.countP Line.opens

/-- The number of lines that close a block. -/
def closers
    (lines : List Line) : Nat :=
  lines.countP Line.closes

section Counts

variable (first second : List Line) (line : Line) (lines : List Line)

@[simp] theorem openers_nil :
    openers [] = 0 := rfl

@[simp] theorem closers_nil :
    closers [] = 0 := rfl

@[simp] theorem openers_cons :
    openers (line :: lines) = openers lines + if line.opens then 1 else 0 :=
  List.countP_cons

@[simp] theorem closers_cons :
    closers (line :: lines) = closers lines + if line.closes then 1 else 0 :=
  List.countP_cons

@[simp] theorem openers_append :
    openers (first ++ second) = openers first + openers second :=
  List.countP_append

@[simp] theorem closers_append :
    closers (first ++ second) = closers first + closers second :=
  List.countP_append

end Counts

/-! ## Lines in order -/

/-- Lines that are indented rightly, with the blocks that are open before and after them. -/
inductive Nests :
    List Line → List Line → List Line → Prop
  | nil
      {stack : List Line} :
      Nests stack [] stack
  | cons
      {stack middle reached : List Line}
      {line : Line}
      {lines : List Line}
      (hline : line.Step stack middle)
      (h : Nests middle lines reached) :
      Nests stack (line :: lines) reached

namespace Nests

variable {stack middle reached first second lines : List Line}

theorem single
    {line : Line}
    (h : line.Step stack reached) :
    Nests stack [line] reached :=
  .cons h .nil

theorem append
    (h : Nests stack first middle)
    (h' : Nests middle second reached) :
    Nests stack (first ++ second) reached := by
  induction h with
  | nil =>
      exact h'
  | cons hline _ ih =>
      exact .cons hline (ih h')

/-- Between two parts of the lines some stack of blocks is open. -/
theorem split
    (h : Nests stack (first ++ second) reached) :
    ∃ middle, Nests stack first middle ∧ Nests middle second reached := by
  induction first generalizing stack with
  | nil =>
      exact ⟨stack, .nil, h⟩
  | cons line rest ih =>
      cases h with
      | cons hline hrest =>
          obtain ⟨middle, hfirst, hsecond⟩ := ih hrest
          exact ⟨middle, .cons hline hfirst, hsecond⟩

/-- Lines that neither open nor close a block stand in the same one. -/
theorem of_inner
    (h : ∀ line ∈ lines,
      line.opens = false ∧ line.closes = false ∧ line.depth = stack.length) :
    Nests stack lines stack := by
  induction lines with
  | nil =>
      exact .nil
  | cons line rest ih =>
      rw [List.forall_mem_cons] at h
      obtain ⟨⟨hopens, hcloses, hdepth⟩, hrest⟩ := h
      exact .cons (.inner hopens hcloses hdepth) (ih hrest)

/-- Every block that was opened is closed or open. -/
theorem length_add_openers
    (h : Nests stack lines reached) :
    stack.length + openers lines = reached.length + closers lines := by
  induction h with
  | nil =>
      rfl
  | cons hline _ ih =>
      cases hline with
      | opener hopens hdepth =>
          simp [hopens, Line.closes_of_opens hopens] at ih ⊢
          omega
      | closer hcloses hdepth =>
          simp [hcloses, Line.opens_of_closes hcloses] at ih ⊢
          omega
      | inner hopens hcloses hdepth =>
          simp [hopens, hcloses] at ih ⊢
          omega

end Nests

/-! ## Blocks that are closed -/

/-- Lines in which every block that is opened is closed, by a line of the same depth. -/
inductive Balanced :
    List Line → Prop
  | nil :
      Balanced []
  | line
      {line : Line}
      (hopens : line.opens = false)
      (hcloses : line.closes = false) :
      Balanced [line]
  | block
      {opener closer : Line}
      {lines : List Line}
      (hopens : opener.opens = true)
      (hcloses : closer.closes = true)
      (hdepth : opener.depth = closer.depth)
      (h : Balanced lines) :
      Balanced (opener :: lines ++ [closer])
  | append
      {first second : List Line}
      (h : Balanced first)
      (h' : Balanced second) :
      Balanced (first ++ second)

/--
The blocks that are open after lines, the innermost first.  Each of them has its
first line among the lines, and stands there at the number of blocks around it;
what comes between two such lines, before the first and after the last is
balanced.
-/
inductive OpenBlocks :
    List Line → List Line → Prop
  | none
      {lines : List Line}
      (h : Balanced lines) :
      OpenBlocks lines []
  | block
      {front stack lines : List Line}
      {opener : Line}
      (h : OpenBlocks front stack)
      (hopens : opener.opens = true)
      (hdepth : opener.depth = stack.length)
      (hinner : Balanced lines) :
      OpenBlocks (front ++ opener :: lines) (opener :: stack)

namespace OpenBlocks

variable {before lines stack reached : List Line}

/-- Lines that close what they open become a part of the innermost block. -/
theorem append_balanced
    (h : OpenBlocks before stack)
    (hlines : Balanced lines) :
    OpenBlocks (before ++ lines) stack := by
  cases h with
  | none hbefore =>
      exact .none (hbefore.append hlines)
  | block hfront hopens hdepth hinner =>
      rw [List.append_assoc, List.cons_append]
      exact .block hfront hopens hdepth (hinner.append hlines)

/-- A block that is closed becomes a part of what the block around it holds. -/
theorem step
    {line : Line}
    (h : OpenBlocks before stack)
    (hline : line.Step stack reached) :
    OpenBlocks (before ++ [line]) reached := by
  cases hline with
  | opener hopens hdepth =>
      exact .block h hopens hdepth .nil
  | inner hopens hcloses hdepth =>
      exact h.append_balanced (.line hopens hcloses)
  | closer hcloses hdepth =>
      cases h with
      | @block front _ inner opener hfront hopens hopener hinner =>
          have hblock := Balanced.block hopens hcloses (hopener.trans hdepth.symm) hinner
          rw [List.append_assoc]
          exact hfront.append_balanced hblock

/-- The open blocks of lines that are indented rightly are found among them. -/
theorem nests
    (h : OpenBlocks before stack)
    (hlines : Nests stack lines reached) :
    OpenBlocks (before ++ lines) reached := by
  induction hlines generalizing before with
  | nil =>
      rwa [List.append_nil]
  | cons hline _ ih =>
      have hnext := ih (h.step hline)
      rwa [List.append_assoc, List.singleton_append] at hnext

end OpenBlocks

/-! ## Depths -/

/--
Lines whose depths tell the nesting of blocks.  A line stands at the number of
blocks that were opened and not closed before it, one less if it closes a block;
that block is the innermost open one, and opens at the same depth.
-/
structure Indented
    (lines : List Line) : Prop where
  closers_le : ∀ count, closers (lines.take count) ≤ openers (lines.take count)
  depth_eq : ∀ {before after : List Line} {line : Line},
    lines = before ++ line :: after → line.closes = false →
      openers before = closers before + line.depth
  closes_innermost : ∀ {before after : List Line} {line : Line},
    lines = before ++ line :: after → line.closes = true →
      openers before = closers before + (line.depth + 1) ∧
        ∃ front opener inner, before = front ++ opener :: inner ∧
          opener.opens = true ∧ opener.depth = line.depth ∧ Balanced inner

/-- Lines that begin outside of all blocks are indented rightly. -/
theorem Nests.indented
    {lines reached : List Line}
    (h : Nests [] lines reached) :
    Indented lines := by
  constructor
  · intro count
    rw [← List.take_append_drop count lines] at h
    obtain ⟨middle, hfirst, -⟩ := h.split
    have hcount := hfirst.length_add_openers
    rw [List.length_nil] at hcount
    omega
  · rintro before after line rfl hcloses
    obtain ⟨middle, hbefore, hrest⟩ := h.split
    have hcount := hbefore.length_add_openers
    rw [List.length_nil] at hcount
    cases hrest with
    | cons hline _ =>
        cases hline with
        | opener hopens hdepth =>
            omega
        | closer hother hdepth =>
            rw [hcloses] at hother
            cases hother
        | inner hopens hnone hdepth =>
            omega
  · rintro before after line rfl hcloses
    obtain ⟨middle, hbefore, hrest⟩ := h.split
    have hcount := hbefore.length_add_openers
    have hblocks := (OpenBlocks.none .nil).nests hbefore
    rw [List.length_nil] at hcount
    cases hrest with
    | cons hline _ =>
        cases hline with
        | opener hopens hdepth =>
            rw [Line.closes_of_opens hopens] at hcloses
            cases hcloses
        | inner hopens hnone hdepth =>
            rw [hnone] at hcloses
            cases hcloses
        | closer _ hdepth =>
            rw [List.length_cons] at hcount
            refine ⟨by omega, ?_⟩
            rw [List.nil_append] at hblocks
            cases hblocks with
            | block hfront hopens hopener hinner =>
                exact ⟨_, _, _, rfl, hopens, hopener.trans hdepth.symm, hinner⟩

end LuaBytecode
