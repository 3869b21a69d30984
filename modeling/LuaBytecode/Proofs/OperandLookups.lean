import LuaBytecode.Listing
import Mathlib.Tactic

/-!
# What instructions look up

Nine operations turn operands into text: those that name a constant by Bx, and
those that name a register or a constant by B or C.  Their operands are looked up
one after the other, so the first index past the table of constants decides the
error; where there is none, the text of each operand goes into a fixed place of
the statements.

**Results.**
* `Source`, `Instruction.sources`: the operands of an instruction, in order.
* `Statement.template`: the statements with places for their operands.
* `Statement.resolves_ofInstruction`: the statements of the nine operations.
-/

namespace LuaBytecode

/-! ## Operands -/

/-- Where a value that an instruction uses comes from. -/
inductive Source where
  | register (index : Nat)
  | constant (index : Nat)
  deriving DecidableEq

namespace Source

/-- What a B or C field names. -/
def ofField
    (field : UInt16) : Source :=
  match Rk.ofField field with
  | .register index => .register index.toNat
  | .constant index => .constant index.toNat

/-- The index of a constant. -/
def constant? :
    Source → Option Nat
  | .register _ => none
  | .constant index => some index

variable (constants : List Constant)

/-- The text of a source, with a mark for a constant that the table does not have. -/
def text :
    Source → String
  | .register index => Statement.register index
  | .constant index => Listing.constantText constants index

/-- The text of a source, if the table has it. -/
def lookUp :
    Source → Except GenerateError String
  | .register index => .ok (Statement.register index)
  | .constant index => Statement.constantText constants index

/-- The first index past the table. -/
def dangling?
    (sources : List Source) : Option Nat :=
  (sources.filterMap constant?).find? fun index => constants.length ≤ index

/-- A field that may name a register or a constant is looked up as what it names. -/
theorem rkText_eq
    (field : UInt16) :
    Statement.rkText constants field = (ofField field).lookUp constants := by
  rw [Statement.rkText, ofField]
  cases Rk.ofField field <;> rfl

variable {constants} {sources : List Source} {index : Nat}

theorem dangling?_constant_of_lt
    (h : index < constants.length) :
    dangling? constants (.constant index :: sources) = dangling? constants sources :=
  List.find?_cons_of_neg (by simpa using h)

theorem dangling?_constant_of_le
    (h : constants.length ≤ index) :
    dangling? constants (.constant index :: sources) = some index :=
  List.find?_cons_of_pos (by simpa using h)

/-- No index is missing if all constants that are named exist. -/
theorem dangling?_eq_none_iff :
    dangling? constants sources = none ↔
      ∀ index, .constant index ∈ sources → index < constants.length := by
  simp only [dangling?, List.find?_eq_none, List.mem_filterMap, decide_eq_true_eq, Nat.not_le]
  constructor
  · intro h index hmem
    exact h index ⟨_, hmem, rfl⟩
  · rintro h index ⟨source, hmem, hsource⟩
    cases source with
    | register _ =>
        cases hsource
    | constant _ =>
        cases hsource
        exact h index hmem

end Source

/-! ## Lookups in order -/

section Lookups

variable {α : Type} {constants : List Constant}

/-- A computation that fails for the first index past the table, and succeeds if there is none. -/
def Resolves
    (constants : List Constant)
    (sources : List Source)
    (computation : Except GenerateError α)
    (result : α) : Prop :=
  computation =
    match Source.dangling? constants sources with
    | none => .ok result
    | some index => .error (.invalidConstIndex index constants.length)

namespace Resolves

theorem of_eq
    {result result' : α}
    (h : result = result') :
    Resolves constants [] (pure result) result' := by
  rw [h]
  rfl

theorem singleton
    {sources : List Source}
    {computation : Except GenerateError α}
    {result : α}
    (h : Resolves constants sources computation result) :
    Resolves constants sources (do return [← computation]) [result] := by
  rw [Resolves] at h ⊢
  rw [h]
  cases Source.dangling? constants sources <;> rfl

/-- A lookup in front of others. -/
theorem lookUp
    {source : Source}
    {rest : List Source}
    {follow : String → Except GenerateError α}
    {result : α}
    (h : Resolves constants rest (follow (source.text constants)) result) :
    Resolves constants (source :: rest) (source.lookUp constants >>= follow) result := by
  cases source with
  | register index =>
      exact h
  | constant index =>
      rw [Source.text, Listing.constantText] at h
      rw [Resolves, Source.lookUp, Statement.constantText]
      cases hget : constants[index]? with
      | none =>
          rw [Source.dangling?_constant_of_le (List.getElem?_eq_none_iff.1 hget)]
          rfl
      | some constant =>
          rw [Source.dangling?_constant_of_lt (List.getElem?_eq_some_iff.1 hget).1]
          rw [hget] at h
          exact h

/-- A constant is looked up before what follows. -/
theorem constantText
    {index : Nat}
    {rest : List Source}
    {follow : String → Except GenerateError α}
    {result : α}
    (h : Resolves constants rest (follow (Source.text constants (.constant index))) result) :
    Resolves constants (.constant index :: rest)
      (Statement.constantText constants index >>= follow) result :=
  lookUp h

/-- A field is looked up before what follows; a register is never missing. -/
theorem rkText
    {field : UInt16}
    {rest : List Source}
    {follow : String → Except GenerateError α}
    {result : α}
    (h : Resolves constants rest (follow ((Source.ofField field).text constants)) result) :
    Resolves constants (.ofField field :: rest)
      (Statement.rkText constants field >>= follow) result := by
  rw [Source.rkText_eq]
  exact lookUp h

end Resolves
end Lookups

/-! ## Instructions -/

/-- The operations that look operands up. -/
def Opcode.lookups : List Opcode :=
  [.loadK, .getGlobal, .setGlobal, .getTable, .self, .setTable, .eq, .lt, .le]

/-- The operands that an instruction looks up, by the fields of its word. -/
def Instruction.sources
    (ins : Instruction) : List Source :=
  match ins.op with
  | .loadK
  | .getGlobal
  | .setGlobal => [.constant ins.bx.toNat]
  | .getTable
  | .self => [.ofField ins.c]
  | .setTable
  | .eq
  | .lt
  | .le => [.ofField ins.b, .ofField ins.c]
  | _ => []

/-- Other operations look nothing up. -/
theorem Instruction.sources_eq_nil
    {ins : Instruction}
    (hop : ins.op ∉ Opcode.lookups) :
    ins.sources = [] := by
  obtain ⟨raw, op, a, operand⟩ := ins
  cases op <;> first | rfl | simp [Opcode.lookups] at hop

/-- A part of a line: fixed text, or the place of an operand. -/
inductive Segment where
  | fixed (text : String)
  | place (source : Source)
  deriving DecidableEq

namespace Segment

/-- The text of a segment. -/
def text
    (constants : List Constant) :
    Segment → String
  | .fixed text => text
  | .place source => source.text constants

/-- Segments one behind the other. -/
def joined
    (constants : List Constant)
    (segments : List Segment) : String :=
  String.join (segments.map (text constants))

end Segment

namespace Statement

/-- The line of a comparison. -/
def comparison
    (symbol : String)
    (ins : Instruction) : List Segment :=
  [.fixed "if (", .place (.ofField ins.b), .fixed " ", .fixed symbol, .fixed " ",
    .place (.ofField ins.c), .fixed ") ~= ", .fixed (toString ins.a.toNat), .fixed " then"]

/-- The lines of an instruction that looks operands up. -/
def template
    (ins : Instruction) : List (List Segment) :=
  let a := Segment.fixed (register ins.a.toNat)
  let b := Segment.fixed (register ins.b.toNat)
  let constant := Segment.place (.constant ins.bx.toNat)
  match ins.op with
  | .loadK => [[a, .fixed " = ", constant]]
  | .getGlobal => [[a, .fixed " = ", .fixed "_G[", constant, .fixed "]"]]
  | .setGlobal => [[.fixed "_G[", constant, .fixed "] = ", a]]
  | .getTable => [[a, .fixed " = ", b, .fixed "[", .place (.ofField ins.c), .fixed "]"]]
  | .self =>
      [[.fixed (register (ins.a.toNat + 1)), .fixed " = ", b],
        [a, .fixed " = ", b, .fixed "[", .place (.ofField ins.c), .fixed "]"]]
  | .setTable =>
      [[a, .fixed "[", .place (.ofField ins.b), .fixed "] = ", .place (.ofField ins.c)]]
  | .eq => [comparison "==" ins]
  | .lt => [comparison "<" ins]
  | .le => [comparison "<=" ins]
  | _ => []

/-- The lines of a template, the operands being in their places. -/
def filled
    (constants : List Constant)
    (lines : List (List Segment)) : List Statement :=
  lines.map fun segments => .line (Segment.joined constants segments)

variable {ins : Instruction}

/-- A comparison looks up B, and then C. -/
theorem resolves_compare
    (constants : List Constant)
    (symbol : String) :
    Resolves constants [.ofField ins.b, .ofField ins.c] (compare constants symbol ins)
      (.line (Segment.joined constants (comparison symbol ins))) := by
  refine Resolves.rkText (Resolves.rkText (Resolves.of_eq ?_))
  simp [Segment.joined, Segment.text, comparison, binary, String.append_assoc]

/-- The nine operations look their operands up in order, and put them into their places. -/
theorem resolves_ofInstruction
    (constants : List Constant)
    (pc : Nat)
    (hop : ins.op ∈ Opcode.lookups) :
    Resolves constants ins.sources (ofInstruction constants pc ins)
      (filled constants (template ins)) := by
  obtain ⟨raw, op, a, operand⟩ := ins
  cases op with
  | loadK
  | getGlobal
  | setGlobal =>
      refine Resolves.constantText (Resolves.of_eq ?_)
      simp [filled, template, Segment.joined, Segment.text, assign, indexed, String.append_assoc]
  | getTable
  | self =>
      refine Resolves.rkText (Resolves.of_eq ?_)
      simp [filled, template, Segment.joined, Segment.text, assign, indexed, String.append_assoc]
  | setTable =>
      refine Resolves.rkText (Resolves.rkText (Resolves.of_eq ?_))
      simp [filled, template, Segment.joined, Segment.text, assign, indexed, String.append_assoc]
  | eq =>
      exact (resolves_compare constants "==").singleton
  | lt =>
      exact (resolves_compare constants "<").singleton
  | le =>
      exact (resolves_compare constants "<=").singleton
  | _ =>
      simp [Opcode.lookups] at hop

end Statement
end LuaBytecode
