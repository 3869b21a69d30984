import LuaBytecode.Proofs.DumpLoading
import LuaBytecode.Proofs.JsonRoundTrip
import LuaBytecode.Render

/-!
# Chunks read back from their dump

The text of a dump is taken apart into tokens, these are put together to the
value that was written, and the chunk is made from that value.  None of the three
steps loses anything, in whatever layout the value was written.

**Results.**
* `Chunk.numerals_toJson`: a dump has no number that is not a numeral.
* `Chunk.parse?_render`: a chunk is read back from its text in any layout.
* `Chunk.parse?_dump`: so it is from a dump, and is rendered as it was before.
-/

namespace LuaBytecode

open Json (Value Layout Member)

/-! ## Numerals -/

namespace Json.Value

/-- The numbers of several values are numerals if those of each value are. -/
theorem allNumerals_iff
    {items : List Value} :
    AllNumerals items ↔ ∀ item ∈ items, item.Numerals := by
  induction items with
  | nil =>
      simp [AllNumerals]
  | cons item rest ih =>
      rw [AllNumerals, ih, List.forall_mem_cons]

theorem numerals_array
    {items : List Value}
    (h : ∀ item ∈ items, item.Numerals) :
    (array items).Numerals := by
  rw [Numerals]
  exact allNumerals_iff.2 h

/-- A list of values that are written in one way. -/
theorem numerals_map
    {α : Type}
    {write : α → Value}
    {contents : List α}
    (h : ∀ content ∈ contents, (write content).Numerals) :
    (array (contents.map write)).Numerals :=
  numerals_array fun _ hitem => by
    obtain ⟨content, hcontent, rfl⟩ := List.mem_map.1 hitem
    exact h content hcontent

theorem membersNumerals_of_forall
    {members : List Member}
    (h : ∀ member ∈ members, member.2.Numerals) :
    MembersNumerals members := by
  induction members with
  | nil =>
      trivial
  | cons member rest ih =>
      rw [List.forall_mem_cons] at h
      exact ⟨h.1, ih h.2⟩

/-- The names of members are no numbers. -/
theorem numerals_record
    {names : List String}
    {values : List Value}
    (h : ∀ value ∈ values, value.Numerals) :
    (record names values).Numerals := by
  rw [record, Numerals]
  exact membersNumerals_of_forall fun member hmember => h _ (List.of_mem_zip hmember).2

theorem numerals_tagged
    {tag : String}
    {content : Value}
    (h : content.Numerals) :
    (tagged tag content).Numerals := by
  rw [tagged, Numerals]
  exact ⟨h, trivial⟩

theorem numerals_text
    (content : String) :
    (text content).Numerals :=
  trivial

theorem numerals_bool
    (content : Bool) :
    (bool content).Numerals :=
  trivial

/-- An integer is written in full, so it is a numeral. -/
theorem numerals_int
    (content : Int) :
    (int content).Numerals := by
  obtain ⟨numeral, hnumeral, -⟩ :=
    Option.bind_eq_some_iff.1 (Numeral.toInt?_ofText?_toString content)
  rw [int, Numerals, hnumeral]
  rfl

theorem numerals_nat
    (content : Nat) :
    (nat content).Numerals :=
  numerals_int content

end Json.Value

open Json.Value

theorem ByteOrder.numerals_toJson
    (order : ByteOrder) :
    order.toJson.Numerals :=
  numerals_text order.label

theorem Header.numerals_toJson
    (header : Header) :
    header.toJson.Numerals := by
  refine numerals_record ?_
  simp only [List.forall_mem_cons, numerals_nat, numerals_bool, header.order.numerals_toJson]
  simp

/-- A number that is named, or whose text can be read back, is written as a name or a numeral. -/
theorem Double.numerals_toJson
    {value : Double}
    (h : value.ReadsBack) :
    value.toJson.Numerals := by
  cases value with
  | nan =>
      exact numerals_text _
  | infinite negative =>
      exact numerals_text _
  | finite negative magnitude =>
      obtain ⟨numeral, hnumeral, -⟩ := Option.bind_eq_some_iff.1 h
      rw [toJson, Numerals, hnumeral]
      rfl

/-- Among the constants only numbers have to be read back. -/
theorem Constant.numerals_toJson
    {constant : Constant}
    (h : ∀ value, constant = .number value → value.ReadsBack) :
    constant.toJson.Numerals := by
  cases constant with
  | nil =>
      exact numerals_text _
  | bool value =>
      exact numerals_tagged (numerals_bool value)
  | number value =>
      exact numerals_tagged (Double.numerals_toJson (h value rfl))
  | string value =>
      exact numerals_tagged (numerals_text value)

/-- An operation is dumped by its name, or by its code if it has none. -/
theorem Opcode.numerals_toJson
    (op : Opcode) :
    op.toJson.Numerals := by
  rw [toJson]
  cases op.label? with
  | some label =>
      exact numerals_text label
  | none =>
      exact numerals_tagged (numerals_nat _)

theorem Operand.numerals_toJson
    (operand : Operand) :
    operand.toJson.Numerals := by
  cases operand with
  | abc b c =>
      refine numerals_tagged (numerals_record ?_)
      simp [numerals_nat]
  | bx index =>
      exact numerals_tagged (numerals_nat _)
  | sbx offset =>
      exact numerals_tagged (numerals_int _)

theorem Instruction.numerals_toJson
    (ins : Instruction) :
    ins.toJson.Numerals := by
  refine numerals_record ?_
  simp [numerals_nat, ins.op.numerals_toJson, ins.operand.numerals_toJson]

theorem LocalVariable.numerals_toJson
    (entry : LocalVariable) :
    entry.toJson.Numerals := by
  refine numerals_record ?_
  simp [numerals_text, numerals_int]

namespace Prototype

/-- The values of a function, the functions defined in it being dumped already. -/
theorem numerals_infoValues
    {info : FunctionInfo}
    (h : info.ReadsBack)
    {children : List Value}
    (hchildren : ∀ child ∈ children, child.Numerals) :
    ∀ value ∈ infoValues info children, value.Numerals := by
  have hconstants : (Value.array (info.constants.map Constant.toJson)).Numerals :=
    numerals_map fun _ hconstant => Constant.numerals_toJson fun value hvalue =>
      h value (hvalue ▸ hconstant)
  simp only [infoValues, List.forall_mem_cons]
  exact ⟨numerals_text _, numerals_int _, numerals_int _, numerals_nat _, numerals_nat _,
    numerals_nat _, numerals_nat _, numerals_map fun ins _ => ins.numerals_toJson, hconstants,
    numerals_array hchildren, numerals_map fun _ _ => numerals_int _,
    numerals_map fun entry _ => entry.numerals_toJson, numerals_map fun name _ => numerals_text name,
    List.forall_mem_nil _⟩

mutual

/-- A tree is dumped with no number that is not a numeral. -/
theorem numerals_toJson :
    ∀ tree : Prototype, (∀ info ∈ preorder tree, info.ReadsBack) → tree.toJson.Numerals
  | .node info children, h => by
      rw [preorder, List.forall_mem_cons] at h
      rw [toJson, infoToJson]
      exact numerals_record (numerals_infoValues h.1 (numerals_toJsonAll children h.2))

theorem numerals_toJsonAll :
    ∀ trees : List Prototype, (∀ info ∈ preorderAll trees, info.ReadsBack) →
      ∀ value ∈ toJsonAll trees, value.Numerals
  | [], _ => by
      rw [toJsonAll]
      exact List.forall_mem_nil _
  | tree :: rest, h => by
      rw [preorderAll, List.forall_mem_append] at h
      rw [toJsonAll, List.forall_mem_cons]
      exact ⟨numerals_toJson tree h.1, numerals_toJsonAll rest h.2⟩

end
end Prototype

namespace Chunk

variable {chunk : Chunk}

/-- A dump has no number that is not a numeral. -/
theorem numerals_toJson
    (h : ∀ info ∈ chunk.main.preorder, info.ReadsBack) :
    chunk.toJson.Numerals := by
  refine numerals_record ?_
  simp [chunk.header.numerals_toJson, Prototype.numerals_toJson chunk.main h]

/-! ## Reading back -/

/-- A chunk is read back from its text in any layout, with blanks behind it or none. -/
theorem parse?_render
    {layout : Layout}
    (hlayout : layout.Blank)
    (hnumbers : ∀ info ∈ chunk.main.preorder, info.ReadsBack)
    (hnesting : chunk.toJson.nesting ≤ Loader.levels)
    {blanks : String}
    (hblanks : ∀ char ∈ blanks.toList, Json.isBlank char = true) :
    Chunk.parse? (chunk.toJson.render layout 0 ++ blanks) = some chunk := by
  rw [Chunk.parse?, Value.parse?_render hlayout _ (numerals_toJson hnumbers) hblanks]
  exact Chunk.loads hnumbers _ hnesting

/--
A chunk is read back from its dump with the line break behind it, and from its
text without blanks.  Its parts need not agree with each other: an instruction
may carry another operation or operand than its word, and an undefined operation
the code of a defined one.  An infinity, a zero with its sign and a number that
is none come back as themselves, so pseudocode and listing are those of the
original.
-/
theorem parse?_dump
    (chunk : Chunk)
    (hnumbers : ∀ info ∈ chunk.main.preorder, info.ReadsBack)
    (hnesting : chunk.toJson.nesting ≤ Loader.levels) :
    ∀ text ∈ [chunk.dump ++ "\n", chunk.toJson.compact], ∃ reloaded,
      Chunk.parse? text = some reloaded ∧ reloaded = chunk ∧
        (∀ (listConstants : Bool) (sink : Sink),
          Rendering.pseudocode listConstants reloaded.main sink =
            Rendering.pseudocode listConstants chunk.main sink) ∧
        ∀ sink : Sink, Listing.write reloaded.main sink = Listing.write chunk.main sink := by
  have hpretty : Chunk.parse? (chunk.dump ++ "\n") = some chunk :=
    parse?_render Layout.blank_pretty hnumbers hnesting (List.all_eq_true.1 rfl)
  have hcompact : Chunk.parse? chunk.toJson.compact = some chunk := by
    have h : Chunk.parse? (chunk.toJson.compact ++ "") = some chunk :=
      parse?_render Layout.blank_compact hnumbers hnesting (List.all_eq_true.1 rfl)
    rwa [String.append_empty] at h
  intro text htext
  refine ⟨chunk, ?_, rfl, fun _ _ => rfl, fun _ => rfl⟩
  obtain rfl | htext := List.mem_cons.1 htext
  · exact hpretty
  · rw [List.mem_singleton.1 htext]
    exact hcompact

/-- A main function without end, which holds numbers and text of all kinds. -/
def exampleInfo : FunctionInfo where
  sourceName := "@\"a\\b\"\n\x01é"
  lineDefined := 0
  lastLineDefined := -1
  upvalueCount := 0
  parameterCount := 0
  vararg := ⟨2⟩
  maxStackSize := 255
  instructions := [⟨0xFFFFFFFF, .unknown 3, 7, .sbx (-5)⟩, ⟨0, .ret, 0, .abc 1 500⟩]
  constants :=
    [ .nil, .bool true, .string "inf", .number .nan, .number (.infinite true),
      .number (.finite true ⟨0, by decide⟩), .number (.finite false ⟨0x3FF8000000000000, by decide⟩)]
  lineInfo := [-7, 9]
  locals := [⟨"", 0, 2⟩]
  upvalueNames := ["up"]

/-- A chunk with a function inside its main function. -/
def exampleNested : Chunk where
  header := ⟨0x51, 0, .little, 4, 8, 4, 8, false⟩
  main := .node exampleInfo [.node { exampleInfo with lineDefined := 3 } []]

/-- The chunk is read back from both of its dumps, with its odd instructions and numbers. -/
theorem exampleNested_parse?_dump :
    (∀ info ∈ exampleNested.main.preorder, info.ReadsBack) ∧
      exampleNested.toJson.nesting ≤ Loader.levels ∧
      ∀ text ∈ [exampleNested.dump ++ "\n", exampleNested.toJson.compact], ∃ reloaded,
        Chunk.parse? text = some reloaded ∧ reloaded = exampleNested ∧
          (∀ (listConstants : Bool) (sink : Sink),
            Rendering.pseudocode listConstants reloaded.main sink =
              Rendering.pseudocode listConstants exampleNested.main sink) ∧
          ∀ sink : Sink,
            Listing.write reloaded.main sink = Listing.write exampleNested.main sink := by
  have hzero : (Double.finite true ⟨0, by decide⟩).ReadsBack := by
    rw [Double.finite_readsBack_iff]
    decide +kernel
  have hhalves : (Double.finite false ⟨0x3FF8000000000000, by decide⟩).ReadsBack := by
    rw [Double.finite_readsBack_iff]
    decide +kernel
  have hinfo : exampleInfo.ReadsBack := by
    intro value hvalue
    simp only [exampleInfo, List.mem_cons, Constant.number.injEq, List.not_mem_nil, or_false,
      reduceCtorEq, false_or] at hvalue
    obtain rfl | rfl | rfl | rfl := hvalue
    · trivial
    · trivial
    · exact hzero
    · exact hhalves
  have hnumbers : ∀ info ∈ exampleNested.main.preorder, info.ReadsBack := by
    intro info hmember
    obtain rfl | rfl : info = exampleInfo ∨ info = { exampleInfo with lineDefined := 3 } := by
      simpa [exampleNested, Prototype.preorder, Prototype.preorderAll] using hmember
    · exact hinfo
    · exact hinfo
  have hnesting : exampleNested.toJson.nesting ≤ Loader.levels := by
    decide +kernel
  exact ⟨hnumbers, hnesting, parse?_dump exampleNested hnumbers hnesting⟩

end Chunk
end LuaBytecode
