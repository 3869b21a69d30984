import LuaBytecode.Proofs.ChunkAcceptance
import LuaBytecode.Proofs.DecodedText
import LuaBytecode.Proofs.FunctionNames

/-!
# Source lines in listings

A chunk stores the source line of an instruction counted from 1, the reader counts
it from 0, and a listing counts it from 1 again.  The reader stops at the least
number, so that adding one is always possible to what it has read, whatever the
width of integers is; only the least number itself comes back as the next one.

Which lines a chunk stores is said by its bytes alone: the grammar of chunks is
stated once more with the tables of lines as they are stored, and the bytes admit
one list of tables.

**Results.**
* `Prototype.StoresLines`: the bytes of a tree with the tables that are stored.
* `Prototype.StoresLines.unique`: bytes have one list of tables.
* `Prototype.exists_storesLines`: the tables of a tree that was read.
* `Chunk.listing_shows_stored_lines`: what the listing shows of them.
-/

namespace LuaBytecode

/-! ## Bytes that begin with a value -/

/-- Bytes begin with a value in at most one way. -/
def Unambiguous
    {α : Type}
    (Encoding : α → List UInt8 → Prop) : Prop :=
  ∀ ⦃x y : α⦄ ⦃first second rest rest' : List UInt8⦄,
    Encoding x first → Encoding y second → first ++ rest = second ++ rest' →
      x = y ∧ first = second ∧ rest = rest'

/-- What a reader accepts is unambiguous, since a reader has one result. -/
theorem Reader.Accepts.unambiguous
    {α : Type}
    {order : ByteOrder}
    {reader : Reader α}
    {Encoding : α → List UInt8 → Prop}
    (h : ∀ bound, Accepts order bound reader Encoding) :
    Unambiguous Encoding := by
  intro x y first second rest rest' hx hy hsame
  have hrun {z : α} {encoded : List UInt8} (hz : Encoding z encoded)
      (hbegins : encoded <+: first ++ rest) :=
    (h _ ⟨0, first ++ rest, order⟩ rfl (Nat.le_refl _) z _).2 ⟨encoded, hz, hbegins, rfl⟩
  have hfirst := hrun hx (List.prefix_append first rest)
  have hsecond := hrun hy (hsame ▸ List.prefix_append second rest')
  rw [hfirst] at hsecond
  obtain ⟨rfl, hcursor⟩ := EStateM.Result.ok.inj hsecond
  have hlength : first.length = second.length := by
    simpa using congrArg Cursor.position hcursor
  obtain ⟨rfl, rfl⟩ := List.append_inj hsame hlength
  exact ⟨rfl, rfl, rfl⟩

section Parts

variable {header : Header}

theorem unambiguous_unsigned
    {order : ByteOrder}
    {width : Nat} :
    Unambiguous (UnsignedBytes order width) :=
  Reader.Accepts.unambiguous fun _ => Reader.Accepts.uint width

/-- A header has no numbers of more than one byte, so any byte order will do. -/
theorem unambiguous_header :
    Unambiguous HeaderBytes :=
  Reader.Accepts.unambiguous fun bound => @Header.accepts_read .little bound

theorem unambiguous_string
    (header : Header) :
    Unambiguous (StringBytes header) :=
  Reader.Accepts.unambiguous fun _ => accepts_readString header

theorem unambiguous_int
    (hvalid : header.Valid) :
    Unambiguous (IntBytes header) :=
  Reader.Accepts.unambiguous fun _ => accepts_readInt header hvalid

/-- The number of elements stands before them. -/
theorem unambiguous_section
    {α : Type}
    {element : Reader α}
    {Encoding : α → List UInt8 → Prop}
    (h : ∀ bound, Reader.Accepts header.order bound element Encoding) :
    Unambiguous (SectionBytes header Encoding) :=
  Reader.Accepts.unambiguous fun bound => accepts_readSection header (h bound) 0

end Parts

/-! ## Stored tables -/

namespace Prototype

variable (header : Header)

mutual

/--
The bytes of a function and of the functions defined in it, with the tables of
lines that are stored in them, in the order of the functions.  These bytes do not
depend on the tables that the tree itself has.
-/
inductive StoresLines :
    Prototype → List (List Int64) → List UInt8 → Prop
  | node
      {info : FunctionInfo}
      {children : List Prototype}
      {table : List Int64}
      {tables : List (List Int64)}
      {source first last code constants count inner lines locals upvalues : List UInt8}
      (hsource : StringBytes header info.sourceName source)
      (hfirst : IntBytes header info.lineDefined first)
      (hlast : IntBytes header info.lastLineDefined last)
      (hcode : SectionBytes header (InstructionBytes header) info.instructions code)
      (hconstants : SectionBytes header (ConstantBytes header) info.constants constants)
      (hcount : UnsignedBytes header.order header.intWidth.toNat children.length count)
      (hinner : AllStoreLines children tables inner)
      (hlines : SectionBytes header (IntBytes header) table lines)
      (hlocals : SectionBytes header (LocalBytes header) info.locals locals)
      (hupvalues : SectionBytes header (StringBytes header) info.upvalueNames upvalues) :
      StoresLines (.node info children) (table :: tables)
        (source ++ first ++ last ++
          [info.upvalueCount, info.parameterCount, info.vararg.bits, info.maxStackSize] ++
          code ++ constants ++ (count ++ inner) ++ lines ++ locals ++ upvalues)

/-- The same of functions one after the other. -/
inductive AllStoreLines :
    List Prototype → List (List Int64) → List UInt8 → Prop
  | nil :
      AllStoreLines [] [] []
  | cons
      {tree : Prototype}
      {rest : List Prototype}
      {tables others : List (List Int64)}
      {first later : List UInt8}
      (hfirst : StoresLines tree tables first)
      (hrest : AllStoreLines rest others later) :
      AllStoreLines (tree :: rest) (tables ++ others) (first ++ later)

end

/-! ## Existence -/

variable {header}

/-- Lines that are counted from 0 are stored as lines that are counted from 1. -/
theorem exists_sectionBytes_of_lineBytes
    {lines : List Int64}
    {encoded : List UInt8}
    (h : SectionBytes header (LineBytes header) lines encoded) :
    ∃ table : List Int64, SectionBytes header (IntBytes header) table encoded ∧
      lines = table.map zeroBasedLine := by
  obtain ⟨hcount, hitems⟩ := h
  rename_i count encoded
  have htable : ∃ table : List Int64, ItemsBytes (IntBytes header) table encoded ∧
      lines = table.map zeroBasedLine := by
    clear hcount
    induction hitems with
    | nil =>
        exact ⟨[], .nil, rfl⟩
    | cons hfirst _ ih =>
        obtain ⟨stored, hline, hstored⟩ := hfirst
        obtain ⟨table, htable, rfl⟩ := ih
        rw [← toInt_zeroBasedLine, Int64.toInt_inj] at hline
        exact ⟨stored :: table, .cons hstored htable, by rw [List.map_cons, hline]⟩
  obtain ⟨table, htable, rfl⟩ := htable
  rw [List.length_map] at hcount
  exact ⟨table, .mk hcount htable, rfl⟩

mutual

/-- The tables of a tree are the stored ones, counted from 0. -/
theorem exists_storesLines :
    ∀ {tree : Prototype} {encoded : List UInt8}, PrototypeBytes header tree encoded →
      ∃ tables, StoresLines header tree tables encoded ∧
        tree.preorder.map FunctionInfo.lineInfo = tables.map (List.map zeroBasedLine)
  | .node info children, _, .node hsource hfirst hlast hcode hconstants hcount hinner hlines
      hlocals hupvalues => by
      obtain ⟨table, htable, hinfo⟩ := exists_sectionBytes_of_lineBytes hlines
      obtain ⟨tables, htables, hchildren⟩ := exists_allStoreLines hinner
      refine ⟨table :: tables, .node hsource hfirst hlast hcode hconstants hcount htables htable
        hlocals hupvalues, ?_⟩
      rw [preorder_node, List.map_cons, List.map_cons, hchildren, hinfo]

theorem exists_allStoreLines :
    ∀ {trees : List Prototype} {encoded : List UInt8},
      ItemsBytes (PrototypeBytes header) trees encoded →
      ∃ tables, AllStoreLines header trees tables encoded ∧
        (preorderAll trees).map FunctionInfo.lineInfo = tables.map (List.map zeroBasedLine)
  | [], _, .nil =>
      ⟨[], .nil, by rw [preorderAll_nil]; rfl⟩
  | tree :: rest, _, .cons hfirst hrest => by
      obtain ⟨tables, htables, htree⟩ := exists_storesLines hfirst
      obtain ⟨others, hothers, hlater⟩ := exists_allStoreLines hrest
      refine ⟨tables ++ others, .cons htables hothers, ?_⟩
      rw [preorderAll_cons, List.map_append, List.map_append, htree, hlater]

end

/-! ## Uniqueness -/

mutual

/-- The parts of a prototype are told from the front on, and the tables with them. -/
theorem StoresLines.unique
    (hvalid : header.Valid) :
    ∀ {tree : Prototype} {tables others : List (List Int64)}
      {first second rest rest' : List UInt8},
      StoresLines header tree tables first → StoresLines header tree others second →
      first ++ rest = second ++ rest' → tables = others ∧ first = second ∧ rest = rest'
  | .node info children, _, _, _, _, rest, rest',
    .node hsource hfirst hlast hcode hconstants hcount hinner hlines hlocals hupvalues,
    .node hsource' hfirst' hlast' hcode' hconstants' hcount' hinner' hlines' hlocals' hupvalues',
    hsame => by
      simp only [List.append_assoc] at hsame
      obtain ⟨-, rfl, hbehindSource⟩ := unambiguous_string header hsource hsource' hsame
      obtain ⟨-, rfl, hbehindFirst⟩ := unambiguous_int hvalid hfirst hfirst' hbehindSource
      obtain ⟨-, rfl, hbehindLast⟩ := unambiguous_int hvalid hlast hlast' hbehindFirst
      have hbehindFlags := List.append_cancel_left hbehindLast
      obtain ⟨-, rfl, hbehindCode⟩ :=
        unambiguous_section (fun _ => accepts_instruction header) hcode hcode' hbehindFlags
      obtain ⟨-, rfl, hbehindConstants⟩ :=
        unambiguous_section (fun _ => Constant.accepts_read header hvalid) hconstants hconstants'
          hbehindCode
      obtain ⟨-, rfl, hbehindCount⟩ := unambiguous_unsigned hcount hcount' hbehindConstants
      obtain ⟨rfl, rfl, hbehindInner⟩ := AllStoreLines.unique hvalid hinner hinner' hbehindCount
      obtain ⟨rfl, rfl, hbehindLines⟩ :=
        unambiguous_section (fun _ => accepts_readInt header hvalid) hlines hlines' hbehindInner
      obtain ⟨-, rfl, hbehindLocals⟩ :=
        unambiguous_section (fun _ => LocalVariable.accepts_read header hvalid) hlocals hlocals'
          hbehindLines
      obtain ⟨-, rfl, hbehind⟩ :=
        unambiguous_section (fun _ => accepts_readString header) hupvalues hupvalues'
          hbehindLocals
      exact ⟨rfl, rfl, hbehind⟩

theorem AllStoreLines.unique
    (hvalid : header.Valid) :
    ∀ {trees : List Prototype} {tables others : List (List Int64)}
      {first second rest rest' : List UInt8},
      AllStoreLines header trees tables first → AllStoreLines header trees others second →
      first ++ rest = second ++ rest' → tables = others ∧ first = second ∧ rest = rest'
  | [], _, _, _, _, _, _, .nil, .nil, hsame =>
      ⟨rfl, rfl, hsame⟩
  | tree :: trees, _, _, _, _, rest, rest', .cons hfirst hrest, .cons hfirst' hrest', hsame => by
      simp only [List.append_assoc] at hsame
      obtain ⟨rfl, rfl, hlater⟩ := StoresLines.unique hvalid hfirst hfirst' hsame
      obtain ⟨rfl, rfl, rfl⟩ := AllStoreLines.unique hvalid hrest hrest' hlater
      exact ⟨rfl, rfl, rfl⟩

end

/-! ## Sections -/

mutual

/-- Each of the tables is a section of integers. -/
theorem StoresLines.exists_section :
    ∀ {tree : Prototype} {tables : List (List Int64)} {encoded : List UInt8},
      StoresLines header tree tables encoded →
      ∀ table ∈ tables, ∃ lines, SectionBytes header (IntBytes header) table lines
  | .node info children, _, _, .node _ _ _ _ _ _ hinner hlines _ _, table, hmem => by
      cases hmem with
      | head =>
          exact ⟨_, hlines⟩
      | tail _ hothers =>
          exact AllStoreLines.exists_section hinner table hothers

theorem AllStoreLines.exists_section :
    ∀ {trees : List Prototype} {tables : List (List Int64)} {encoded : List UInt8},
      AllStoreLines header trees tables encoded →
      ∀ table ∈ tables, ∃ lines, SectionBytes header (IntBytes header) table lines
  | [], _, _, .nil, _, hmem => nomatch hmem
  | tree :: rest, _, _, .cons hfirst hrest, table, hmem => by
      rcases List.mem_append.1 hmem with hmem | hmem
      · exact StoresLines.exists_section hfirst table hmem
      · exact AllStoreLines.exists_section hrest table hmem

end

end Prototype

/-! ## Lines of a listing -/

/-- How far a line number that is stored comes back: the least one is shown as the next. -/
def shownLine
    (stored : Int64) : Int :=
  if stored.toInt = -2 ^ 63 then
    -2 ^ 63 + 1
  else
    stored.toInt

/-- Adding one to a line counted from 0 never leaves the range of lines. -/
theorem toInt_zeroBasedLine_lt
    (stored : Int64) :
    (zeroBasedLine stored).toInt + 1 < 2 ^ 63 := by
  have hmost := stored.toInt_lt
  rw [toInt_zeroBasedLine]
  omega

theorem toInt_zeroBasedLine_add_one
    (stored : Int64) :
    (zeroBasedLine stored + 1).toInt = shownLine stored := by
  have hleast := stored.le_toInt
  have hmost := stored.toInt_lt
  have hone : (1 : Int64).toInt = 1 := by
    decide
  rw [Int64.toInt_add, hone, toInt_zeroBasedLine,
    Int.bmod_eq_of_le (by omega) (by omega), shownLine]
  split <;> omega

/-- Every element of a section has bytes of its own. -/
theorem exists_bytes_of_mem
    {α : Type}
    {header : Header}
    {Encoding : α → List UInt8 → Prop}
    {items : List α}
    {encoded : List UInt8}
    (h : SectionBytes header Encoding items encoded)
    {item : α}
    (hmem : item ∈ items) :
    ∃ own, Encoding item own := by
  obtain ⟨-, hitems⟩ := h
  induction hitems with
  | nil =>
      cases hmem
  | cons hfirst _ ih =>
      cases hmem with
      | head =>
          exact ⟨_, hfirst⟩
      | tail _ hrest =>
          exact ih hrest

namespace Listing

/-- The lines of instructions from `pc` on, each by its number. -/
theorem instructionLines_eq_mapIdx
    (info : FunctionInfo)
    (pc : Nat)
    (instructions : List Instruction) :
    instructionLines info pc instructions =
      instructions.mapIdx fun offset ins => instructionText info (pc + offset) ins := by
  induction instructions generalizing pc with
  | nil =>
      rfl
  | cons ins rest ih =>
      rw [instructionLines, ih, List.mapIdx_cons]
      simp only [Nat.add_zero, Nat.add_assoc, Nat.add_comm 1]

theorem exists_functionLines_eq
    (name : String)
    (info : FunctionInfo) :
    ∃ front, functionLines name info =
      front ++ "code:\n" :: info.instructions.mapIdx (instructionText info) := by
  have hlines := instructionLines_eq_mapIdx info 0 info.instructions
  simp only [Nat.zero_add] at hlines
  rw [functionLines, hlines]
  exact ⟨_, rfl⟩

/-- The comment of an instruction with what stands before it. -/
def remarkText
    (constants : List Constant)
    (pc : Nat)
    (ins : Instruction) : String :=
  match comment? constants pc ins with
  | some comment => " ; " ++ comment
  | none => ""

/-- A source line in brackets, if there is one. -/
def sourceText :
    Option Int64 → String
  | some stored => " [" ++ toString (shownLine stored) ++ "]"
  | none => ""

/-- The line of an instruction, by the table that is stored. -/
theorem instructionText_eq
    {info : FunctionInfo}
    {table : List Int64}
    (h : info.lineInfo = table.map zeroBasedLine)
    (pc : Nat)
    (ins : Instruction) :
    instructionText info pc ins =
      "  " ++ pcText pc ++ sourceText table[pc]? ++ " " ++ ins.text ++
        remarkText info.constants pc ins ++ "\n" := by
  rw [instructionText, h, List.getElem?_map]
  cases table[pc]? with
  | none =>
      rfl
  | some stored =>
      simp only [Option.map_some, toInt_zeroBasedLine_add_one]
      rfl

/--
A function is listed with the stored lines: instruction by instruction, a line is
shown if the table has one.  The lines are integers of the declared width, of
which only the widest one has the least line, and the sum that the listing forms
is in the range of lines.
-/
structure ShowsLines
    (header : Header)
    (name : String)
    (info : FunctionInfo)
    (table : List Int64) : Prop where
  shown : ∃ front, functionLines name info =
    front ++ "code:\n" :: info.instructions.mapIdx fun pc ins =>
      "  " ++ pcText pc ++ sourceText table[pc]? ++ " " ++ ins.text ++
        remarkText info.constants pc ins ++ "\n"
  fits : ∀ stored ∈ table, FitsSigned header.intWidth.toNat stored.toInt
  least : ∀ stored ∈ table, stored.toInt = -2 ^ 63 → header.intWidth = 8
  sum : ∀ line ∈ info.lineInfo, line.toInt + 1 < 2 ^ 63 ∧ (line + 1).toInt = line.toInt + 1

theorem showsLines
    {header : Header}
    (hvalid : header.Valid)
    (name : String)
    {info : FunctionInfo}
    {table : List Int64}
    {encoded : List UInt8}
    (htable : SectionBytes header (IntBytes header) table encoded)
    (hinfo : info.lineInfo = table.map zeroBasedLine) :
    ShowsLines header name info table := by
  have hfits : ∀ stored ∈ table, FitsSigned header.intWidth.toNat stored.toInt := by
    intro stored hstored
    obtain ⟨own, hown, -⟩ := exists_bytes_of_mem htable hstored
    exact hown
  refine ⟨?_, hfits, fun stored hstored hleast => ?_, fun line hline => ?_⟩
  · obtain ⟨front, hfront⟩ := exists_functionLines_eq name info
    refine ⟨front, ?_⟩
    rw [hfront, funext fun pc => funext (instructionText_eq hinfo pc)]
  · obtain ⟨hlow, -⟩ := hfits stored hstored
    obtain ⟨-, hmost⟩ := hvalid.intWidth_bounds
    have hwidth : 8 ≤ header.intWidth.toNat := by
      by_contra hsmall
      have hpower : (2 : Int) ^ (8 * header.intWidth.toNat - 1) < 2 ^ 63 :=
        pow_lt_pow_right₀ (by norm_num) (by omega)
      omega
    exact UInt8.toNat_inj.1 (Nat.le_antisymm hmost hwidth)
  · rw [hinfo] at hline
    obtain ⟨stored, -, rfl⟩ := List.mem_map.1 hline
    refine ⟨toInt_zeroBasedLine_lt stored, ?_⟩
    rw [toInt_zeroBasedLine_add_one, toInt_zeroBasedLine, shownLine]
    have hleast := stored.le_toInt
    split <;> omega

end Listing

/-! ## Chunks -/

namespace Chunk

/-- The tables of lines that a byte string has at its front for the functions of a chunk. -/
def HasTables
    (chunk : Chunk)
    (bytes : List UInt8)
    (tables : List (List Int64)) : Prop :=
  ∃ front body rest,
    bytes = front ++ body ++ rest ∧
    HeaderBytes chunk.header front ∧
    Prototype.StoresLines chunk.header chunk.main tables body

theorem HasTables.unique
    {chunk : Chunk}
    {bytes : List UInt8}
    {tables others : List (List Int64)}
    (h : chunk.HasTables bytes tables)
    (h' : chunk.HasTables bytes others) :
    others = tables := by
  obtain ⟨front, body, rest, rfl, hfront, hbody⟩ := h
  obtain ⟨front', body', rest', hsame, hfront', hbody'⟩ := h'
  simp only [List.append_assoc] at hsame
  obtain ⟨-, rfl, hbehind⟩ := unambiguous_header hfront hfront' hsame
  exact (hbody.unique (valid_of_headerBytes hfront) hbody' hbehind).1.symm

/--
The source lines of a chunk that was read come back in its listing.

The bytes have one table of lines for each function, in the order in which the
functions are listed.  The listing of a function has, behind `code:`, one line for
each instruction; it shows the entry of the table with the same number in brackets,
and no bracket if there is none.  The least of all integers, which only integers
of eight bytes can be, is shown as the next one.  Adding one to a line that was
read is never beyond the range of lines.
-/
theorem listing_shows_stored_lines
    {bytes : List UInt8}
    {chunk : Chunk}
    (h : read bytes = .ok chunk) :
    ∃ tables : List (List Int64),
      chunk.HasTables bytes tables ∧
      (∀ others, chunk.HasTables bytes others → others = tables) ∧
      tables.length = chunk.main.preorder.length ∧
      chunk.main.listing =
        .ok (String.intercalate "\n" (chunk.main.named.map Listing.functionText)) ∧
      ∀ (place : Nat) (info : FunctionInfo), chunk.main.preorder[place]? = some info →
        ∃ name table,
          chunk.main.named[place]? = some (name, info) ∧
          tables[place]? = some table ∧
          Listing.ShowsLines chunk.header name info table := by
  rw [read_eq_ok_iff_reader] at h
  obtain ⟨next, hrun⟩ := h
  obtain ⟨front, body, hoccupies, ⟨rest, hrest⟩, -⟩ := (reader_eq_ok_iff _ _ _).1 hrun
  have hvalid := valid_of_headerBytes hoccupies.header
  obtain ⟨tables, htables, hlines⟩ := Prototype.exists_storesLines hoccupies.main
  have hhas : chunk.HasTables bytes tables :=
    ⟨front, body, rest, hrest.symm, hoccupies.header, htables⟩
  have hlength : tables.length = chunk.main.preorder.length := by
    simpa using (congrArg List.length hlines).symm
  refine ⟨tables, hhas, fun others hothers => hhas.unique hothers, hlength, ?_,
    fun place info hinfo => ?_⟩
  · rw [chunk.main.listing_eq, Listing.text_eq]
  · obtain ⟨⟨name, _⟩, hnamed, rfl⟩ :
        ∃ entry, chunk.main.named[place]? = some entry ∧ entry.2 = info := by
      rwa [← chunk.main.map_snd_named, List.getElem?_map, Option.map_eq_some_iff] at hinfo
    have hentry : (chunk.main.preorder.map FunctionInfo.lineInfo)[place]? =
        (tables.map (List.map zeroBasedLine))[place]? := by
      rw [hlines]
    simp only [List.getElem?_map, hinfo, Option.map_some] at hentry
    obtain ⟨table, htable, hlineInfo⟩ := Option.map_eq_some_iff.1 hentry.symm
    obtain ⟨encoded, hsection⟩ := htables.exists_section table (List.mem_of_getElem? htable)
    exact ⟨name, table, hnamed, htable, Listing.showsLines hvalid name hsection hlineInfo.symm⟩

/-- A function of two instructions, on the least line and on line 7, and one in it without lines. -/
def exampleLines : List UInt8 :=
  [0x1b, 0x4c, 0x75, 0x61, 0x51, 0, 1, 8, 1, 4, 8, 0] ++
  [0, 0, 0, 0, 0, 0, 0, 0, 0, 0, 0, 0, 0, 0, 0, 0, 0, 0, 0, 2, 2] ++
  [2, 0, 0, 0, 0, 0, 0, 0, 0x1e, 0, 0x80, 0, 0x1e, 0, 0x80, 0] ++
  [0, 0, 0, 0, 0, 0, 0, 0, 1, 0, 0, 0, 0, 0, 0, 0] ++
  -- the inner function, behind whose code there is nothing
  [0, 3, 0, 0, 0, 0, 0, 0, 0, 3, 0, 0, 0, 0, 0, 0, 0, 0, 0, 0, 2] ++
  [1, 0, 0, 0, 0, 0, 0, 0, 0x1e, 0, 0x80, 0] ++
  List.replicate 40 0 ++
  -- the lines of the outer one, -2^63 and 7
  [2, 0, 0, 0, 0, 0, 0, 0, 0, 0, 0, 0, 0, 0, 0, 0x80, 7, 0, 0, 0, 0, 0, 0, 0] ++
  List.replicate 16 0

def exampleLinesChunk : Chunk where
  header := ⟨0x51, 0, .little, 8, 1, 4, 8, false⟩
  main :=
    .node ⟨"", 0, 0, 0, 0, ⟨2⟩, 2, [.decode 0x80001e, .decode 0x80001e], [],
      [Int64.minValue, 6], [], []⟩
      [.node ⟨"", 3, 3, 0, 0, ⟨0⟩, 2, [.decode 0x80001e], [], [], [], []⟩ []]

set_option maxRecDepth 1000 in
theorem read_exampleLines :
    read exampleLines = .ok exampleLinesChunk := rfl

theorem exampleLines_shown :
    read exampleLines = .ok exampleLinesChunk ∧
    ∃ tables : List (List Int64),
      exampleLinesChunk.HasTables exampleLines tables ∧
      (∀ others, exampleLinesChunk.HasTables exampleLines others → others = tables) ∧
      tables.length = 2 ∧
      exampleLinesChunk.main.listing = .ok
        (String.intercalate "\n" (exampleLinesChunk.main.named.map Listing.functionText)) ∧
      ∀ (place : Nat) (info : FunctionInfo),
        exampleLinesChunk.main.preorder[place]? = some info →
          ∃ name table,
            exampleLinesChunk.main.named[place]? = some (name, info) ∧
            tables[place]? = some table ∧
            Listing.ShowsLines exampleLinesChunk.header name info table :=
  ⟨read_exampleLines, listing_shows_stored_lines read_exampleLines⟩

end Chunk
end LuaBytecode
