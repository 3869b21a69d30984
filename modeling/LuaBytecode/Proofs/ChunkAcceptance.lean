import LuaBytecode.Proofs.Acceptance

/-!
# Byte strings that are chunks

The reader of chunks accepts the grammar of chunks: a byte string is read as a
chunk if and only if it begins with bytes of that chunk.

The reader of prototypes recurs on a bound for the unread bytes.  Reading the
length of the source name takes at least one byte and so lowers the bound, which
carries the induction; at bound 0 nothing is left and nothing is accepted.

**Results.**
* `Header.accepts_read`, `Constant.accepts_read`, `Prototype.accepts_read`: the
  parts of a chunk.
* `Chunk.read_eq_ok_iff`: whole byte strings.
-/

namespace LuaBytecode

open Reader

variable {order : ByteOrder} {bound : Nat}

/-! ## Headers -/

namespace Header

/-- A check of a width costs nothing if the relation asks for the same. -/
theorem accepts_checkWidth
    {α : Type}
    {field : WidthField}
    {allowed : List UInt8}
    {width : UInt8}
    {follow : Reader α}
    {Encoding : α → List UInt8 → Prop}
    (hallowed : ∀ x encoded, Encoding x encoded → width ∈ allowed)
    (hfollow : width ∈ allowed → Accepts order bound follow Encoding) :
    Accepts order bound (do checkWidth field allowed width; follow) Encoding := by
  by_cases h : width ∈ allowed
  · have hcheck : checkWidth field allowed width = pure () := by
      rw [checkWidth, if_pos h]
    rw [hcheck, pure_bind]
    exact hfollow h
  · have hcheck : checkWidth field allowed width = throw (.invalidWidth field width) := by
      rw [checkWidth, if_neg h]
    rw [hcheck]
    exact Accepts.throw fun x encoded hencoding => h (hallowed x encoded hencoding)

/-- The widths of integers and lengths are those from 1 to 8. -/
theorem mem_integerWidths_iff
    (width : UInt8) :
    width ∈ integerWidths ↔ 1 ≤ width ∧ width ≤ 8 := by
  simp only [integerWidths, List.mem_cons, List.not_mem_nil, or_false]
  constructor
  · rintro (rfl | rfl | rfl | rfl | rfl | rfl | rfl | rfl) <;> decide
  · rintro ⟨hleast, hmost⟩
    simp only [← UInt8.toNat_inj]
    rw [UInt8.le_iff_toNat_le] at hleast hmost
    have := width.toNat_lt
    simp only [UInt8.reduceToNat] at *
    omega

/-- The fields of a header, its first five bytes being put in front of them. -/
theorem accepts_readFields :
    Accepts order bound (readFields supportedVersion)
      (fun header encoded => HeaderBytes header (signature ++ supportedVersion :: encoded)) := by
  refine Accepts.require ?_ ?_
  · refine Accepts.byte_bind (fun format => ?_) (by rintro _ ⟨⟩)
    refine Accepts.byte_bind (fun orderMark => ?_) (by rintro _ ⟨⟩)
    refine Accepts.byte_bind (fun intWidth => ?_) (by rintro _ ⟨⟩)
    refine Accepts.byte_bind (fun sizeWidth => ?_) (by rintro _ ⟨⟩)
    refine Accepts.byte_bind (fun instructionWidth => ?_) (by rintro _ ⟨⟩)
    refine Accepts.byte_bind (fun numberWidth => ?_) (by rintro _ ⟨⟩)
    refine Accepts.byte_bind (fun integralMark => ?_) (by rintro _ ⟨⟩)
    refine accepts_checkWidth ?_ fun hint => ?_
    · rintro header _ ⟨⟩
      exact (mem_integerWidths_iff _).2 ‹header.Valid›.int
    refine accepts_checkWidth ?_ fun hsize => ?_
    · rintro header _ ⟨⟩
      exact (mem_integerWidths_iff _).2 ‹header.Valid›.size
    refine accepts_checkWidth ?_ fun hinstruction => ?_
    · rintro header _ ⟨⟩
      exact List.mem_singleton.2 rfl
    refine accepts_checkWidth ?_ fun hnumber => ?_
    · rintro header _ ⟨⟩
      simpa using ‹header.Valid›.number
    refine (Accepts.pure _).congr ?_
    intro header encoded
    constructor
    · rintro ⟨rfl, rfl⟩
      rw [mem_integerWidths_iff] at hint hsize
      cases List.mem_singleton.1 hinstruction
      refine HeaderBytes.mk rfl ?_ ⟨hint, hsize, rfl, by simpa using hnumber⟩ ?_
      · by_cases hmark : orderMark = 0 <;> simp [hmark]
      · simp
    · intro h
      cases h with
      | mk hversion horder hvalid hintegral =>
          obtain ⟨version, format, order, _, _, _, _, integral⟩ := header
          have hversion' : version = supportedVersion := hversion
          have hword' : _ = (4 : UInt8) := hvalid.instruction
          have horder' : order = if orderMark = 0 then .big else .little := by
            split
            · next hmark =>
                exact horder.1 hmark
            · next hmark =>
                cases order with
                | big =>
                    exact absurd (horder.2 rfl) hmark
                | little =>
                    rfl
          have hintegral' : integral = decide (integralMark ≠ 0) := by
            rw [Bool.eq_iff_iff, decide_eq_true_iff]
            exact hintegral.symm
          subst hversion' hword' horder' hintegral'
          exact ⟨rfl, rfl⟩
  · intro header encoded h
    cases h
    exact Nat.le_refl 7

/-- Headers are read from the bytes of headers. -/
theorem accepts_read :
    Accepts order bound read HeaderBytes := by
  refine Accepts.bytes_bind (fun found hlength => Accepts.ite
    (fun hsignature => Accepts.byte_bind (fun version => Accepts.ite ?_ ?_) ?_) ?_) ?_
  · rintro rfl
    subst hsignature
    exact accepts_readFields
  · refine fun hversion => Accepts.throw fun header others h => ?_
    subst hsignature
    cases h
    exact hversion rfl
  · intro header h
    subst hsignature
    cases h
  · refine fun hsignature => Accepts.throw fun header others h => ?_
    obtain ⟨a, b, c, d, rfl⟩ := List.length_eq_four.1 hlength
    cases h
    exact hsignature rfl
  · intro header encoded h
    cases h
    simp

end Header

/-! ## Strings -/

/-- Characters with the numbers of bytes are told by these numbers. -/
theorem latin1_eq_iff
    (raw : List UInt8)
    (text : String) :
    text = latin1 raw ↔ CharacterBytes text raw := by
  have hnumbers : (raw.map Char.ofUInt8).map Char.toNat = raw.map UInt8.toNat := by
    rw [List.map_map]
    rfl
  have hinjective : Function.Injective (List.map Char.toNat) :=
    List.map_injective_iff.2 fun _ _ h => Char.toNat_inj.1 h
  rw [CharacterBytes, ← hnumbers, hinjective.eq_iff, latin1, ← String.toList_inj,
    String.toList_ofList]

/-- Bytes without their terminator: either one was there, or the last byte is none. -/
theorem dropTerminator_eq_iff
    (raw : List UInt8)
    (characters : List UInt8) :
    characters = dropTerminator raw ↔
      raw = characters ++ [0] ∨ raw = characters ∧ characters.getLast? ≠ some 0 := by
  rw [dropTerminator]
  split
  · next hlast =>
      have hsplit := List.dropLast_append_getLast? 0 hlast
      constructor
      · rintro rfl
        exact Or.inl hsplit.symm
      · rintro (rfl | ⟨rfl, hnone⟩)
        · simp
        · exact absurd hlast hnone
  · next hlast =>
      constructor
      · rintro rfl
        exact Or.inr ⟨rfl, hlast⟩
      · rintro (rfl | ⟨rfl, -⟩)
        · simp at hlast
        · rfl

variable (header : Header)

theorem accepts_readString :
    Accepts header.order bound (readString header) (StringBytes header) := by
  have hbytes (length : Nat) :
      Accepts header.order bound (latin1 <$> dropTerminator <$> bytes length) _ :=
    ((Accepts.bytes length).map dropTerminator).map latin1
  have hread :
      readString header =
        uint header.sizeWidth.toNat >>= fun length =>
          latin1 <$> dropTerminator <$> bytes length := by
    simp [readString]
  rw [hread]
  refine ((Accepts.uint header.sizeWidth.toNat).bind hbytes).congr ?_
  intro text encoded
  constructor
  · rintro ⟨_, length, raw, hlength, ⟨characters, htext, _, hraw, rfl, rfl⟩, rfl⟩
    rw [latin1_eq_iff] at htext
    rcases (dropTerminator_eq_iff _ _).1 hraw with rfl | ⟨rfl, hlast⟩
    · exact .terminated (by simpa using hlength) htext
    · exact .bare hlength htext hlast
  · intro h
    cases h with
    | @terminated length characters hlength htext =>
        refine ⟨_, length, characters ++ [0], hlength, ⟨characters, ?_, _, ?_, rfl, ?_⟩, rfl⟩
        · exact (latin1_eq_iff _ _).2 htext
        · exact (dropTerminator_eq_iff _ _).2 (Or.inl rfl)
        · simp
    | @bare length characters hlength htext hlast =>
        refine ⟨_, length, characters, hlength, ⟨characters, ?_, _, ?_, rfl, rfl⟩, rfl⟩
        · exact (latin1_eq_iff _ _).2 htext
        · exact (dropTerminator_eq_iff _ _).2 (Or.inr ⟨rfl, hlast⟩)

/-! ## Words and numbers -/

theorem accepts_instruction :
    Accepts header.order bound (Instruction.decode <$> word) (InstructionBytes header) := by
  have hword : word = UInt32.ofNat <$> uint 4 :=
    bind_pure_comp _ _
  rw [hword]
  refine (((Accepts.uint 4).map UInt32.ofNat).map Instruction.decode).congr ?_
  intro ins encoded
  constructor
  · rintro ⟨_, rfl, n, rfl, hn⟩
    have hvalue : (UInt32.ofNat n).toNat = n := UInt32.toNat_ofNat_of_lt' hn.1
    exact ⟨_, rfl, by rw [hvalue]; exact hn⟩
  · rintro ⟨w, rfl, hw⟩
    exact ⟨w, rfl, w.toNat, UInt32.ofNat_toNat.symm, hw⟩

theorem accepts_readNumber
    (hvalid : header.Valid) :
    Accepts header.order bound (readNumber header)
      (fun x encoded => ∃ bits,
        UnsignedBytes header.order header.numberWidth.toNat bits encoded ∧
          header.numberFormat.value bits = x.value) := by
  have hsingle : single = Double.ofSingleBits <$> uint 4 :=
    bind_pure_comp _ _
  have hdouble : double = Double.ofBits <$> uint 8 :=
    bind_pure_comp _ _
  rcases hvalid.number with hwidth | hwidth
  · rw [readNumber, Header.numberFormat, hwidth, if_pos rfl, if_pos rfl, hsingle]
    refine ((Accepts.uint 4).map Double.ofSingleBits).congr ?_
    intro x encoded
    constructor
    · rintro ⟨bits, rfl, hbits⟩
      exact ⟨bits, hbits, (Double.value_ofSingleBits bits).symm⟩
    · rintro ⟨bits, hbits, hvalue⟩
      rw [← Double.value_ofSingleBits] at hvalue
      exact ⟨bits, (Double.value_injective hvalue).symm, hbits⟩
  · rw [readNumber, Header.numberFormat, hwidth, if_neg (by decide), if_neg (by decide),
      hdouble]
    refine ((Accepts.uint 8).map Double.ofBits).congr ?_
    intro x encoded
    constructor
    · rintro ⟨bits, rfl, hbits⟩
      exact ⟨bits, hbits, (Double.value_ofBits bits).symm⟩
    · rintro ⟨bits, hbits, hvalue⟩
      rw [← Double.value_ofBits] at hvalue
      exact ⟨bits, (Double.value_injective hvalue).symm, hbits⟩

theorem accepts_readInt
    (hvalid : header.Valid) :
    Accepts header.order bound (readInt header) (IntBytes header) :=
  Accepts.int (UInt8.le_iff_toNat_le.1 hvalid.int.1) (UInt8.le_iff_toNat_le.1 hvalid.int.2)

/-- Counting from 0 stops at the least number. -/
theorem toInt_zeroBasedLine
    (stored : Int64) :
    (zeroBasedLine stored).toInt = max (stored.toInt - 1) (-2 ^ 63) := by
  have hleast := stored.le_toInt
  have hmost := stored.toInt_lt
  rw [zeroBasedLine]
  split
  · next h =>
      subst h
      decide
  · next h =>
      have hne : stored.toInt ≠ -2 ^ 63 := by
        rw [← Int64.toInt_minValue]
        exact fun heq => h (Int64.toInt_inj.1 heq)
      have hone : (1 : Int64).toInt = 1 := by decide
      rw [Int64.toInt_sub, hone, Int.bmod_eq_of_le (by omega) (by omega)]
      omega

theorem accepts_line
    (hvalid : header.Valid) :
    Accepts header.order bound (zeroBasedLine <$> readInt header) (LineBytes header) := by
  refine ((accepts_readInt header hvalid).map zeroBasedLine).congr ?_
  intro line encoded
  simp only [LineBytes, ← toInt_zeroBasedLine, Int64.toInt_inj]

/-! ## Constants -/

namespace Constant

theorem accepts_read
    (hvalid : header.Valid) :
    Accepts header.order bound (read header) (ConstantBytes header) := by
  refine Accepts.byte_bind (fun tag => Accepts.ite ?_ fun hnil => Accepts.ite ?_
    fun hbool => Accepts.ite ?_ fun hnum => Accepts.ite ?_ fun hstring => ?_) ?_
  · rintro rfl
    refine (Accepts.pure Constant.nil).congr ?_
    intro constant encoded
    constructor
    · rintro ⟨rfl, rfl⟩
      exact .nil
    · rintro ⟨⟩
      exact ⟨rfl, rfl⟩
  · rintro rfl
    rw [bind_pure_comp]
    refine (Accepts.byte.map fun mark => Constant.bool (decide (mark ≠ 0))).congr ?_
    intro constant encoded
    constructor
    · rintro ⟨mark, rfl, rfl⟩
      exact .bool (by simp)
    · rintro ⟨⟩
      next value mark hmark =>
        have hvalue : value = decide (mark ≠ 0) := by
          rw [Bool.eq_iff_iff, decide_eq_true_iff]
          exact hmark.symm
        exact ⟨mark, by rw [hvalue], rfl⟩
  · rintro rfl
    rw [bind_pure_comp]
    refine ((accepts_readNumber header hvalid).map Constant.number).congr ?_
    intro constant encoded
    constructor
    · rintro ⟨x, rfl, bits, hbits, hvalue⟩
      exact .number hbits hvalue
    · rintro ⟨⟩
      exact ⟨_, rfl, _, ‹_›, ‹_›⟩
  · rintro rfl
    rw [bind_pure_comp]
    refine ((accepts_readString header).map Constant.string).congr ?_
    intro constant encoded
    constructor
    · rintro ⟨text, rfl, htext⟩
      exact .string htext
    · rintro ⟨⟩
      exact ⟨_, rfl, ‹_›⟩
  · refine Accepts.throw fun constant encoded h => ?_
    cases h <;> contradiction
  · rintro constant ⟨⟩

end Constant

/-! ## Prototypes -/

theorem LocalVariable.accepts_read
    (hvalid : header.Valid) :
    Accepts header.order bound (read header) (LocalBytes header) := by
  refine ((accepts_readString header).bind fun name =>
    (accepts_readInt header hvalid).bind fun startPc =>
    (accepts_readInt header hvalid).bind fun endPc =>
    Accepts.pure _).congr ?_
  intro item encoded
  constructor
  · rintro ⟨name, _, _, hname, ⟨startPc, _, _, hstart, ⟨endPc, _, _, hend,
      ⟨rfl, rfl⟩, rfl⟩, rfl⟩, rfl⟩
    have h : LocalBytes header ⟨name, startPc, endPc⟩ _ := .mk hname hstart hend
    simpa using h
  · rintro ⟨hname, hstart, hend⟩
    exact ⟨_, _, _, hname, ⟨_, _, _, hstart, ⟨_, _, [], hend, ⟨rfl, rfl⟩, rfl⟩, rfl⟩,
      by simp⟩

theorem accepts_readSection
    {α : Type}
    {element : Reader α}
    {Encoding : α → List UInt8 → Prop}
    (h : Accepts header.order bound element Encoding)
    (least : Nat) :
    Accepts header.order bound (readSection header least element)
      (SectionBytes header Encoding) := by
  refine ((Accepts.uint header.intWidth.toNat).bind fun count =>
    Accepts.listOf h count least).congr ?_
  intro items encoded
  constructor
  · rintro ⟨_, count, encoded, hcount, ⟨rfl, hitems⟩, rfl⟩
    exact .mk hcount hitems
  · rintro ⟨hcount, hitems⟩
    exact ⟨_, _, _, hcount, ⟨rfl, hitems⟩, rfl⟩

/-- A string takes at least the bytes of its length, of which there is one. -/
theorem length_pos_of_stringBytes
    {text : String}
    {encoded : List UInt8}
    (hvalid : header.Valid)
    (h : StringBytes header text encoded) :
    0 < encoded.length := by
  have hwidth := hvalid.sizeWidth_pos
  have hlength {n : Nat} {length : List UInt8}
      (hn : UnsignedBytes header.order header.sizeWidth.toNat n length) :
      0 < length.length := by
    rw [hn.2, ByteOrder.length_bytes]
    exact hwidth
  cases h with
  | terminated hn _ =>
      have := hlength hn
      simp
  | bare hn _ _ =>
      have := hlength hn
      rw [List.length_append]
      omega

namespace Prototype

/-- Prototypes are read from the bytes of prototypes, if the bound covers what is unread. -/
theorem accepts_read
    (hvalid : header.Valid)
    (depth : Nat) :
    Accepts header.order depth (read header depth) (PrototypeBytes header) := by
  induction depth with
  | zero =>
      intro cursor _ hbound prototype next
      have hrest : cursor.rest = [] := List.eq_nil_of_length_eq_zero (Nat.le_zero.1 hbound)
      constructor
      · rintro ⟨⟩
      · rintro ⟨encoded, h, hprefix, -⟩
        rw [hrest, List.prefix_nil] at hprefix
        cases h with
        | node hsource =>
            have := length_pos_of_stringBytes header hvalid hsource
            simp_all
  | succ depth ih =>
      refine (Accepts.bind_of_length (accepts_readString header) ?_ fun sourceName _ _ =>
        (accepts_readInt header hvalid).bind fun lineDefined =>
        (accepts_readInt header hvalid).bind fun lastLineDefined =>
        Accepts.byte.bind fun upvalueCount =>
        Accepts.byte.bind fun parameterCount =>
        Accepts.byte.bind fun vararg =>
        Accepts.byte.bind fun maxStackSize =>
        (accepts_readSection header (accepts_instruction header) _).bind fun instructions =>
        (accepts_readSection header (Constant.accepts_read header hvalid) _).bind
          fun constants =>
        (accepts_readSection header ih _).bind fun children =>
        (accepts_readSection header (accepts_line header hvalid) _).bind fun lineInfo =>
        (accepts_readSection header (LocalVariable.accepts_read header hvalid) _).bind
          fun locals =>
        (accepts_readSection header (accepts_readString header) _).bind fun upvalueNames =>
        Accepts.pure _).congr ?_
      · intro text encoded h
        have := length_pos_of_stringBytes header hvalid h
        omega
      · intro prototype encoded
        constructor
        · rintro ⟨sourceName, source, _, hsource, ⟨lineDefined, first, _, hfirst,
            ⟨lastLineDefined, last, _, hlast, ⟨upvalueCount, _, _, rfl, htables, rfl⟩, rfl⟩,
            rfl⟩, rfl⟩
          obtain ⟨parameterCount, _, _, rfl, ⟨vararg, _, _, rfl, ⟨maxStackSize, _, _, rfl,
            ⟨instructions, code, _, hcode, ⟨constants, values, _, hvalues, htables, rfl⟩,
            rfl⟩, rfl⟩, rfl⟩, rfl⟩ := htables
          obtain ⟨children, _, _, ⟨hcount, hinner⟩, ⟨lineInfo, lines, _, hlines,
            ⟨locals, scopes, _, hscopes, ⟨upvalueNames, upvalues, _, hupvalues,
            ⟨rfl, rfl⟩, rfl⟩, rfl⟩, rfl⟩, rfl⟩ := htables
          have h : PrototypeBytes header (.node ⟨sourceName, lineDefined, lastLineDefined,
              upvalueCount, parameterCount, ⟨vararg⟩, maxStackSize, instructions, constants,
              lineInfo, locals, upvalueNames⟩ children) _ :=
            .node hsource hfirst hlast hcode hvalues hcount hinner hlines hscopes hupvalues
          simpa using h
        · rintro ⟨hsource, hfirst, hlast, hcode, hvalues, hcount, hinner, hlines, hscopes,
            hupvalues⟩
          refine ⟨_, _, _, hsource, ⟨_, _, _, hfirst, ⟨_, _, _, hlast, ⟨_, _, _, rfl,
            ⟨_, _, _, rfl, ⟨_, _, _, rfl, ⟨_, _, _, rfl, ⟨_, _, _, hcode, ⟨_, _, _, hvalues,
            ⟨_, _, _, .mk hcount hinner, ⟨_, _, _, hlines, ⟨_, _, _, hscopes,
            ⟨_, _, [], hupvalues, ⟨rfl, rfl⟩, rfl⟩, rfl⟩, rfl⟩, rfl⟩, rfl⟩, rfl⟩, rfl⟩, rfl⟩,
            rfl⟩, rfl⟩, rfl⟩, rfl⟩, ?_⟩
          simp

end Prototype

/-! ## Chunks -/

namespace Chunk

theorem valid_of_headerBytes
    {header : Header}
    {encoded : List UInt8}
    (h : HeaderBytes header encoded) :
    header.Valid := by
  cases h
  assumption

theorem read_main_eq_ok_iff
    {header : Header}
    (hvalid : header.Valid)
    (middle : Cursor)
    (main : Prototype)
    (next : Cursor) :
    (Prototype.read header middle.remaining : Reader Prototype) (behindHeader header middle) =
        .ok main next ↔
      ∃ body, PrototypeBytes header main body ∧ body <+: middle.rest ∧
        next = (behindHeader header middle).advance body.length :=
  Prototype.accepts_read header hvalid _ (behindHeader header middle) rfl (Nat.le_refl _)
    main next

/-- A chunk is read where its bytes lie ahead, and just these are taken. -/
theorem reader_eq_ok_iff
    (cursor : Cursor)
    (chunk : Chunk)
    (next : Cursor) :
    reader cursor = .ok chunk next ↔
      ∃ front body, chunk.Occupies front body ∧ front ++ body <+: cursor.rest ∧
        next = behindHeader chunk.header (cursor.advance (front ++ body).length) := by
  have hheader {middle : Cursor} :=
    Header.accepts_read cursor rfl (Nat.le_refl _) chunk.header middle
  constructor
  · intro h
    obtain ⟨header, middle, hfront, hmain⟩ := bind_eq_ok_iff.1 h
    rw [readMain_apply] at hmain
    obtain ⟨main, last, hmain, hchunk⟩ := bind_eq_ok_iff.1 hmain
    cases hchunk
    obtain ⟨front, hfrontBytes, ⟨others, hothers⟩, rfl⟩ := hheader.1 hfront
    obtain ⟨body, hbodyBytes, hbody, rfl⟩ :=
      (read_main_eq_ok_iff (valid_of_headerBytes hfrontBytes) _ _ _).1 hmain
    rw [Cursor.rest_advance, ← hothers, List.drop_left] at hbody
    refine ⟨front, body, ⟨hfrontBytes, hbodyBytes⟩, ?_, ?_⟩
    · rw [← hothers]
      exact (List.prefix_append_right_inj front).2 hbody
    · rw [advance_behindHeader, Cursor.advance_advance, List.length_append]
  · rintro ⟨front, body, ⟨hfrontBytes, hbodyBytes⟩, ⟨rest, hrest⟩, rfl⟩
    rw [List.append_assoc] at hrest
    have hfront := hheader.2 ⟨front, hfrontBytes, ⟨body ++ rest, hrest⟩, rfl⟩
    have hbody : body <+: (cursor.advance front.length).rest := by
      rw [Cursor.rest_advance, ← hrest, List.drop_left]
      exact ⟨rest, rfl⟩
    have hmain := (read_main_eq_ok_iff (valid_of_headerBytes hfrontBytes) _ _ _).2
      ⟨body, hbodyBytes, hbody, rfl⟩
    refine bind_eq_ok_iff.2 ⟨chunk.header, _, hfront, ?_⟩
    rw [readMain_apply]
    refine bind_eq_ok_iff.2 ⟨chunk.main, _, hmain, ?_⟩
    rw [advance_behindHeader, Cursor.advance_advance, List.length_append]
    rfl

/--
A byte string is read as a chunk if and only if it begins with bytes of that
chunk: those of its header, then those of its main prototype.  What follows is
arbitrary.
-/
theorem read_eq_ok_iff
    (bytes : List UInt8)
    (chunk : Chunk) :
    read bytes = .ok chunk ↔
      ∃ front body rest,
        bytes = front ++ body ++ rest ∧
        HeaderBytes chunk.header front ∧
        PrototypeBytes chunk.header chunk.main body := by
  rw [read_eq_ok_iff_reader]
  constructor
  · rintro ⟨next, h⟩
    obtain ⟨front, body, hbytes, ⟨rest, hrest⟩, -⟩ := (reader_eq_ok_iff _ _ _).1 h
    exact ⟨front, body, rest, hrest.symm, hbytes.header, hbytes.main⟩
  · rintro ⟨front, body, rest, rfl, hfront, hbody⟩
    exact ⟨_, (reader_eq_ok_iff _ _ _).2 ⟨front, body, ⟨hfront, hbody⟩, ⟨rest, rfl⟩, rfl⟩⟩

end Chunk
end LuaBytecode
