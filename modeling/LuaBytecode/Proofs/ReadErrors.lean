import LuaBytecode.Proofs.CheckedAgreement

/-!
# Why a byte string is refused

The first twelve bytes decide about every refusal of a header: each part of it is
read as a whole and checked before the next part is asked for, so the error is
that of the first part that is missing or wrong, and nothing behind the header
matters.

Behind a valid header two errors are left.  That only these occur is a law of
readers, so it holds of prototypes however deep they lie.

**Results.**
* `Header.refusal?`: the error of a header, from the first bytes alone.
* `Reader.confined_law`: the errors of reading behind a header.
* `Chunk.read_errors`: the errors of byte strings, and that none of the checks
  inside the reader fails.
-/

namespace LuaBytecode

open Reader

/-! ## Headers -/

/-- The widths that a field may have. -/
def WidthField.allows :
    WidthField → UInt8 → Bool
  | .int, width => 1 ≤ width && width ≤ 8
  | .size, width => 1 ≤ width && width ≤ 8
  | .instruction, width => width == 4
  | .number, width => width == 4 || width == 8

namespace Header

/-- The widths that the bytes of a header declare, in the order of their fields. -/
def declaredWidths
    (bytes : List UInt8) : List (WidthField × UInt8) :=
  [(.int, bytes.getD 7 0), (.size, bytes.getD 8 0), (.instruction, bytes.getD 9 0),
    (.number, bytes.getD 10 0)]

/-- The first of the declared widths that its field may not have. -/
def badWidth?
    (bytes : List UInt8) : Option (WidthField × UInt8) :=
  (declaredWidths bytes).find? fun entry => !entry.1.allows entry.2

/-- The bytes begin as those of a chunk of the version that is read. -/
def Announced
    (bytes : List UInt8) : Prop :=
  bytes.take 5 = signature ++ [supportedVersion]

/-- Why bytes do not begin with a header, if they do not. -/
def refusal?
    (bytes : List UInt8) : Option ReadError :=
  if bytes.length < 4 then
    some (.truncated 0 4 bytes.length)
  else if bytes.take 4 ≠ signature then
    some (.invalidSignature (bytes.take 4))
  else
    match bytes[4]? with
    | none => some (.truncated 4 1 0)
    | some version =>
        if version ≠ supportedVersion then
          some (.unsupportedVersion version)
        else if bytes.length < 12 then
          some (.truncated 5 7 (bytes.length - 5))
        else
          (badWidth? bytes).map fun entry => .invalidWidth entry.1 entry.2

theorem announced_iff
    (bytes : List UInt8) :
    Announced bytes ↔ bytes.take 4 = signature ∧ bytes[4]? = some supportedVersion := by
  constructor
  · intro h
    have hfour : bytes.take 4 = (bytes.take 5).take 4 := by
      rw [List.take_take]
      rfl
    have hfifth : bytes[4]? = (bytes.take 5)[4]? :=
      (List.getElem?_take_of_lt (by decide)).symm
    rw [hfour, hfifth, h]
    exact ⟨rfl, rfl⟩
  · rintro ⟨hsignature, hversion⟩
    rw [Announced, List.take_add_one, hsignature, hversion]
    rfl

section Refusals

variable (bytes : List UInt8)

theorem refusal?_eq_invalidSignature_iff
    (found : List UInt8) :
    refusal? bytes = some (.invalidSignature found) ↔
      4 ≤ bytes.length ∧ found = bytes.take 4 ∧ found ≠ signature := by
  rw [refusal?]
  cases badWidth? bytes <;> grind

theorem refusal?_eq_unsupportedVersion_iff
    (version : UInt8) :
    refusal? bytes = some (.unsupportedVersion version) ↔
      bytes.take 4 = signature ∧ bytes[4]? = some version ∧ version ≠ supportedVersion := by
  rw [refusal?]
  cases badWidth? bytes <;> grind

theorem refusal?_eq_invalidWidth_iff
    (field : WidthField)
    (width : UInt8) :
    refusal? bytes = some (.invalidWidth field width) ↔
      Announced bytes ∧ 12 ≤ bytes.length ∧ badWidth? bytes = some (field, width) := by
  rw [announced_iff, refusal?]
  cases badWidth? bytes <;> grind

/-- Of two widths that are wrong the first is reported, here that of the integers. -/
example :
    refusal? [0x1B, 0x4C, 0x75, 0x61, 0x51, 0, 1, 9, 4, 4, 3, 0] =
      some (.invalidWidth .int 9) := by
  decide

theorem refusal?_of_lt_four
    {bytes : List UInt8}
    (h : bytes.length < 4) :
    refusal? bytes = some (.truncated 0 4 bytes.length) := by
  rw [refusal?, if_pos h]

/-- Behind signature and version seven bytes are needed, and then widths are checked. -/
theorem refusal?_of_announced
    {bytes : List UInt8}
    (h : Announced bytes) :
    refusal? bytes =
      if bytes.length < 12 then
        some (.truncated 5 7 (bytes.length - 5))
      else
        (badWidth? bytes).map fun entry => .invalidWidth entry.1 entry.2 := by
  obtain ⟨hsignature, hversion⟩ := (announced_iff bytes).1 h
  have hfive : 4 < bytes.length := (List.getElem?_eq_some_iff.1 hversion).1
  rw [refusal?, if_neg (by omega), if_neg (not_not.2 hsignature), hversion]
  rfl

end Refusals

/-- A check, and what follows it. -/
theorem checkWidth_bind
    {α : Type}
    {field : WidthField}
    {allowed : List UInt8}
    {width : UInt8}
    (hallowed : width ∈ allowed ↔ field.allows width = true)
    (follow : Reader α)
    (cursor : Cursor) :
    (do checkWidth field allowed width; follow : Reader α) cursor =
      if field.allows width then
        follow cursor
      else
        .error (.invalidWidth field width) cursor := by
  rw [checkWidth]
  by_cases h : width ∈ allowed
  · rw [if_pos h, if_pos (hallowed.1 h), pure_bind]
  · rw [if_neg h, if_neg (fun hallows => h (hallowed.2 hallows))]
    rfl

theorem mem_integerWidths_iff_allows
    (width : UInt8) :
    width ∈ integerWidths ↔ (1 ≤ width && width ≤ 8) = true := by
  rw [mem_integerWidths_iff, Bool.and_eq_true, decide_eq_true_iff, decide_eq_true_iff]

/-- The fields of a header are refused for the first width that is not allowed. -/
theorem ofFields_apply
    (version : UInt8)
    (bytes : List UInt8)
    (cursor : Cursor) :
    (badWidth? bytes = none ∧
      ∃ header, ofFields version ((bytes.drop 5).take 7) cursor = .ok header cursor) ∨
    ∃ field width, badWidth? bytes = some (field, width) ∧
      ofFields version ((bytes.drop 5).take 7) cursor =
        .error (.invalidWidth field width) cursor := by
  have hfield (place : Nat) (hplace : place < 7) :
      ((bytes.drop 5).take 7).getD place 0 = bytes.getD (5 + place) 0 := by
    rw [List.getD_eq_getElem?_getD, List.getD_eq_getElem?_getD, List.getElem?_take_of_lt hplace,
      List.getElem?_drop]
  have hword (width : UInt8) : width ∈ [(4 : UInt8)] ↔ WidthField.instruction.allows width = true := by
    simp [WidthField.allows]
  have hnumber (width : UInt8) :
      width ∈ [(4 : UInt8), 8] ↔ WidthField.number.allows width = true := by
    simp [WidthField.allows]
  rw [ofFields, hfield 2 (by decide), hfield 3 (by decide),
    hfield 4 (by decide), hfield 5 (by decide),
    checkWidth_bind (mem_integerWidths_iff_allows _),
    checkWidth_bind (mem_integerWidths_iff_allows _), checkWidth_bind (hword _),
    checkWidth_bind (hnumber _), badWidth?, declaredWidths]
  generalize bytes.getD 7 0 = intWidth
  generalize bytes.getD 8 0 = sizeWidth
  generalize bytes.getD 9 0 = wordWidth
  generalize bytes.getD 10 0 = numberWidth
  cases hint : WidthField.int.allows intWidth with
  | false =>
      exact Or.inr ⟨.int, intWidth, by simp [hint], rfl⟩
  | true =>
  cases hsize : WidthField.size.allows sizeWidth with
  | false =>
      exact Or.inr ⟨.size, sizeWidth, by simp [hint, hsize], rfl⟩
  | true =>
  cases hins : WidthField.instruction.allows wordWidth with
  | false =>
      exact Or.inr ⟨.instruction, wordWidth, by simp [hint, hsize, hins], rfl⟩
  | true =>
  cases hnum : WidthField.number.allows numberWidth with
  | false =>
      exact Or.inr ⟨.number, numberWidth, by simp [hint, hsize, hins, hnum], rfl⟩
  | true =>
      exact Or.inl ⟨by simp [hint, hsize, hins, hnum], _, rfl⟩

/-- The header of a byte string is refused as its first bytes say, or read. -/
theorem read_ofBytes
    (bytes : List UInt8) :
    (refusal? bytes = none ∧ ∃ header,
      read (Cursor.ofBytes bytes) = .ok header ((Cursor.ofBytes bytes).advance 12)) ∨
    ∃ error last, refusal? bytes = some error ∧
      read (Cursor.ofBytes bytes) = .error error last := by
  let start := Cursor.ofBytes bytes
  have hremaining : start.remaining = bytes.length := rfl
  rw [refusal?, read]
  rcases Nat.lt_or_ge bytes.length 4 with hshort | hfour
  · rw [if_pos hshort]
    exact Or.inr ⟨_, start, rfl, bind_of_error (bytes_of_lt 4 start hshort)⟩
  rw [if_neg (Nat.not_lt.2 hfour), bind_of_ok (bytes_of_le 4 start hfour)]
  have htaken : start.rest.take 4 = bytes.take 4 := rfl
  rw [htaken]
  by_cases hsignature : bytes.take 4 = signature
  swap
  · rw [if_pos hsignature, if_neg hsignature]
    exact Or.inr ⟨_, _, rfl, rfl⟩
  rw [if_neg (not_not.2 hsignature), if_pos hsignature]
  cases hfifth : bytes[4]? with
  | none =>
      have hend : bytes.length = 4 := by
        rw [List.getElem?_eq_none_iff] at hfifth
        omega
      have hnil : (start.advance 4).rest = [] := List.drop_of_length_le hend.le
      have hleft : (start.advance 4).remaining = 0 := by
        rw [Cursor.remaining, hnil]
        rfl
      have hmissing := byte_of_nil hnil
      rw [hleft] at hmissing
      exact Or.inr ⟨_, _, rfl, bind_of_error hmissing⟩
  | some version =>
      obtain ⟨hfive, hversion⟩ := List.getElem?_eq_some_iff.1 hfifth
      have hrest : (start.advance 4).rest = version :: bytes.drop 5 := by
        rw [← hversion]
        exact List.drop_eq_getElem_cons hfive
      rw [bind_of_ok (byte_of_cons hrest), Cursor.advance_advance]
      by_cases hsupported : version = supportedVersion
      swap
      · simp only [if_pos hsupported, if_neg hsupported]
        exact Or.inr ⟨_, _, rfl, rfl⟩
      simp only [if_neg (not_not.2 hsupported), if_pos hsupported]
      have hleft : (start.advance 5).remaining = bytes.length - 5 :=
        Cursor.remaining_advance _ _
      rw [readFields_eq]
      rcases Nat.lt_or_ge bytes.length 12 with hcut | htwelve
      · have hmissing := bytes_of_lt 7 (start.advance 5) (by omega)
        rw [hleft] at hmissing
        rw [if_pos hcut]
        exact Or.inr ⟨_, _, rfl, bind_of_error hmissing⟩
      · have hseven := bytes_of_le 7 (start.advance 5) (by omega)
        rw [if_neg (Nat.not_lt.2 htwelve), bind_of_ok hseven, Cursor.advance_advance]
        obtain ⟨hnone, header, hok⟩ | ⟨field, width, hsome, hrefused⟩ :=
          ofFields_apply version bytes (start.advance 12)
        · rw [hnone]
          exact Or.inl ⟨rfl, header, hok⟩
        · rw [hsome]
          exact Or.inr ⟨_, _, rfl, hrefused⟩

end Header

/-! ## Behind the header -/

/-- The errors that may occur where a header has been read. -/
def ReadError.InBody :
    ReadError → Prop
  | .truncated _ _ _ => True
  | .unknownConstantTag tag => tag ∉ constantTags
  | _ => False

/-- A reader with no other errors than those behind a header. -/
def Reader.Confined
    {α : Type}
    (reader : Reader α) : Prop :=
  ∀ (cursor : Cursor) (error : ReadError) (next : Cursor),
    reader cursor = .error error next → error.InBody

/-- Being confined is a law, of a reader and itself. -/
theorem Reader.confined_law :
    Law (fun _ reader reader' => reader = reader' ∧ Confined reader) where
  pure := fun x => by
    refine ⟨rfl, ?_⟩
    rintro cursor error next ⟨⟩
  unknownTag := fun htag => by
    refine ⟨rfl, ?_⟩
    rintro cursor _ _ ⟨⟩
    exact htag
  bytes := fun count => by
    refine ⟨rfl, fun cursor error next hrun => ?_⟩
    rcases Nat.lt_or_ge cursor.remaining count with hshort | hfits
    · rw [bytes_of_lt count cursor hshort] at hrun
      cases hrun
      trivial
    · rw [bytes_of_le count cursor hfits] at hrun
      cases hrun
  order := by
    refine ⟨rfl, ?_⟩
    rintro cursor error next ⟨⟩
  bind := by
    rintro _ _ reader _ follow follow' ⟨rfl, hreader⟩ hfollow
    refine ⟨congrArg _ (funext fun x => (hfollow x).1), fun cursor error last hrun => ?_⟩
    cases hfirst : reader cursor with
    | ok x next =>
        rw [bind_of_ok hfirst] at hrun
        exact (hfollow x).2 next error last hrun
    | error found next =>
        rw [bind_of_error hfirst] at hrun
        cases hrun
        exact hreader cursor error last hfirst

/-- Prototypes are refused for missing bytes and unknown tags only. -/
theorem Prototype.confined_read
    (header : Header)
    (depth : Nat) :
    Confined (Prototype.read header depth) := by
  induction depth with
  | zero =>
      rintro cursor _ _ ⟨⟩
      trivial
  | succ depth ih =>
      exact (confined_law.bind (confined_law.readString header)
        fun sourceName => confined_law.readBody header ⟨rfl, ih⟩ sourceName).2

namespace Chunk

theorem confined_readMain
    (header : Header) :
    Confined (readMain header) := by
  intro cursor error next hrun
  have hmain : Confined (do return { header, main := ← Prototype.read header cursor.remaining } :
      Reader Chunk) :=
    (confined_law.bind ⟨rfl, Prototype.confined_read header cursor.remaining⟩
      fun _ => confined_law.pure _).2
  rw [readMain_apply] at hrun
  exact hmain _ error next hrun

/-! ## Byte strings -/

/-- What a header is refused for is the error of the whole. -/
theorem read_of_refusal?
    {bytes : List UInt8}
    {error : ReadError}
    (h : Header.refusal? bytes = some error) :
    read bytes = .error error := by
  rw [read_eq_error_iff]
  obtain ⟨hnone, -⟩ | ⟨found, last, hfound, hrun⟩ := Header.read_ofBytes bytes
  · rw [hnone] at h
    cases h
  · rw [hfound] at h
    cases h
    exact ⟨last, bind_of_error hrun⟩

/-- An error behind a header is one of reading the main prototype. -/
theorem readMain_of_read
    {bytes : List UInt8}
    {error : ReadError}
    (hheader : Header.refusal? bytes = none)
    (h : read bytes = .error error) :
    ∃ header last,
      readMain header ((Cursor.ofBytes bytes).advance 12) = .error error last := by
  obtain ⟨last, hrun⟩ := (read_eq_error_iff bytes error).1 h
  obtain ⟨-, header, hread⟩ | ⟨found, _, hfound, -⟩ := Header.read_ofBytes bytes
  · rw [reader, bind_of_ok hread] at hrun
    exact ⟨header, last, hrun⟩
  · rw [hfound] at hheader
    cases hheader

theorem inBody_of_read
    {bytes : List UInt8}
    {error : ReadError}
    (hheader : Header.refusal? bytes = none)
    (h : read bytes = .error error) :
    error.InBody := by
  obtain ⟨header, last, hrun⟩ := readMain_of_read hheader h
  exact confined_readMain header _ error last hrun

/-- Bytes that are missing behind a header are missing behind its twelve. -/
theorem le_offset_of_read
    {bytes : List UInt8}
    {offset needed left : Nat}
    (hheader : Header.refusal? bytes = none)
    (h : read bytes = .error (.truncated offset needed left)) :
    12 ≤ offset := by
  obtain ⟨header, last, hrun⟩ := readMain_of_read hheader h
  have hforward := forward_readMain header ((Cursor.ofBytes bytes).advance 12)
  rw [hrun] at hforward
  exact (Nat.le_add_left 12 _).trans hforward

/-- An error that cannot occur behind the header is one of the header. -/
theorem read_eq_error_iff_refusal?
    {bytes : List UInt8}
    {error : ReadError}
    (hbody : ¬ error.InBody) :
    read bytes = .error error ↔ Header.refusal? bytes = some error := by
  refine ⟨fun h => ?_, read_of_refusal?⟩
  cases hrefusal : Header.refusal? bytes with
  | none =>
      exact absurd (inBody_of_read hrefusal h) hbody
  | some found =>
      rw [read_of_refusal? hrefusal] at h
      cases h
      rfl

/--
Why a byte string is no chunk.  The signature, the version and the widths are
refused by the first part that is wrong, in this order and whatever follows;
where the bytes end before a part, that part is what is missing.  Behind a valid
header bytes may be missing or a constant may have an unknown tag, and nothing
else is refused.  Reading with every index, slice, width and length checked comes
to the same, so that none of these checks ever fails.
-/
theorem read_errors
    (bytes : List UInt8) :
    (∀ found, read bytes = .error (.invalidSignature found) ↔
      4 ≤ bytes.length ∧ found = bytes.take 4 ∧ found ≠ Header.signature) ∧
    (∀ version, read bytes = .error (.unsupportedVersion version) ↔
      bytes.take 4 = Header.signature ∧ bytes[4]? = some version ∧
        version ≠ Header.supportedVersion) ∧
    (∀ field width, read bytes = .error (.invalidWidth field width) ↔
      Header.Announced bytes ∧ 12 ≤ bytes.length ∧
        Header.badWidth? bytes = some (field, width)) ∧
    (bytes.length < 4 → read bytes = .error (.truncated 0 4 bytes.length)) ∧
    (bytes = Header.signature → read bytes = .error (.truncated 4 1 0)) ∧
    (Header.Announced bytes → bytes.length < 12 →
      read bytes = .error (.truncated 5 7 (bytes.length - 5))) ∧
    (Header.Announced bytes → 12 ≤ bytes.length → Header.badWidth? bytes = none →
      ∀ error, read bytes = .error error →
        (∃ offset needed left, error = .truncated offset needed left ∧ 12 ≤ offset) ∨
        ∃ tag, error = .unknownConstantTag tag ∧ tag ∉ [0, 1, 3, 4]) ∧
    readChecked bytes = (read bytes).mapError Fault.refused := by
  refine ⟨fun found => ?_, fun version => ?_, fun field width => ?_, fun hshort => ?_,
    fun hsignature => ?_, fun hannounced hcut => ?_, fun hannounced hlong hwidths error h => ?_,
    readChecked_eq bytes⟩
  · exact Iff.trans (read_eq_error_iff_refusal? not_false)
      (Header.refusal?_eq_invalidSignature_iff bytes found)
  · exact Iff.trans (read_eq_error_iff_refusal? not_false)
      (Header.refusal?_eq_unsupportedVersion_iff bytes version)
  · exact Iff.trans (read_eq_error_iff_refusal? not_false)
      (Header.refusal?_eq_invalidWidth_iff bytes field width)
  · exact read_of_refusal? (Header.refusal?_of_lt_four hshort)
  · rw [hsignature]
    exact read_of_refusal? rfl
  · apply read_of_refusal?
    rw [Header.refusal?_of_announced hannounced, if_pos hcut]
  · have hheader : Header.refusal? bytes = none := by
      rw [Header.refusal?_of_announced hannounced, if_neg (Nat.not_lt.2 hlong), hwidths]
      rfl
    have hbody := inBody_of_read hheader h
    cases error with
    | truncated offset needed left =>
        exact Or.inl ⟨offset, needed, left, rfl, le_offset_of_read hheader h⟩
    | unknownConstantTag tag =>
        exact Or.inr ⟨tag, rfl, hbody⟩
    | _ =>
        exact hbody.elim

end Chunk
end LuaBytecode
