import LuaBytecode.Proofs.CheckedReading
import LuaBytecode.Proofs.PrototypeRecursion

/-!
# No check fails

A checked reader and a plain one mirror each other if they yield the same values
at corresponding places and refuse the same bytes for the same reason.  A fault
that is no refusal corresponds to nothing, so a checked reader that mirrors a
plain one never runs into it.

The checks that depend on the bytes are those of widths and lengths.  A width
has been checked with the header, and a number of at most eight bytes is an
address.  The depth of prototypes is bounded by the number of unread bytes, which
the name of a source lowers.

**Results.**
* `CheckedReader.Mirrors.bytes_bind`: a slice, and what is done with it.
* `CheckedReader.mirrors_readPrototype`, `CheckedReader.mirrors_readHeader`: the
  parts of a chunk.
* `Chunk.readChecked_eq`: whole byte strings.
-/

namespace LuaBytecode

open Reader (Outcome)

/-! ## Windows and cursors -/

namespace Window

variable (window : Window)

/-- The cursor at the position of a window. -/
def cursor : Cursor where
  position := window.position
  rest := window.buffer.drop window.position
  order := window.order

/-- The position lies in the byte string, or at its end. -/
def Inside : Prop :=
  window.position ≤ window.buffer.length

theorem remaining_cursor :
    window.cursor.remaining = window.remaining := by
  simp [cursor, Cursor.remaining, remaining]

/-- The window behind the next `count` bytes. -/
def advance
    (count : Nat) : Window :=
  { window with position := window.position + count }

theorem cursor_advance
    (count : Nat) :
    (window.advance count).cursor = window.cursor.advance count := by
  simp [advance, cursor, Cursor.advance, List.drop_drop]

end Window

/-- As many bytes are read as were asked for. -/
theorem Reader.length_of_bytes
    {count : Nat}
    {cursor next : Cursor}
    {raw : List UInt8}
    (h : Reader.bytes count cursor = .ok raw next) :
    raw.length = count := by
  rcases Nat.lt_or_ge cursor.remaining count with hshort | hfits
  · rw [Reader.bytes_of_lt count cursor hshort] at h
    cases h
  · rw [Reader.bytes_of_le count cursor hfits] at h
    cases h
    exact (Reader.length_take_eq_iff count cursor.rest).2 hfits

namespace CheckedReader

variable {α β : Type}

theorem bind_of_ok
    {window next : Window}
    {checked : CheckedReader α}
    {follow : α → CheckedReader β}
    {x : α}
    (h : checked window = .ok x next) :
    (checked >>= follow) window = follow x next := by
  simp only [bind, EStateM.bind, h]

theorem bind_of_error
    {window next : Window}
    {checked : CheckedReader α}
    {follow : α → CheckedReader β}
    {fault : Fault}
    (h : checked window = .error fault next) :
    (checked >>= follow) window = .error fault next := by
  simp only [bind, EStateM.bind, h]

/-! ## Mirroring -/

/--
Outcomes with the same value at the same place, before at most `most` unread
bytes, or with the same refusal.
-/
inductive Matches
    (most : Nat) :
    EStateM.Result Fault Window α → Outcome α → Prop
  | ok
      {x : α} {next : Window}
      (hinside : next.Inside)
      (hle : next.remaining ≤ most) :
      Matches most (.ok x next) (.ok x next.cursor)
  | refused
      {error : ReadError} {next : Window} {other : Cursor} :
      Matches most (.error (.refused error) next) (.error error other)

/-- Readers in sequence at one place. -/
theorem Matches.bind
    {most : Nat}
    {window : Window}
    {checked : CheckedReader α}
    {reader : Reader α}
    {follow : α → CheckedReader β}
    {following : α → Reader β}
    (h : Matches most (checked window) (reader window.cursor))
    (hfollow : ∀ (x : α) (next : Window), reader window.cursor = .ok x next.cursor →
      next.Inside → next.remaining ≤ most →
        Matches next.remaining (follow x next) (following x next.cursor)) :
    Matches most ((checked >>= follow) window) ((reader >>= following) window.cursor) := by
  generalize hchecked : checked window = outcome at h
  generalize hreader : reader window.cursor = other at h
  cases h with
  | @ok x next hinside hle =>
      rw [bind_of_ok hchecked, Reader.bind_of_ok hreader]
      have hsecond := hfollow x next hreader hinside hle
      generalize follow x next = last at hsecond
      generalize following x next.cursor = end' at hsecond
      cases hsecond with
      | ok hlast hless =>
          exact .ok hlast (hless.trans hle)
      | refused =>
          exact .refused
  | refused =>
      rw [bind_of_error hchecked, Reader.bind_of_error hreader]
      exact .refused

/-- A checked reader that does as a plain one does before fewer than `bound` unread bytes. -/
def Mirrors
    (bound : Nat)
    (checked : CheckedReader α)
    (reader : Reader α) : Prop :=
  ∀ window : Window, window.Inside → window.remaining < bound →
    Matches window.remaining (checked window) (reader window.cursor)

namespace Mirrors

variable {bound : Nat}

theorem pure
    (x : α) :
    Mirrors bound (pure x) (pure x) :=
  fun _ hinside _ => .ok hinside (Nat.le_refl _)

theorem refuse
    (error : ReadError) :
    Mirrors bound (throw (.refused error) : CheckedReader α) (throw error) :=
  fun _ _ _ => .refused

/-- Readers in sequence agree if the second ones do behind each result of the first. -/
theorem bind
    {checked : CheckedReader α}
    {reader : Reader α}
    {follow : α → CheckedReader β}
    {following : α → Reader β}
    (h : Mirrors bound checked reader)
    (hfollow : ∀ x, Mirrors bound (follow x) (following x)) :
    Mirrors bound (checked >>= follow) (reader >>= following) := by
  intro window hinside hbound
  refine (h window hinside hbound).bind fun x next _ hnext hle => ?_
  exact hfollow x next hnext (hle.trans_lt hbound)

theorem map
    {checked : CheckedReader α}
    {reader : Reader α}
    (f : α → β)
    (h : Mirrors bound checked reader) :
    Mirrors bound (f <$> checked) (f <$> reader) := by
  rw [← bind_pure_comp, ← bind_pure_comp]
  exact h.bind fun x => pure (f x)

/-! ## Slices and numbers -/

theorem bytes
    (count : Nat) :
    Mirrors bound (bytes count) (Reader.bytes count) := by
  intro window hinside _
  have hremaining := window.remaining_cursor
  have hget : (get : CheckedReader Window) window = .ok window window := rfl
  rcases Nat.lt_or_ge window.remaining count with hshort | hfits
  · have hchecked : CheckedReader.bytes count window =
        .error (.refused (.truncated window.position count window.remaining)) window := by
      rw [CheckedReader.bytes, bind_of_ok hget, if_pos hshort]
      rfl
    rw [hchecked, Reader.bytes_of_lt count window.cursor (hremaining.trans_lt hshort), hremaining]
    exact .refused
  · have hend : window.position + count ≤ window.buffer.length := by
      have hposition : window.position ≤ window.buffer.length := hinside
      rw [Window.remaining] at hfits
      omega
    have hslice : slice window.buffer window.position (window.position + count) window =
        .ok (window.cursor.rest.take count) window := by
      rw [slice, if_pos ⟨Nat.le_add_right _ _, hend⟩, List.drop_take, Nat.add_sub_cancel_left]
      rfl
    have hchecked : CheckedReader.bytes count window =
        .ok (window.cursor.rest.take count) (window.advance count) := by
      rw [CheckedReader.bytes, bind_of_ok hget, if_neg (Nat.not_lt.2 hfits), bind_of_ok hslice]
      rfl
    rw [hchecked, Reader.bytes_of_le count window.cursor (hfits.trans hremaining.ge),
      ← Window.cursor_advance]
    exact .ok hend (Nat.sub_le_sub_left (Nat.le_add_right _ _) _)

/-- The next bytes, and what is done with them, of which there are as many as were asked for. -/
theorem bytes_bind
    {count : Nat}
    {follow : List UInt8 → CheckedReader α}
    {following : List UInt8 → Reader α}
    (hfollow : ∀ raw, raw.length = count → Mirrors bound (follow raw) (following raw)) :
    Mirrors bound (CheckedReader.bytes count >>= follow) (Reader.bytes count >>= following) := by
  intro window hinside hbound
  refine (bytes count window hinside hbound).bind fun raw next hraw hnext hle => ?_
  exact hfollow raw (Reader.length_of_bytes hraw) next hnext (hle.trans_lt hbound)

theorem byte :
    Mirrors bound CheckedReader.byte Reader.byte := by
  rw [Reader.byte_eq]
  refine bytes_bind fun raw hlength => ?_
  obtain ⟨first, rfl⟩ := List.length_eq_one_iff.1 hlength
  exact pure first

/-- The order in force decides what bytes hold. -/
theorem value
    (raw : List UInt8) :
    Mirrors bound (do return (← get).order.value raw) (do return (← Reader.order).value raw) :=
  fun _ hinside _ => .ok hinside (Nat.le_refl _)

/-- A number of a width between one and eight is read with all checks passing. -/
theorem uint
    {width : Nat}
    (hwidth : 1 ≤ width ∧ width ≤ 8) :
    Mirrors bound (CheckedReader.uint width) (Reader.uint width) := by
  refine bytes_bind fun raw hlength => ?_
  rw [number, hlength, if_pos hwidth]
  exact value raw

theorem int
    {width : Nat}
    (hwidth : 1 ≤ width ∧ width ≤ 8) :
    Mirrors bound (CheckedReader.int width) (Reader.int width) :=
  (uint hwidth).bind fun _ => pure _

/-- A number of at most eight bytes is an address. -/
theorem size
    {width : Nat}
    (hwidth : 1 ≤ width ∧ width ≤ 8) :
    Mirrors bound (CheckedReader.size width) (Reader.uint width) := by
  have hsize : CheckedReader.size width = (do
      let raw ← CheckedReader.bytes width
      let length ← number raw
      if length < 2 ^ 64 then return length else throw (.lengthOverflow length)) :=
    bind_assoc _ _ _
  rw [hsize]
  refine bytes_bind fun raw hlength => ?_
  rw [number, hlength, if_pos hwidth]
  intro window hinside hbound
  have hvalue : window.order.value raw < 2 ^ 64 := by
    have hlt := window.order.value_lt raw
    have hpow : 256 ^ raw.length ≤ 256 ^ 8 := Nat.pow_le_pow_right (by decide) (by omega)
    exact hlt.trans_le hpow
  have hget : (do return (← get).order.value raw : CheckedReader Nat) window =
      .ok (window.order.value raw) window := rfl
  rw [bind_of_ok hget, if_pos hvalue]
  exact .ok hinside (Nat.le_refl _)

/-- A slice of all the bytes there are is in bounds. -/
theorem slice_all
    {count : Nat}
    {raw : List UInt8}
    (h : raw.length = count) :
    slice raw 0 count = (Pure.pure raw : CheckedReader (List UInt8)) := by
  rw [slice, if_pos ⟨Nat.zero_le _, h.ge⟩, List.drop_zero, List.take_of_length_le h.le]

/-- Bytes that were just taken are as many as a number of that width needs. -/
theorem fixedNumber
    (count : Nat) :
    Mirrors bound (do CheckedReader.fixedNumber count (← CheckedReader.bytes count))
      (Reader.uint count) := by
  refine bytes_bind fun raw hlength => ?_
  rw [CheckedReader.fixedNumber, slice_all hlength]
  exact value raw

theorem word :
    Mirrors bound CheckedReader.word Reader.word := by
  have h : Mirrors bound _ _ := (fixedNumber 4).bind fun n => pure (UInt32.ofNat n)
  rwa [bind_assoc] at h

theorem single :
    Mirrors bound CheckedReader.single Reader.single := by
  have h : Mirrors bound _ _ := (fixedNumber 4).bind fun n => pure (Double.ofSingleBits n)
  rwa [bind_assoc] at h

theorem double :
    Mirrors bound CheckedReader.double Reader.double := by
  have h : Mirrors bound _ _ := (fixedNumber 8).bind fun n => pure (Double.ofBits n)
  rwa [bind_assoc] at h

/-- Elements agree one by one. -/
theorem collect
    {element : CheckedReader α}
    {plain : Reader α}
    (h : Mirrors bound element plain)
    (count : Nat)
    (done : Array α) :
    Mirrors bound (CheckedReader.collect element count done) (Reader.collect plain count done) := by
  induction count generalizing done with
  | zero =>
      exact pure done
  | succ count ih =>
      exact h.bind fun x => ih (done.push x)

end Mirrors

/-! ## Headers -/

/-- An index below the length is in bounds. -/
theorem index_of_lt
    {raw : List UInt8}
    {place : Nat}
    (h : place < raw.length) :
    index raw place = pure (raw.getD place 0) := by
  have hsome : raw[place]? = some (raw.getD place 0) := by
    rw [List.getD_eq_getElem?_getD, List.getElem?_eq_getElem h, Option.getD_some]
  rw [index, hsome]

end CheckedReader

/-- The header with the given bytes behind its version, if its widths are allowed. -/
def Header.ofFields
    (version : UInt8)
    (rest : List UInt8) : Reader Header := do
  checkWidth .int integerWidths (rest.getD 2 0)
  checkWidth .size integerWidths (rest.getD 3 0)
  checkWidth .instruction [4] (rest.getD 4 0)
  checkWidth .number [4, 8] (rest.getD 5 0)
  return {
    version
    format := rest.getD 0 0
    order := if rest.getD 1 0 = 0 then .big else .little
    intWidth := rest.getD 2 0
    sizeWidth := rest.getD 3 0
    instructionWidth := rest.getD 4 0
    numberWidth := rest.getD 5 0
    integral := rest.getD 6 0 ≠ 0 }

/-- The seven bytes that are asked for together may as well be taken together. -/
theorem Header.readFields_eq
    (version : UInt8) :
    readFields version = (do ofFields version (← Reader.bytes 7)) := by
  funext cursor
  rcases Nat.lt_or_ge cursor.remaining 7 with hshort | hfits
  · have hlength : ¬ (cursor.rest.take 7).length = 7 := by
      rw [Reader.length_take_eq_iff]
      exact Nat.not_le.2 hshort
    have hrequire : Reader.require 7 cursor =
        .error (.truncated cursor.position 7 cursor.remaining) cursor := by
      simp only [Reader.require, hlength, if_false, Reader.short]
    rw [readFields, Reader.bind_of_error hrequire,
      Reader.bind_of_error (Reader.bytes_of_lt 7 cursor hshort)]
  · have hrequire : Reader.require 7 cursor = .ok () cursor := by
      have hlength := (Reader.length_take_eq_iff 7 cursor.rest).2 hfits
      simp only [Reader.require, hlength, if_true]
    have hbyte (place : Nat) (hplace : place < 7) :
        Reader.byte (cursor.advance place) =
          .ok ((cursor.rest.take 7).getD place 0) (cursor.advance (place + 1)) := by
      have hlt : place < cursor.rest.length := hplace.trans_le hfits
      have hrest : (cursor.advance place).rest =
          (cursor.rest.take 7).getD place 0 :: cursor.rest.drop (place + 1) := by
        rw [Cursor.rest_advance, List.drop_eq_getElem_cons hlt, List.getD_eq_getElem?_getD,
          List.getElem?_take_of_lt hplace, List.getElem?_eq_getElem hlt, Option.getD_some]
      rw [Reader.byte_of_cons hrest, Cursor.advance_advance]
    have hfirst : Reader.byte cursor =
        .ok ((cursor.rest.take 7).getD 0 0) (cursor.advance 1) :=
      hbyte 0 (by decide)
    rw [readFields, Reader.bind_of_ok hrequire, Reader.bind_of_ok hfirst,
      Reader.bind_of_ok (hbyte 1 (by decide)),
      Reader.bind_of_ok (hbyte 2 (by decide)),
      Reader.bind_of_ok (hbyte 3 (by decide)),
      Reader.bind_of_ok (hbyte 4 (by decide)),
      Reader.bind_of_ok (hbyte 5 (by decide)),
      Reader.bind_of_ok (hbyte 6 (by decide)),
      Reader.bind_of_ok (Reader.bytes_of_le 7 cursor hfits)]
    rfl

namespace CheckedReader

variable {bound : Nat}

theorem mirrors_checkWidth
    (field : WidthField)
    (allowed : List UInt8)
    (width : UInt8) :
    Mirrors bound (checkWidth field allowed width) (Header.checkWidth field allowed width) := by
  rw [checkWidth, Header.checkWidth]
  split
  · exact Mirrors.pure ()
  · exact Mirrors.refuse _

/-- The seven bytes behind the version are there once they were taken together. -/
theorem mirrors_fields
    (version : UInt8)
    {rest : List UInt8}
    (hlength : rest.length = 7) :
    Mirrors bound (fields version rest) (Header.ofFields version rest) := by
  have hindex (place : Nat) (hplace : place < 7) :
      index rest place = pure (rest.getD place 0) :=
    index_of_lt (hlength ▸ hplace)
  rw [fields, hindex 0 (by decide), hindex 1 (by decide),
    hindex 2 (by decide), hindex 3 (by decide),
    hindex 4 (by decide), hindex 5 (by decide),
    hindex 6 (by decide)]
  simp only [pure_bind]
  refine (mirrors_checkWidth _ _ _).bind fun _ => (mirrors_checkWidth _ _ _).bind fun _ => ?_
  refine (mirrors_checkWidth _ _ _).bind fun _ => (mirrors_checkWidth _ _ _).bind fun _ => ?_
  exact Mirrors.pure _

/-- A header is read with all checks passing. -/
theorem mirrors_readHeader :
    Mirrors bound readHeader Header.read := by
  refine Mirrors.bytes_bind fun found hfound => ?_
  split
  · refine Mirrors.byte.bind fun version => ?_
    split
    · rw [Header.readFields_eq]
      exact Mirrors.bytes_bind fun rest hrest => mirrors_fields version hrest
    · exact Mirrors.refuse _
  · rw [Mirrors.slice_all hfound, pure_bind]
    exact Mirrors.refuse _

/-! ## Prototypes -/

section Parts

variable {header : Header} (hvalid : header.Valid)
include hvalid

/-- A length fits in a word of the machine, and its bytes are taken together. -/
theorem mirrors_readString :
    Mirrors bound (readString header) (LuaBytecode.readString header) :=
  (Mirrors.size hvalid.sizeWidth_bounds).bind fun length =>
    (Mirrors.bytes length).bind fun _ => Mirrors.pure _

theorem mirrors_readInt :
    Mirrors bound (readInt header) (LuaBytecode.readInt header) :=
  Mirrors.int hvalid.intWidth_bounds

theorem mirrors_readConstant :
    Mirrors bound (readConstant header) (Constant.read header) := by
  refine Mirrors.byte.bind fun tag => ?_
  split
  · exact Mirrors.pure _
  split
  · exact Mirrors.byte.bind fun _ => Mirrors.pure _
  split
  · rw [readNumber]
    split
    · exact Mirrors.single.bind fun _ => Mirrors.pure _
    · exact Mirrors.double.bind fun _ => Mirrors.pure _
  split
  · exact (mirrors_readString hvalid).bind fun _ => Mirrors.pure _
  · exact Mirrors.refuse _

theorem mirrors_readLocal :
    Mirrors bound (readLocal header) (LocalVariable.read header) :=
  (mirrors_readString hvalid).bind fun _ =>
    (mirrors_readInt hvalid).bind fun _ => (mirrors_readInt hvalid).bind fun _ => Mirrors.pure _

/-- A list agrees if its elements do, whatever room is set aside for it. -/
theorem mirrors_readSection
    {α : Type}
    {element : CheckedReader α}
    {plain : Reader α}
    (h : Mirrors bound element plain)
    (least : Nat) :
    Mirrors bound (readSection header element) (LuaBytecode.readSection header least plain) :=
  (Mirrors.size hvalid.intWidth_bounds).bind fun count =>
    (h.collect count #[]).bind fun _ => Mirrors.pure _

/-- What follows the source name agrees if inner prototypes do. -/
theorem mirrors_readBody
    {inner : CheckedReader Prototype}
    {plain : Reader Prototype}
    (hinner : Mirrors bound inner plain)
    (sourceName : String) :
    Mirrors bound (readBody header inner sourceName)
      (Prototype.readBody header (Section.read header plain) sourceName) := by
  have hint : Mirrors bound _ _ := mirrors_readInt hvalid
  have hstring : Mirrors bound _ _ := mirrors_readString hvalid
  refine hint.bind fun _ => hint.bind fun _ => Mirrors.byte.bind fun _ => ?_
  refine Mirrors.byte.bind fun _ => Mirrors.byte.bind fun _ => Mirrors.byte.bind fun _ => ?_
  refine (mirrors_readSection hvalid (Mirrors.word.map Instruction.decode) _).bind fun _ => ?_
  refine (mirrors_readSection hvalid (mirrors_readConstant hvalid) _).bind fun _ => ?_
  refine (mirrors_readSection hvalid hinner _).bind fun _ => ?_
  refine (mirrors_readSection hvalid (hint.map zeroBasedLine) _).bind fun _ => ?_
  refine (mirrors_readSection hvalid (mirrors_readLocal hvalid) _).bind fun _ => ?_
  exact (mirrors_readSection hvalid hstring _).bind fun _ => Mirrors.pure _

/-- More depth than there are unread bytes is never used up. -/
theorem mirrors_readPrototype
    (depth : Nat) :
    Mirrors depth (readPrototype header depth) (Prototype.reader header) := by
  induction depth with
  | zero =>
      exact fun window _ hbound => absurd hbound (Nat.not_lt_zero _)
  | succ depth ih =>
      rw [Prototype.reader_eq hvalid]
      intro window hinside hbound
      refine (mirrors_readString hvalid window hinside hbound).bind fun text next hrun hnext _ => ?_
      have hless := remaining_lt_of_readString hvalid hrun
      rw [Window.remaining_cursor, Window.remaining_cursor] at hless
      exact mirrors_readBody hvalid ih text next hnext (hless.trans_le (Nat.le_of_lt_succ hbound))

end Parts

/-! ## Chunks -/

/-- A chunk is read from any place in its bytes with all checks passing. -/
theorem matches_readChunk
    (window : Window)
    (hinside : window.Inside) :
    Matches window.remaining (readChunk window) (Chunk.reader window.cursor) := by
  have hheader := mirrors_readHeader window hinside (Nat.lt_succ_self _)
  refine hheader.bind fun header next hrun hnext _ => ?_
  obtain ⟨encoded, hencoded, -⟩ :=
    (Header.accepts_read window.cursor rfl (Nat.le_refl _) header next.cursor).1 hrun
  have hvalid := Chunk.valid_of_headerBytes hencoded
  let ordered : Window := { next with order := header.order }
  have hmain := mirrors_readPrototype hvalid (ordered.remaining + 1) ordered hnext
    (Nat.lt_succ_self _)
  have hchunk : Matches ordered.remaining
      ((do return { header, main := ← readPrototype header (ordered.remaining + 1) } :
        CheckedReader Chunk) ordered)
      ((do return { header, main := ← Prototype.reader header } : Reader Chunk) ordered.cursor) :=
    hmain.bind fun main last _ hlast _ => .ok hlast (Nat.le_refl _)
  have hsame : Chunk.readMain header next.cursor =
      (do return { header, main := ← Prototype.reader header } : Reader Chunk) ordered.cursor := by
    rw [Chunk.readMain_apply]
    rfl
  rw [hsame]
  exact hchunk

end CheckedReader

/-- A byte string is read with every access checked as it is without, and no check fails. -/
theorem Chunk.readChecked_eq
    (bytes : List UInt8) :
    readChecked bytes = (read bytes).mapError Fault.refused := by
  have h := CheckedReader.matches_readChunk (Window.ofBytes bytes) (Nat.zero_le _)
  have hstart : (Window.ofBytes bytes).cursor = Cursor.ofBytes bytes := rfl
  rw [hstart] at h
  rw [readChecked, read]
  generalize CheckedReader.readChunk (Window.ofBytes bytes) = outcome at h
  generalize reader (Cursor.ofBytes bytes) = plain at h
  cases h <;> rfl

end LuaBytecode
