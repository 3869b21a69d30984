import LuaBytecode.Proofs.ChunkAcceptance
import LuaBytecode.Proofs.Extension

/-!
# Prefixes of chunks

The reader of chunks is run on a byte string and on a longer one.  A prototype is
read with a bound that is the number of unread bytes, so the two runs do not
recur on the same bound; both bounds are lowered by the same step.

**Results.**
* `Prototype.extends_read`, `Header.extends_read`, `Chunk.continues_reader`: the
  relation between the two runs.
* `Chunk.read_determined_by_prefix`: what is read or refused is so because of a
  first part of the bytes, and of a shorter part no more can be said than that
  bytes are missing.
* `Chunk.read_append_of_truncated`: the bytes that are reported as missing are
  those without which reading cannot go on.
-/

namespace LuaBytecode

open Reader

variable {header : Header}

/-! ## Prototypes -/

/-- A string whose length is cut off has its length missing. -/
theorem readString_of_lt
    {cursor : Cursor}
    (h : cursor.remaining < header.sizeWidth.toNat) :
    readString header cursor =
      .error (.truncated cursor.position header.sizeWidth.toNat cursor.remaining) cursor :=
  bind_of_error (uint_of_lt h)

/-- A string takes at least the bytes of its length. -/
theorem remaining_lt_of_readString
    {cursor next : Cursor}
    {text : String}
    (hvalid : header.Valid)
    (h : readString header cursor = .ok text next) :
    next.remaining < cursor.remaining := by
  have hwidth := hvalid.sizeWidth_pos
  rcases Nat.lt_or_ge cursor.remaining header.sizeWidth.toNat with hshort | hfits
  · rw [readString_of_lt hshort] at h
    cases h
  obtain ⟨length, middle, hlength, htext⟩ := bind_eq_ok_iff.1 h
  obtain ⟨raw, last, hraw, hlast⟩ := bind_eq_ok_iff.1 htext
  rw [uint_of_le hfits] at hlength
  have hmiddle : middle.remaining < cursor.remaining := by
    cases hlength
    rw [Cursor.remaining_advance]
    omega
  have hnext : last.remaining ≤ middle.remaining := by
    rcases Nat.lt_or_ge middle.remaining length with hmissing | henough
    · rw [bytes_of_lt length middle hmissing] at hraw
      cases hraw
    · rw [bytes_of_le length middle henough] at hraw
      cases hraw
      rw [Cursor.remaining_advance]
      exact Nat.sub_le _ _
  cases hlast
  exact hnext.trans_lt hmiddle

namespace Prototype

theorem forward_read
    (header : Header)
    (depth : Nat) :
    Forward (read header depth) := by
  induction depth with
  | zero =>
      exact fun cursor => Nat.le_refl cursor.position
  | succ depth ih =>
      exact (forward_law.bind (forward_law.readString header)
        fun sourceName => forward_law.readBody header ⟨rfl, ih⟩ sourceName).2

/--
A prototype before few unread bytes, and before these and some more.  The bound
for the depth only has to cover what is unread; the induction is on the smaller
of the two bounds, and the name of the source uses up at least one byte of it.
-/
theorem extends_read
    (hvalid : header.Valid)
    {depth deep : Nat}
    {tail : List UInt8}
    (hdeep : depth + tail.length ≤ deep) :
    Extends depth tail (read header depth) (read header deep) := by
  have hwidth := hvalid.sizeWidth_pos
  have hbody (longer : Nat) (text : String) :
      Forward (readBody header (Section.read header (read header longer)) text) :=
    (forward_law.readBody header ⟨rfl, forward_read header longer⟩ text).2
  induction depth generalizing deep with
  | zero =>
      refine ⟨fun cursor hbound => ?_, forward_read header deep⟩
      have hshort : cursor.remaining < header.sizeWidth.toNat := by omega
      have hmissing := readString_of_lt hshort
      cases deep with
      | zero =>
          have htail : tail = [] := List.eq_nil_of_length_eq_zero (by omega)
          subst htail
          have hgap : Gap cursor cursor.position header.sizeWidth.toNat cursor.remaining :=
            ⟨Nat.le_refl _, rfl, hshort⟩
          have hextend : cursor.extend [] = cursor := by
            simp [Cursor.extend]
          rw [hextend]
          exact .short hgap hshort
      | succ deep =>
          have hsource := ((extends_law 0 tail).readString header).continues cursor hbound
          have hnever {body : String → Reader Prototype} (text : String) (next : Cursor)
              (hok : readString header cursor = .ok text next) (_ : cursor.Reaches next) :
              Continues next tail (body text next) (body text (next.extend tail)) := by
            rw [hmissing] at hok
            cases hok
          have hrun := hsource.bind hnever (hbody deep)
          rw [bind_of_error hmissing] at hrun
          exact hrun
  | succ depth ih =>
      cases deep with
      | zero =>
          omega
      | succ deep =>
          have hinner := ih (show depth + tail.length ≤ deep by omega)
          refine ⟨fun cursor hbound => ?_, forward_read header _⟩
          have hsource := ((extends_law (depth + 1) tail).readString header).continues cursor hbound
          refine hsource.bind (fun text next hok _ => ?_) (hbody deep)
          have hless := remaining_lt_of_readString hvalid hok
          exact ((extends_law depth tail).readBody header hinner text).continues next (by omega)

end Prototype

/-! ## Headers -/

variable {α : Type} {bound : Nat} {tail : List UInt8}

/-- A reader that continues, and takes the next `count` bytes if there are that many. -/
structure Reader.Takes
    (bound : Nat)
    (tail : List UInt8)
    (count : Nat)
    (reader : Reader α) : Prop where
  continued : Extends bound tail reader reader
  atLeast : ∀ cursor, count ≤ cursor.remaining →
    AtLeast (cursor.position + count) (reader cursor)

theorem Reader.Extends.takes
    {reader : Reader α}
    (h : Extends bound tail reader reader) :
    Takes bound tail 0 reader :=
  ⟨h, fun cursor _ => h.forward cursor⟩

/-- A byte comes before what is taken behind it. -/
theorem Reader.Takes.byte_bind
    {count : Nat}
    {follow : UInt8 → Reader α}
    (h : ∀ first, Takes bound tail count (follow first)) :
    Takes bound tail (count + 1) (byte >>= follow) := by
  have law := extends_law bound tail
  refine ⟨law.bind law.byte fun first => (h first).continued, fun cursor hcount => ?_⟩
  cases hrest : cursor.rest with
  | nil =>
      simp [Cursor.remaining, hrest] at hcount
  | cons first others =>
      have hleft : count ≤ (cursor.advance 1).remaining := by
        rw [Cursor.remaining_advance]
        omega
      have hmoved := (h first).atLeast (cursor.advance 1) hleft
      rw [bind_of_ok (byte_of_cons hrest)]
      rw [Cursor.position_advance, Nat.add_assoc, Nat.add_comm 1] at hmoved
      exact hmoved

/-- Bytes that are asked for together and taken later. -/
theorem Reader.Takes.require
    {count : Nat}
    {reader : Reader α}
    (h : Takes bound tail count reader) :
    Extends bound tail (do require count; reader) (do require count; reader) := by
  have hfits {cursor : Cursor} (hcount : count ≤ cursor.remaining) :
      (do Reader.require count; reader) cursor = reader cursor := by
    refine bind_of_ok (x := ()) ?_
    have hlength := (length_take_eq_iff count cursor.rest).2 hcount
    simp only [Reader.require, hlength, if_true]
  have hshort {cursor : Cursor} (hcount : cursor.remaining < count) :
      (do Reader.require count; reader) cursor =
        .error (.truncated cursor.position count cursor.remaining) cursor := by
    refine bind_of_error ?_
    have hlength : ¬ (cursor.rest.take count).length = count :=
      fun hlength => Nat.not_le.2 hcount ((length_take_eq_iff count cursor.rest).1 hlength)
    simp only [Reader.require, hlength, if_false, short]
  refine ⟨fun cursor hbound => ?_, fun cursor => ?_⟩
  · have htotal := cursor.remaining_extend tail
    rcases Nat.lt_or_ge cursor.remaining count with hmissing | henough
    · have hgap : Gap cursor cursor.position count cursor.remaining :=
        ⟨Nat.le_refl _, rfl, hmissing⟩
      rw [hshort hmissing]
      rcases Nat.lt_or_ge (cursor.remaining + tail.length) count with hstill | hnow
      · rw [hshort (by omega), Cursor.position_extend, htotal]
        exact .short hgap hstill
      · rw [hfits (by omega)]
        exact .resumed hgap hnow (h.atLeast (cursor.extend tail) (by omega))
    · rw [hfits henough, hfits (by omega)]
      exact h.continued.continues cursor hbound
  · rcases Nat.lt_or_ge cursor.remaining count with hmissing | henough
    · rw [hshort hmissing]
      exact Nat.le_refl _
    · rw [hfits henough]
      exact h.continued.forward cursor

theorem Reader.extends_throw
    {error : ReadError}
    (hfinal : error.isTruncated = false) :
    Extends bound tail (throw error : Reader α) (throw error) := by
  refine ⟨fun cursor _ => .refused hfinal, fun cursor => ?_⟩
  cases error with
  | truncated offset needed left =>
      cases hfinal
  | _ =>
      trivial

namespace Header

/-- A width is checked without looking at the bytes. -/
theorem extends_checkWidth
    (field : WidthField)
    (allowed : List UInt8)
    (width : UInt8) :
    Extends bound tail (checkWidth field allowed width) (checkWidth field allowed width) := by
  rw [checkWidth]
  split
  · exact (extends_law bound tail).pure ()
  · exact extends_throw rfl

theorem extends_readFields
    (version : UInt8) :
    Extends bound tail (readFields version) (readFields version) := by
  have law := extends_law bound tail
  refine Takes.require ?_
  refine Takes.byte_bind fun format => Takes.byte_bind fun orderMark => ?_
  refine Takes.byte_bind fun intWidth => Takes.byte_bind fun sizeWidth => ?_
  refine Takes.byte_bind fun instructionWidth => Takes.byte_bind fun numberWidth => ?_
  refine Takes.byte_bind fun integralMark => Extends.takes ?_
  refine law.bind (extends_checkWidth _ _ _) fun _ => ?_
  refine law.bind (extends_checkWidth _ _ _) fun _ => ?_
  refine law.bind (extends_checkWidth _ _ _) fun _ => ?_
  exact law.bind (extends_checkWidth _ _ _) fun _ => law.pure _

theorem extends_read :
    Extends bound tail read read := by
  have law := extends_law bound tail
  refine law.bind (law.bytes 4) fun found => ?_
  split
  · refine law.bind law.byte fun version => ?_
    split
    · exact extends_readFields version
    · exact extends_throw rfl
  · exact extends_throw rfl

end Header

/-! ## Chunks -/

namespace Chunk

theorem forward_readMain
    (header : Header) :
    Forward (readMain header) := by
  intro cursor
  have hmain := Prototype.forward_read header cursor.remaining (behindHeader header cursor)
  rw [readMain_apply]
  exact hmain.bind fun main => forward_law.pure _ |>.2

/-- The main prototype is read with as deep a bound as there are unread bytes. -/
theorem continues_readMain
    (hvalid : header.Valid)
    (cursor : Cursor)
    (tail : List UInt8) :
    Continues cursor tail (readMain header cursor)
      (readMain header (cursor.extend tail)) := by
  have hreach : cursor.Reaches (behindHeader header cursor) := ⟨Nat.le_refl _, rfl⟩
  have hdeep : cursor.remaining + tail.length ≤ (cursor.extend tail).remaining := by
    rw [Cursor.remaining_extend]
  have hmain := (Prototype.extends_read hvalid hdeep).continues (behindHeader header cursor)
    (Nat.le_refl _)
  have hpure (main : Prototype) := (extends_law cursor.remaining tail).pure
    ({ header, main } : Chunk)
  rw [readMain_apply, readMain_apply]
  refine Continues.of_reaches hreach (hmain.bind (fun main next _ hnext => ?_) ?_)
  · refine (hpure main).continues next ?_
    have hposition := hnext.position_le
    have htotal := hnext.total_eq
    have hsame : (behindHeader header cursor).remaining = cursor.remaining := rfl
    omega
  · exact fun main => (hpure main).forward

/-- Reading goes on where more bytes follow as it does for each part of a chunk. -/
theorem continues_reader
    (cursor : Cursor)
    (tail : List UInt8) :
    Continues cursor tail (reader cursor) (reader (cursor.extend tail)) := by
  have hextends : Extends cursor.remaining tail Header.read Header.read := Header.extends_read
  have hheader := hextends.continues cursor (Nat.le_refl _)
  refine hheader.bind (fun header next hok _ => ?_) forward_readMain
  obtain ⟨encoded, hencoded, -⟩ :=
    (Header.accepts_read cursor rfl (Nat.le_refl _) header next).1 hok
  exact continues_readMain (valid_of_headerBytes hencoded) next tail

/-! ## Byte strings -/

/-- Reading stops for want of bytes. -/
def incomplete
    (bytes : List UInt8) : Bool :=
  match read bytes with
  | .ok _ => false
  | .error error => error.isTruncated

/-- A byte string is incomplete if reading it reports that bytes are missing. -/
theorem incomplete_iff
    (bytes : List UInt8) :
    incomplete bytes = true ↔
      ∃ offset needed left, read bytes = .error (.truncated offset needed left) := by
  rw [incomplete]
  cases read bytes with
  | ok chunk =>
      simp
  | error error =>
      cases error <;> simp [ReadError.isTruncated]

/-- What is not incomplete is read alike with more bytes behind it. -/
theorem read_append
    {bytes : List UInt8}
    (h : incomplete bytes = false)
    (tail : List UInt8) :
    read (bytes ++ tail) = read bytes := by
  have hcontinues := continues_reader (Cursor.ofBytes bytes) tail
  have hlonger : (Cursor.ofBytes bytes).extend tail = Cursor.ofBytes (bytes ++ tail) := rfl
  rw [hlonger] at hcontinues
  rw [incomplete] at h
  simp only [read] at h ⊢
  generalize reader (Cursor.ofBytes bytes) = outcome at h hcontinues ⊢
  generalize reader (Cursor.ofBytes (bytes ++ tail)) = longer at hcontinues ⊢
  cases hcontinues with
  | ok hreach =>
      rfl
  | refused hfinal =>
      rfl
  | short hgap htail =>
      cases h
  | resumed hgap htail hpast =>
      cases h

/-- What is missing is missing at the end of the bytes. -/
theorem gap_of_read_eq_truncated
    {bytes : List UInt8}
    {offset needed left : Nat}
    (h : read bytes = .error (.truncated offset needed left)) :
    offset + left = bytes.length ∧ left < needed := by
  obtain ⟨next, hrun⟩ := (read_eq_error_iff _ _).1 h
  have hcontinues := continues_reader (Cursor.ofBytes bytes) []
  rw [hrun] at hcontinues
  have hgap : Gap (Cursor.ofBytes bytes) offset needed left := by
    generalize reader ((Cursor.ofBytes bytes).extend []) = longer at hcontinues
    cases hcontinues with
    | refused hfinal =>
        cases hfinal
    | short hgap htail =>
        exact hgap
    | resumed hgap htail hpast =>
        exact hgap
  have htotal : offset + left = 0 + bytes.length := hgap.total_eq
  exact ⟨by omega, hgap.left_lt⟩

/-- The bytes of a chunk are read as that chunk. -/
theorem read_of_occupies
    {chunk : Chunk}
    {front body : List UInt8}
    (h : chunk.Occupies front body) :
    read (front ++ body) = .ok chunk :=
  (read_eq_ok_iff_reader _ _).2 ⟨_, (reader_eq_ok_iff _ _ _).2
    ⟨front, body, h, List.prefix_rfl, rfl⟩⟩

/-- What is not incomplete is read like every longer byte string. -/
theorem read_eq_of_take_eq
    {bytes other : List UInt8}
    {count : Nat}
    (h : incomplete (bytes.take count) = false)
    (hother : other.take count = bytes.take count) :
    read other = read (bytes.take count) := by
  have hsplit := other.take_append_drop count
  rw [hother] at hsplit
  rw [← hsplit]
  exact read_append h _

/--
A byte string that is read or refused for another reason than that bytes are
missing is so because of its first `count` bytes.  These and any others behind
them give the same result, fewer of them are known to be too few, and if they
are a chunk they are all of its bytes.
-/
theorem read_determined_by_prefix
    (bytes : List UInt8)
    (h : ∀ offset needed left, read bytes ≠ .error (.truncated offset needed left)) :
    ∃ count ≤ bytes.length,
      (∀ other, other.take count = bytes.take count → read other = read bytes) ∧
      (∀ cut < count, ∃ offset needed left,
        read (bytes.take cut) = .error (.truncated offset needed left) ∧
        offset + left = cut ∧ left < needed) ∧
      ∀ chunk, read bytes = .ok chunk →
        ∃ front body, chunk.Occupies front body ∧ bytes.take count = front ++ body := by
  have hwhole : incomplete (bytes.take bytes.length) = false := by
    rw [List.take_length, Bool.eq_false_iff, Ne, incomplete_iff]
    rintro ⟨offset, needed, left, hmissing⟩
    exact h offset needed left hmissing
  have henough : ∃ count, incomplete (bytes.take count) = false := ⟨_, hwhole⟩
  let count := Nat.find henough
  have hcount : incomplete (bytes.take count) = false := Nat.find_spec henough
  have hbound : count ≤ bytes.length := Nat.find_min' henough hwhole
  have hread : read bytes = read (bytes.take count) := read_eq_of_take_eq hcount rfl
  refine ⟨count, hbound, fun other hother => ?_, fun cut hcut => ?_, fun chunk hchunk => ?_⟩
  · rw [read_eq_of_take_eq hcount hother, hread]
  · have hmissing : incomplete (bytes.take cut) = true := by
      simpa using Nat.find_min henough hcut
    obtain ⟨offset, needed, left, hcutread⟩ := (incomplete_iff _).1 hmissing
    obtain ⟨htotal, hleft⟩ := gap_of_read_eq_truncated hcutread
    have hlength : (bytes.take cut).length = cut :=
      (length_take_eq_iff cut bytes).2 (hcut.le.trans hbound)
    exact ⟨offset, needed, left, hcutread, htotal.trans hlength, hleft⟩
  · rw [hread, read_eq_ok_iff_reader] at hchunk
    obtain ⟨next, hrun⟩ := hchunk
    obtain ⟨front, body, hbytes, hbegins, -⟩ := (reader_eq_ok_iff _ _ _).1 hrun
    have hself : bytes.take (front ++ body).length = front ++ body :=
      (List.prefix_iff_eq_take.1 (hbegins.trans (List.take_prefix _ _))).symm
    have hown : incomplete (bytes.take (front ++ body).length) = false := by
      rw [hself, incomplete, read_of_occupies hbytes]
    have hleast : count ≤ (front ++ body).length := Nat.find_min' henough hown
    have hlength : (bytes.take count).length ≤ (front ++ body).length :=
      (List.length_take_le _ _).trans hleast
    exact ⟨front, body, hbytes, (hbegins.eq_of_length_le hlength).symm⟩

/-- A chunk with a last byte that is not its own. -/
def exampleBytes : List UInt8 :=
  [0x1b, 0x4c, 0x75, 0x61, 0x51, 0, 1, 1, 1, 4, 8, 0, 0, 0, 0, 0, 0, 0, 0, 0, 0, 0, 0, 0, 0, 7]

theorem exampleBytes_determined_by_prefix :
    (∀ offset needed left, read exampleBytes ≠ .error (.truncated offset needed left)) ∧
    ∃ count ≤ 26,
      (∀ other, other.take count = exampleBytes.take count → read other = read exampleBytes) ∧
      (∀ cut < count, ∃ offset needed left,
        read (exampleBytes.take cut) = .error (.truncated offset needed left) ∧
        offset + left = cut ∧ left < needed) ∧
      ∀ chunk, read exampleBytes = .ok chunk →
        ∃ front body, chunk.Occupies front body ∧ exampleBytes.take count = front ++ body := by
  have hread : ∀ offset needed left,
      read exampleBytes ≠ .error (.truncated offset needed left) := by
    intro offset needed left hmissing
    have hcomplete : incomplete exampleBytes = false := by
      decide
    rw [incomplete, hmissing] at hcomplete
    cases hcomplete
  exact ⟨hread, read_determined_by_prefix exampleBytes hread⟩

/-! ## Missing bytes -/

/--
What is missing when reading stops for want of bytes: `needed` bytes from
`offset` on, where `left` remain up to the end.  Fewer further bytes than are
missing lower what is missing by their number and change nothing else.  With as
many as are missing, the read that was short is past: what is still missing is
missing behind it.
-/
theorem read_append_of_truncated
    (bytes : List UInt8)
    (offset needed left : Nat)
    (h : read bytes = .error (.truncated offset needed left)) :
    offset + left = bytes.length ∧ left < needed ∧
      (∀ tail : List UInt8, tail.length < needed - left →
        read (bytes ++ tail) = .error (.truncated offset needed (left + tail.length))) ∧
      ∀ tail : List UInt8, needed - left ≤ tail.length →
        ∀ offset' needed' left',
          read (bytes ++ tail) = .error (.truncated offset' needed' left') →
            offset + needed ≤ offset' := by
  obtain ⟨next, hrun⟩ := (read_eq_error_iff _ _).1 h
  have hlonger (tail : List UInt8) :
      Continues (Cursor.ofBytes bytes) tail (.error (.truncated offset needed left) next)
        (reader (Cursor.ofBytes (bytes ++ tail))) := by
    rw [← hrun]
    exact continues_reader (Cursor.ofBytes bytes) tail
  obtain ⟨htotal, hleft⟩ := gap_of_read_eq_truncated h
  refine ⟨htotal, hleft, fun tail hfew => ?_, fun tail henough offset' needed' left' hmissing => ?_⟩
  · obtain ⟨next', hshort⟩ := (hlonger tail).short_of_lt (by omega)
    exact (read_eq_error_iff _ _).2 ⟨next', hshort⟩
  · obtain ⟨next', hrun'⟩ := (read_eq_error_iff _ _).1 hmissing
    have hpast := (hlonger tail).past_of_le (by omega)
    rw [hrun'] at hpast
    exact hpast

/-- A header and the length of a source name, of which one character is there. -/
def exampleCut : List UInt8 :=
  [0x1b, 0x4c, 0x75, 0x61, 0x51, 0, 1, 1, 1, 4, 8, 0, 5, 0x40]

theorem exampleCut_missing :
    read exampleCut = .error (.truncated 13 5 1) ∧
      13 + 1 = exampleCut.length ∧ 1 < 5 ∧
      (∀ tail : List UInt8, tail.length < 5 - 1 →
        read (exampleCut ++ tail) = .error (.truncated 13 5 (1 + tail.length))) ∧
      ∀ tail : List UInt8, 5 - 1 ≤ tail.length →
        ∀ offset' needed' left',
          read (exampleCut ++ tail) = .error (.truncated offset' needed' left') →
            13 + 5 ≤ offset' := by
  have hread : read exampleCut = .error (.truncated 13 5 1) := by
    rfl
  exact ⟨hread, read_append_of_truncated exampleCut 13 5 1 hread⟩

end Chunk
end LuaBytecode
