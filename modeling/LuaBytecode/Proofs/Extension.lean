import LuaBytecode.Proofs.ReaderLaws

/-!
# Reading a longer byte string

A reader is run at a cursor and once more where further bytes follow.  A value
and every error but one stay what they were.  Only where bytes were missing may
the longer run go on; and if the further bytes are still too few it stops at the
same place, with that many fewer missing.

**Results.**
* `Reader.forward_law`: no reader ends before the place where it began.
* `Reader.Continues.short_of_lt`, `Reader.Continues.past_of_le`: the longer run where the shorter
  one misses bytes.
* `Reader.extends_law`: the relation between the two runs is a law of readers.
-/

namespace LuaBytecode

/-- The error that more bytes may mend. -/
def ReadError.isTruncated :
    ReadError → Bool
  | .truncated _ _ _ => true
  | _ => false

/-! ## Cursors -/

namespace Cursor

/-- The same place with further bytes behind those that are unread. -/
def extend
    (cursor : Cursor)
    (tail : List UInt8) : Cursor :=
  { cursor with rest := cursor.rest ++ tail }

@[simp] theorem position_extend
    (cursor : Cursor)
    (tail : List UInt8) :
    (cursor.extend tail).position = cursor.position := rfl

@[simp] theorem rest_extend
    (cursor : Cursor)
    (tail : List UInt8) :
    (cursor.extend tail).rest = cursor.rest ++ tail := rfl

@[simp] theorem remaining_extend
    (cursor : Cursor)
    (tail : List UInt8) :
    (cursor.extend tail).remaining = cursor.remaining + tail.length := by
  simp [remaining]

/-- Bytes behind do not matter to a step within the bytes before them. -/
theorem advance_extend
    {cursor : Cursor}
    {count : Nat}
    (tail : List UInt8)
    (h : count ≤ cursor.remaining) :
    (cursor.extend tail).advance count = (cursor.advance count).extend tail := by
  simp only [advance, extend, List.drop_append_of_le_length h]

/-- A cursor that is reached from another one by reading. -/
structure Reaches
    (start : Cursor)
    (next : Cursor) : Prop where
  position_le : start.position ≤ next.position
  total_eq : next.position + next.remaining = start.position + start.remaining

theorem Reaches.advance
    {cursor : Cursor}
    {count : Nat}
    (h : count ≤ cursor.remaining) :
    cursor.Reaches (cursor.advance count) := by
  constructor
  · simp
  · simp only [position_advance, remaining_advance]
    omega

end Cursor

namespace Reader

variable {α β : Type}

/-- What becomes of a reader at a cursor. -/
abbrev Outcome (α : Type) := EStateM.Result ReadError Cursor α

/-! ## Readers do not go back -/

/-- A run that ends, or misses bytes, no earlier than at `place`. -/
def AtLeast
    (place : Nat) :
    Outcome α → Prop
  | .ok _ next => place ≤ next.position
  | .error (.truncated offset _ _) _ => place ≤ offset
  | .error _ _ => True

theorem AtLeast.mono
    {first second : Nat}
    {outcome : Outcome α}
    (h : AtLeast second outcome)
    (hle : first ≤ second) :
    AtLeast first outcome := by
  cases outcome with
  | ok x next =>
      exact hle.trans h
  | error error next =>
      cases error with
      | truncated offset needed left =>
          exact hle.trans h
      | _ =>
          trivial

/-- A reader that never ends before the place where it began. -/
def Forward
    (reader : Reader α) : Prop :=
  ∀ cursor, AtLeast cursor.position (reader cursor)

/-- A sequence ends no earlier than its first part, if the second one does not go back. -/
theorem AtLeast.bind
    {place : Nat}
    {cursor : Cursor}
    {reader : Reader α}
    {follow : α → Reader β}
    (h : AtLeast place (reader cursor))
    (hfollow : ∀ x, Forward (follow x)) :
    AtLeast place ((reader >>= follow) cursor) := by
  cases hrun : reader cursor with
  | ok x next =>
      rw [hrun] at h
      rw [bind_of_ok hrun]
      exact (hfollow x next).mono h
  | error error next =>
      rw [hrun] at h
      rw [bind_of_error hrun]
      cases error <;> exact h

/-- A read goes forward, or stays where it is and reports what is missing. -/
theorem forward_bytes
    (count : Nat) :
    Forward (bytes count) := by
  intro cursor
  rcases Nat.lt_or_ge cursor.remaining count with hshort | hfits
  · rw [bytes_of_lt count cursor hshort]
    exact Nat.le_refl _
  · rw [bytes_of_le count cursor hfits]
    exact Nat.le_add_right _ _

/-- Not going back is a law, of a reader and itself. -/
theorem forward_law :
    Law (fun _ reader reader' => reader = reader' ∧ Forward reader) where
  pure := fun _ => ⟨rfl, fun cursor => Nat.le_refl cursor.position⟩
  unknownTag := fun _ => ⟨rfl, fun _ => trivial⟩
  bytes := fun count => ⟨rfl, forward_bytes count⟩
  order := ⟨rfl, fun cursor => Nat.le_refl cursor.position⟩
  bind := by
    rintro _ _ reader _ follow follow' ⟨rfl, hreader⟩ hfollow
    have hsame : follow = follow' := funext fun x => (hfollow x).1
    subst hsame
    exact ⟨rfl, fun cursor => (hreader cursor).bind fun x => (hfollow x).2⟩

/-! ## Two runs -/

/-- Bytes are missing behind a cursor: `needed` from `offset` on, where `left` remain. -/
structure Gap
    (start : Cursor)
    (offset : Nat)
    (needed : Nat)
    (left : Nat) : Prop where
  position_le : start.position ≤ offset
  total_eq : offset + left = start.position + start.remaining
  left_lt : left < needed

/--
How a run from `start` may continue where `tail` follows the unread bytes.  What
it does past the place where bytes were missing is left open.
-/
inductive Continues
    (start : Cursor)
    (tail : List UInt8) :
    Outcome α → Outcome α → Prop
  | ok
      {x : α} {next : Cursor}
      (hreach : start.Reaches next) :
      Continues start tail (.ok x next) (.ok x (next.extend tail))
  | refused
      {error : ReadError} {next next' : Cursor}
      (hfinal : error.isTruncated = false) :
      Continues start tail (.error error next) (.error error next')
  | short
      {offset needed left : Nat} {next next' : Cursor}
      (hgap : Gap start offset needed left)
      (htail : left + tail.length < needed) :
      Continues start tail (.error (.truncated offset needed left) next)
        (.error (.truncated offset needed (left + tail.length)) next')
  | resumed
      {offset needed left : Nat} {next : Cursor} {outcome : Outcome α}
      (hgap : Gap start offset needed left)
      (htail : needed ≤ left + tail.length)
      (hpast : AtLeast (offset + needed) outcome) :
      Continues start tail (.error (.truncated offset needed left) next) outcome

/-- What continues from a cursor continues from every cursor before it. -/
theorem Continues.of_reaches
    {start middle : Cursor}
    {tail : List UInt8}
    {outcome longer : Outcome α}
    (hreach : start.Reaches middle)
    (h : Continues middle tail outcome longer) :
    Continues start tail outcome longer := by
  have hgap {offset needed left : Nat} (hgap : Gap middle offset needed left) :
      Gap start offset needed left :=
    ⟨hreach.position_le.trans hgap.position_le, hgap.total_eq.trans hreach.total_eq,
      hgap.left_lt⟩
  cases h with
  | ok hnext =>
      exact .ok ⟨hreach.position_le.trans hnext.position_le,
        hnext.total_eq.trans hreach.total_eq⟩
  | refused hfinal =>
      exact .refused hfinal
  | short hmiddle htail =>
      exact .short (hgap hmiddle) htail
  | resumed hmiddle htail hpast =>
      exact .resumed (hgap hmiddle) htail hpast

/-- Two runs of sequences; the second parts are compared only where the first ones succeed. -/
theorem Continues.bind
    {cursor : Cursor}
    {tail : List UInt8}
    {reader longer : Reader α}
    {follow followLonger : α → Reader β}
    (h : Continues cursor tail (reader cursor) (longer (cursor.extend tail)))
    (hfollow : ∀ x next, reader cursor = .ok x next → cursor.Reaches next →
      Continues next tail (follow x next) (followLonger x (next.extend tail)))
    (hforward : ∀ x, Forward (followLonger x)) :
    Continues cursor tail ((reader >>= follow) cursor)
      ((longer >>= followLonger) (cursor.extend tail)) := by
  cases hrun : reader cursor with
  | ok x next =>
      rw [hrun] at h
      rw [bind_of_ok hrun]
      generalize hlonger : longer (cursor.extend tail) = outcome at h
      cases h with
      | ok hreach =>
          rw [bind_of_ok hlonger]
          exact (hfollow x next hrun hreach).of_reaches hreach
  | error error next =>
      rw [hrun] at h
      rw [bind_of_error hrun]
      generalize hlonger : longer (cursor.extend tail) = outcome at h
      cases h with
      | refused hfinal =>
          rw [bind_of_error hlonger]
          exact .refused hfinal
      | short hgap htail =>
          rw [bind_of_error hlonger]
          exact .short hgap htail
      | resumed hgap htail hpast =>
          rw [← hlonger] at hpast
          exact .resumed hgap htail (hpast.bind hforward)

section Inversion

variable {start next : Cursor} {tail : List UInt8} {longer : Outcome α}
variable {offset needed left : Nat}

/-- Further bytes that are too few leave a run short where it was. -/
theorem Continues.short_of_lt
    (h : Continues start tail (.error (.truncated offset needed left) next) longer)
    (hfew : left + tail.length < needed) :
    ∃ next', longer = .error (.truncated offset needed (left + tail.length)) next' := by
  cases h with
  | refused hfinal =>
      cases hfinal
  | short hgap htail =>
      exact ⟨_, rfl⟩
  | resumed hgap htail hpast =>
      omega

/-- With enough further bytes a run passes the place where it was short. -/
theorem Continues.past_of_le
    (h : Continues start tail (.error (.truncated offset needed left) next) longer)
    (henough : needed ≤ left + tail.length) :
    AtLeast (offset + needed) longer := by
  cases h with
  | refused hfinal =>
      cases hfinal
  | short hgap htail =>
      omega
  | resumed hgap htail hpast =>
      exact hpast

end Inversion

/-- A read of bytes that fits still fits, and one that does not is short of fewer. -/
theorem continues_bytes
    (count : Nat)
    (cursor : Cursor)
    (tail : List UInt8) :
    Continues cursor tail (bytes count cursor) (bytes count (cursor.extend tail)) := by
  have htotal := cursor.remaining_extend tail
  rcases Nat.lt_or_ge cursor.remaining count with hshort | hfits
  · have hgap : Gap cursor cursor.position count cursor.remaining :=
      ⟨Nat.le_refl _, rfl, hshort⟩
    rw [bytes_of_lt count cursor hshort]
    rcases Nat.lt_or_ge (cursor.remaining + tail.length) count with hstill | henough
    · rw [bytes_of_lt count _ (by omega), Cursor.position_extend, htotal]
      exact .short hgap hstill
    · rw [bytes_of_le count _ (by omega)]
      exact .resumed hgap henough (Nat.le_refl _)
  · have htake : (cursor.rest ++ tail).take count = cursor.rest.take count :=
      List.take_append_of_le_length hfits
    rw [bytes_of_le count cursor hfits, bytes_of_le count _ (by omega),
      Cursor.rest_extend, htake, Cursor.advance_extend tail hfits]
    exact .ok (.advance hfits)

/-- Two readers, run before at most `bound` unread bytes and where `tail` follows them. -/
structure Extends
    (bound : Nat)
    (tail : List UInt8)
    (reader longer : Reader α) : Prop where
  continues : ∀ cursor, cursor.remaining ≤ bound →
    Continues cursor tail (reader cursor) (longer (cursor.extend tail))
  forward : Forward longer

theorem extends_law
    (bound : Nat)
    (tail : List UInt8) :
    Law (fun _ reader longer => Extends bound tail reader longer) where
  pure := fun _ =>
    ⟨fun _ _ => .ok ⟨Nat.le_refl _, rfl⟩, fun cursor => Nat.le_refl cursor.position⟩
  unknownTag := fun _ => ⟨fun _ _ => .refused rfl, fun _ => trivial⟩
  bytes := fun count => ⟨fun cursor _ => continues_bytes count cursor tail, forward_bytes count⟩
  order := ⟨fun _ _ => .ok ⟨Nat.le_refl _, rfl⟩, fun cursor => Nat.le_refl cursor.position⟩
  bind := by
    intro _ _ reader longer follow followLonger h hfollow
    refine ⟨fun cursor hbound => ?_, fun cursor => ?_⟩
    · refine (h.continues cursor hbound).bind (fun x next _ hreach => ?_)
        fun x => (hfollow x).forward
      have hposition := hreach.position_le
      have htotal := hreach.total_eq
      exact (hfollow x).continues next (by omega)
    · exact (h.forward cursor).bind fun x => (hfollow x).forward

end Reader

end LuaBytecode
