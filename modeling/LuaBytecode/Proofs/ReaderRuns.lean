import LuaBytecode.Chunk.Reading
import Mathlib.Tactic

/-!
# Runs of readers

What a reader does at a cursor: how two readers in sequence run, what a read of
a number does when it fits and when it does not, and how cursors move.

**Contents.**
* `Reader.bind_of_ok`, `Reader.bind_of_error`, `Reader.bind_eq_ok_iff`: sequences.
* `Reader.byte_of_cons`, `Reader.uint_of_le`, `Reader.uint_of_lt`: single reads.
* `Reader.map_uint_of_le`, `Reader.map_uint_of_lt`: what is made of a number.
* `Reader.listOf_eq`: what is set aside for a list does not change what is read.
-/

namespace LuaBytecode

namespace Cursor

variable (cursor : Cursor)

@[simp] theorem rest_advance
    (count : Nat) :
    (cursor.advance count).rest = cursor.rest.drop count := rfl

@[simp] theorem order_advance
    (count : Nat) :
    (cursor.advance count).order = cursor.order := rfl

@[simp] theorem position_advance
    (count : Nat) :
    (cursor.advance count).position = cursor.position + count := rfl

@[simp] theorem remaining_advance
    (count : Nat) :
    (cursor.advance count).remaining = cursor.remaining - count := by
  simp [remaining]

@[simp] theorem advance_advance
    (first : Nat)
    (second : Nat) :
    (cursor.advance first).advance second = cursor.advance (first + second) := by
  simp [advance, Nat.add_assoc]

end Cursor

namespace Reader

variable {α β : Type}
variable {cursor next : Cursor}

/-! ## Sequences -/

/-- A sequence goes on where its first part ended. -/
theorem bind_of_ok
    {reader : Reader α}
    {follow : α → Reader β}
    {x : α}
    (h : reader cursor = .ok x next) :
    (reader >>= follow) cursor = follow x next := by
  simp only [bind, EStateM.bind, h]

/-- A sequence ends where its first part failed. -/
theorem bind_of_error
    {reader : Reader α}
    {follow : α → Reader β}
    {error : ReadError}
    (h : reader cursor = .error error next) :
    (reader >>= follow) cursor = .error error next := by
  simp only [bind, EStateM.bind, h]

/-- A sequence succeeds if both of its parts do. -/
theorem bind_eq_ok_iff
    {reader : Reader α}
    {follow : α → Reader β}
    {y : β} :
    (reader >>= follow) cursor = .ok y next ↔
      ∃ x middle, reader cursor = .ok x middle ∧ follow x middle = .ok y next := by
  cases h : reader cursor with
  | ok x middle =>
      rw [bind_of_ok h]
      simp
  | error error middle =>
      rw [bind_of_error h]
      simp

/-! ## Single reads -/

theorem byte_of_cons
    {first : UInt8}
    {others : List UInt8}
    (h : cursor.rest = first :: others) :
    byte cursor = .ok first (cursor.advance 1) := by
  simp only [byte, h]

/-- Where nothing is left one byte is missing. -/
theorem byte_of_nil
    (h : cursor.rest = []) :
    byte cursor = .error (.truncated cursor.position 1 cursor.remaining) cursor := by
  simp only [byte, h, short]

/-- Taking one byte is taking a list of one byte. -/
theorem byte_eq :
    byte = (do return (← bytes 1).headD 0) := by
  funext start
  cases hrest : start.rest with
  | nil =>
      have hshort : start.remaining < 1 := by
        simp [Cursor.remaining, hrest]
      rw [byte_of_nil hrest, bind_of_error (bytes_of_lt 1 start hshort)]
  | cons first others =>
      have hfits : 1 ≤ start.remaining := by
        simp [Cursor.remaining, hrest]
      rw [byte_of_cons hrest, bind_of_ok (bytes_of_le 1 start hfits), hrest]
      rfl

/-- A number that fits is read in the byte order in force. -/
theorem uint_of_le
    {width : Nat}
    (h : width ≤ cursor.remaining) :
    uint width cursor =
      .ok (cursor.order.value (cursor.rest.take width)) (cursor.advance width) := by
  have hbytes := bytes_of_le width cursor h
  rw [uint, bind_of_ok hbytes]
  rfl

/-- A number that does not fit is missing as a whole. -/
theorem uint_of_lt
    {width : Nat}
    (h : cursor.remaining < width) :
    uint width cursor =
      .error (.truncated cursor.position width cursor.remaining) cursor := by
  rw [uint]
  exact bind_of_error (bytes_of_lt width cursor h)

/-- What is made of a number that fits. -/
theorem map_uint_of_le
    {width : Nat}
    (f : Nat → α)
    (h : width ≤ cursor.remaining) :
    (do return f (← uint width) : Reader α) cursor =
      .ok (f (cursor.order.value (cursor.rest.take width))) (cursor.advance width) :=
  bind_of_ok (uint_of_le h)

theorem map_uint_of_lt
    {width : Nat}
    (f : Nat → α)
    (h : cursor.remaining < width) :
    (do return f (← uint width) : Reader α) cursor =
      .error (.truncated cursor.position width cursor.remaining) cursor :=
  bind_of_error (uint_of_lt h)

/-- The places set aside for a list do not show in what is read. -/
theorem listOf_eq
    (count : Nat)
    (least : Nat)
    (element : Reader α) :
    listOf count least element =
      (do
        let elements ← collect element count #[]
        return elements.toList : Reader (List α)) := rfl

end Reader

namespace Chunk

/-- A cursor behind a header, in the byte order that the header declares. -/
def behindHeader
    (header : Header)
    (cursor : Cursor) : Cursor :=
  { cursor with order := header.order }

theorem advance_behindHeader
    (header : Header)
    (cursor : Cursor)
    (count : Nat) :
    (behindHeader header cursor).advance count =
      behindHeader header (cursor.advance count) := rfl

/-- The main prototype is read in the byte order of the header, as deep as there are bytes. -/
theorem readMain_apply
    (header : Header)
    (cursor : Cursor) :
    readMain header cursor =
      (do
        let main ← Prototype.read header cursor.remaining
        return { header, main } : Reader Chunk) (behindHeader header cursor) := rfl

/-- A byte string is a chunk if reading from its start succeeds. -/
theorem read_eq_ok_iff_reader
    (bytes : List UInt8)
    (chunk : Chunk) :
    read bytes = .ok chunk ↔ ∃ next, reader (Cursor.ofBytes bytes) = .ok chunk next := by
  rw [read]
  cases reader (Cursor.ofBytes bytes) <;> simp

/-- A byte string is refused if reading from its start fails. -/
theorem read_eq_error_iff
    (bytes : List UInt8)
    (error : ReadError) :
    read bytes = .error error ↔
      ∃ next, reader (Cursor.ofBytes bytes) = .error error next := by
  rw [read]
  cases reader (Cursor.ofBytes bytes) <;> simp

end Chunk
end LuaBytecode
