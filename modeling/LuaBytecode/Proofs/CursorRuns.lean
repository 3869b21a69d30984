import LuaBytecode.Proofs.ReaderRuns

/-!
# Runs of a cursor

Any operations are carried out one after the other at one cursor, whether those
before them succeeded or not.  An operation that asks for more bytes than are left
changes nothing.  Every other one takes the next bytes, as many as it asks for, and
what it yields depends on them and on the byte order alone.

So the bytes that are taken and those that are left are the whole byte string at
any time, and the position is the number of those that are taken.

**Results.**
* `Operation.reader_of_le`, `Operation.reader_of_lt`: what one operation does.
* `Operation.moves_left`, `Operation.moves_after`: how one operation, and a run, moves
  the cursor.
* `Operation.runs_take_prefix`: runs from the start of a byte string.
-/

namespace LuaBytecode

/-! ## Operations -/

/-- A read at a cursor, or a choice of the byte order. -/
inductive Operation where
  | setOrder (order : ByteOrder)
  | byte
  | bytes (count : Nat)
  | uint (width : Nat)
  | int (width : Nat)
  | word
  | single
  | double
  deriving DecidableEq

namespace Operation

/-- What an operation yields. -/
abbrev Value :
    Operation → Type
  | .setOrder _ => Unit
  | .byte => UInt8
  | .bytes _ => List UInt8
  | .uint _ => Nat
  | .int _ => Int64
  | .word => UInt32
  | .single => Double
  | .double => Double

/-- How an operation is carried out. -/
def reader :
    (operation : Operation) → Reader operation.Value
  | .setOrder order => Reader.setOrder order
  | .byte => Reader.byte
  | .bytes count => Reader.bytes count
  | .uint width => Reader.uint width
  | .int width => Reader.int width
  | .word => Reader.word
  | .single => Reader.single
  | .double => Reader.double

/-- The number of bytes that an operation asks for. -/
def needed :
    Operation → Nat
  | .setOrder _ => 0
  | .byte => 1
  | .bytes count => count
  | .uint width => width
  | .int width => width
  | .word => 4
  | .single => 4
  | .double => 8

/-- What is made of the bytes that were asked for. -/
def interpret :
    (operation : Operation) → ByteOrder → List UInt8 → operation.Value
  | .setOrder _, _, _ => ()
  | .byte, _, raw => raw.headD 0
  | .bytes _, _, raw => raw
  | .uint _, order, raw => order.value raw
  | .int width, order, raw => Int64.ofInt (signedValue width (order.value raw))
  | .word, order, raw => UInt32.ofNat (order.value raw)
  | .single, order, raw => Double.ofSingleBits (order.value raw)
  | .double, order, raw => Double.ofBits (order.value raw)

/-- The byte order behind an operation. -/
def orderBehind :
    Operation → ByteOrder → ByteOrder
  | .setOrder order, _ => order
  | _, order => order

/-- The cursor behind an operation that succeeds. -/
def behind
    (operation : Operation)
    (cursor : Cursor) : Cursor :=
  { cursor.advance operation.needed with order := operation.orderBehind cursor.order }

section Single

open Reader

variable {cursor : Cursor} (operation : Operation)

/-- An operation that asks for no more bytes than are left takes the next ones. -/
theorem reader_of_le
    (h : operation.needed ≤ cursor.remaining) :
    operation.reader cursor =
      .ok (operation.interpret cursor.order (cursor.rest.take operation.needed))
        (operation.behind cursor) := by
  cases operation with
  | setOrder order =>
      rfl
  | byte =>
      rw [reader, byte_eq]
      exact bind_of_ok (bytes_of_le 1 cursor h)
  | bytes count =>
      exact bytes_of_le count cursor h
  | uint width =>
      exact uint_of_le h
  | int width =>
      exact map_uint_of_le _ h
  | word =>
      exact map_uint_of_le _ h
  | single =>
      exact map_uint_of_le _ h
  | double =>
      exact map_uint_of_le _ h

/-- An operation that asks for more bytes says so and changes nothing. -/
theorem reader_of_lt
    (h : cursor.remaining < operation.needed) :
    operation.reader cursor =
      .error (.truncated cursor.position operation.needed cursor.remaining) cursor := by
  cases operation with
  | setOrder order =>
      exact absurd h (Nat.not_lt_zero _)
  | byte =>
      rw [reader, byte_eq]
      exact bind_of_error (bytes_of_lt 1 cursor h)
  | bytes count =>
      exact bytes_of_lt count cursor h
  | uint width =>
      exact uint_of_lt h
  | int width =>
      exact map_uint_of_lt _ h
  | word =>
      exact map_uint_of_lt _ h
  | single =>
      exact map_uint_of_lt _ h
  | double =>
      exact map_uint_of_lt _ h

end Single

/-! ## Runs -/

/-- The cursor that an operation leaves behind, whether it succeeds or fails. -/
def left
    (cursor : Cursor)
    (operation : Operation) : Cursor :=
  match operation.reader cursor with
  | .ok _ next => next
  | .error _ next => next

/-- The bytes of an operation that succeeds. -/
def taken
    (cursor : Cursor)
    (operation : Operation) : List UInt8 :=
  match operation.reader cursor with
  | .ok _ _ => cursor.rest.take operation.needed
  | .error _ _ => []

/-- The cursor behind operations that are carried out one after the other. -/
def after
    (operations : List Operation)
    (cursor : Cursor) : Cursor :=
  operations.foldl left cursor

/-- The bytes of those among the operations that succeed, one behind the other. -/
def takenBy :
    List Operation → Cursor → List UInt8
  | [], _ => []
  | operation :: later, cursor => taken cursor operation ++ takenBy later (left cursor operation)

end Operation

namespace Cursor

/-- A cursor that is reached from another one past the given bytes. -/
structure Moves
    (start : Cursor)
    (raw : List UInt8)
    (next : Cursor) : Prop where
  rest_eq : start.rest = raw ++ next.rest
  position_eq : next.position = start.position + raw.length

namespace Moves

variable {start middle next : Cursor} {first second raw : List UInt8}

theorem stay
    (cursor : Cursor) :
    cursor.Moves [] cursor :=
  ⟨rfl, rfl⟩

theorem append
    (hfirst : start.Moves first middle)
    (hsecond : middle.Moves second next) :
    start.Moves (first ++ second) next := by
  constructor
  · rw [hfirst.rest_eq, hsecond.rest_eq, List.append_assoc]
  · rw [hsecond.position_eq, hfirst.position_eq, List.length_append, Nat.add_assoc]

theorem position_le
    (h : start.Moves raw next) :
    start.position ≤ next.position := by
  rw [h.position_eq]
  exact Nat.le_add_right _ _

variable {buffer : List UInt8} (h : (ofBytes buffer).Moves raw next)
include h

/-- From the start of a byte string on, the position counts the bytes that were passed. -/
theorem position_eq_length :
    next.position = raw.length :=
  h.position_eq.trans (Nat.zero_add _)

theorem raw_eq_take :
    raw = buffer.take next.position := by
  have hbuffer : buffer = raw ++ next.rest := h.rest_eq
  rw [h.position_eq_length, hbuffer, List.take_left]

theorem rest_eq_drop :
    next.rest = buffer.drop next.position := by
  have hbuffer : buffer = raw ++ next.rest := h.rest_eq
  rw [h.position_eq_length, hbuffer, List.drop_left]

theorem position_add_remaining :
    next.position + next.remaining = buffer.length := by
  have hbuffer : buffer = raw ++ next.rest := h.rest_eq
  rw [h.position_eq_length, hbuffer, List.length_append, remaining]

end Moves
end Cursor

namespace Operation

/-- An operation takes its bytes and moves past them, or it leaves everything as it was. -/
theorem moves_left
    (cursor : Cursor)
    (operation : Operation) :
    cursor.Moves (taken cursor operation) (left cursor operation) := by
  rcases Nat.lt_or_ge cursor.remaining operation.needed with hshort | hfits
  · rw [taken, left, operation.reader_of_lt hshort]
    exact .stay cursor
  · rw [taken, left, operation.reader_of_le hfits]
    constructor
    · exact (List.take_append_drop _ _).symm
    · rw [(Reader.length_take_eq_iff _ _).2 hfits]
      rfl

theorem moves_after
    (operations : List Operation)
    (cursor : Cursor) :
    cursor.Moves (takenBy operations cursor) (after operations cursor) := by
  induction operations generalizing cursor with
  | nil =>
      exact .stay cursor
  | cons operation later ih =>
      exact (moves_left cursor operation).append (ih (left cursor operation))

theorem after_append
    (before : List Operation)
    (later : List Operation)
    (cursor : Cursor) :
    after (before ++ later) cursor = after later (after before cursor) :=
  List.foldl_append

/-- A failing operation leaves the cursor to the next one as it was. -/
theorem after_append_of_lt
    {before : List Operation}
    {operation : Operation}
    {cursor : Cursor}
    (h : (after before cursor).remaining < operation.needed) :
    after (before ++ [operation]) cursor = after before cursor := by
  rw [after_append]
  show left (after before cursor) operation = after before cursor
  rw [left, operation.reader_of_lt h]

/-- A sum of addresses that does not pass the end of something addressable is an address. -/
theorem toNat_add_of_le
    {place count length : Nat}
    (h : place + count ≤ length)
    (hlength : length < 2 ^ 64) :
    (UInt64.ofNat place + UInt64.ofNat count).toNat = place + count := by
  rw [UInt64.toNat_add, UInt64.toNat_ofNat', UInt64.toNat_ofNat']
  omega

section Runs

variable (buffer : List UInt8) (before : List Operation)

/-- What an operation yields at the place of `buffer` that operations before it have come to. -/
def yields
    (operation : Operation) : EStateM.Result ReadError Cursor operation.Value :=
  let cursor := after before (.ofBytes buffer)
  .ok (operation.interpret cursor.order ((buffer.drop cursor.position).take operation.needed))
    { position := cursor.position + operation.needed
      rest := buffer.drop (cursor.position + operation.needed)
      order := operation.orderBehind cursor.order }

theorem reader_after_of_le
    {operation : Operation}
    (h : operation.needed ≤ (after before (.ofBytes buffer)).remaining) :
    operation.reader (after before (.ofBytes buffer)) = operation.yields buffer before := by
  have hrest := (moves_after before (.ofBytes buffer)).rest_eq_drop
  rw [operation.reader_of_le h, yields, behind, Cursor.advance, hrest, List.drop_drop]

/--
Runs from the start of a byte string.  After any operations the position lies in
the byte string, or at its end, and has not gone back; what is unread are the bytes
behind it, and the bytes that were taken are those before it.

An operation that asks for no more bytes than are unread yields what the next bytes
hold and moves past them; the position that it moves to is no address too large.
One that asks for more says where it stands, how many bytes it needs and how many
there are, and the cursor stays as it was, so that one that asks for less still
yields what these bytes hold.
-/
theorem runs_take_prefix :
    (∀ operations : List Operation,
      let cursor := after operations (.ofBytes buffer)
      cursor.position ≤ buffer.length ∧
        cursor.position + cursor.remaining = buffer.length ∧
        cursor.rest = buffer.drop cursor.position ∧
        takenBy operations (.ofBytes buffer) = buffer.take cursor.position ∧
        ∀ later, cursor.position ≤ (after (operations ++ later) (.ofBytes buffer)).position) ∧
    ∀ operation : Operation,
      let cursor := after before (.ofBytes buffer)
      let place := cursor.position
      (operation.needed ≤ cursor.remaining →
        operation.reader cursor = operation.yields buffer before ∧
          place + operation.needed ≤ buffer.length ∧
          (buffer.length < 2 ^ 64 →
            (UInt64.ofNat place + UInt64.ofNat operation.needed).toNat =
              place + operation.needed)) ∧
      (cursor.remaining < operation.needed →
        let next := after (before ++ [operation]) (.ofBytes buffer)
        operation.reader cursor =
            .error (.truncated place operation.needed (buffer.length - place)) cursor ∧
          next = cursor ∧
          ∀ smaller : Operation, smaller.needed ≤ cursor.remaining →
            smaller.reader next = smaller.yields buffer before) := by
  refine ⟨fun operations => ?_, fun operation => ?_⟩
  · intro cursor
    have hmoves := moves_after operations (.ofBytes buffer)
    have htotal : cursor.position + cursor.remaining = buffer.length :=
      hmoves.position_add_remaining
    refine ⟨by omega, htotal, hmoves.rest_eq_drop, hmoves.raw_eq_take, fun later => ?_⟩
    rw [after_append]
    exact (moves_after later cursor).position_le
  · intro cursor place
    have htotal : cursor.position + cursor.remaining = buffer.length :=
      (moves_after before (.ofBytes buffer)).position_add_remaining
    constructor
    · intro hfits
      have hend : place + operation.needed ≤ buffer.length := by omega
      exact ⟨reader_after_of_le buffer before hfits, hend, toNat_add_of_le hend⟩
    · intro hshort next
      have hnext : next = cursor := after_append_of_lt hshort
      have hleft : cursor.remaining = buffer.length - place := by omega
      refine ⟨?_, hnext, fun smaller hsmaller => ?_⟩
      · rw [operation.reader_of_lt hshort, hleft]
      · rw [hnext]
        exact reader_after_of_le buffer before hsmaller

end Runs

/--
Behind one of three bytes, a number of four bytes is two short, and so is everything
that a length of eight bytes can announce; a number of two bytes is read all the same.
-/
theorem shortReads_take_prefix :
    let buffer : List UInt8 := [0xaa, 0xbb, 0xcc]
    let before : List Operation := [.byte, .setOrder .big, .bytes (2 ^ 64 - 1)]
    let cursor := after before (.ofBytes buffer)
    takenBy before (.ofBytes buffer) = [0xaa] ∧
      (uint 4).reader cursor = .error (.truncated 1 4 2) cursor ∧
      (uint 2).reader (after (before ++ [uint 4]) (.ofBytes buffer)) =
        .ok 0xbbcc ⟨3, [], .big⟩ ∧
      (UInt64.ofNat 1 + UInt64.ofNat 2).toNat = 3 := by
  intro buffer before cursor
  obtain ⟨hruns, hsteps⟩ := runs_take_prefix buffer before
  obtain ⟨-, -, -, htaken, -⟩ := hruns before
  obtain ⟨-, hshort⟩ := hsteps (uint 4)
  obtain ⟨herror, -, hsmaller⟩ := hshort (by decide)
  obtain ⟨hfits, -⟩ := hsteps (uint 2)
  obtain ⟨-, -, hsum⟩ := hfits (by decide)
  exact ⟨htaken, herror, hsmaller (uint 2) (by decide), hsum (by decide)⟩

end Operation
end LuaBytecode
