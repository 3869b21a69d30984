import LuaBytecode.Proofs.ChunkExtension
import LuaBytecode.Proofs.ConsumedBytes

/-!
# Recursion of the reader of prototypes

The reader of prototypes recurs on a bound for the depth.  The bound can be
forgotten: reading with as much of it as there are unread bytes is a reader that
satisfies the recursive equation without any bound, and at each cursor only asks
for inner prototypes where fewer bytes are unread.

**Results.**
* `Reader.agree_law`: agreement before few unread bytes is a law of readers.
* `Prototype.read_eq_reader`: a bound that covers the unread bytes does not show.
* `Prototype.reader_of_inner`, `Prototype.reader_eq`: the recursion, which goes to
  fewer unread bytes only.
-/

namespace LuaBytecode

open Reader

/-! ## Agreement before few unread bytes -/

/-- Two readers that do the same before at most `bound` unread bytes, and do not go back. -/
structure Reader.Agree
    {α : Type}
    (bound : Nat)
    (reader other : Reader α) : Prop where
  eq : ∀ cursor : Cursor, cursor.remaining ≤ bound → reader cursor = other cursor
  consumes : Consumes 0 other

theorem Reader.agree_law
    (bound : Nat) :
    Law (fun _ reader other => Agree bound reader other) where
  pure := fun x => ⟨fun _ _ => rfl, Consumes.pure x⟩
  unknownTag := fun _ => ⟨fun _ _ => rfl, Consumes.throw _⟩
  bytes := fun count => ⟨fun _ _ => rfl, (Consumes.bytes count).mono (Nat.zero_le _)⟩
  order := ⟨fun _ _ => rfl, Consumes.order⟩
  bind := by
    intro _ _ reader other follow followOther h hfollow
    refine ⟨fun cursor hbound => ?_, h.consumes.bind fun x => (hfollow x).consumes⟩
    have hsame := h.eq cursor hbound
    cases hrun : other cursor with
    | ok x next =>
        have hnext := h.consumes cursor x next hrun
        rw [bind_of_ok hrun, bind_of_ok (hsame.trans hrun)]
        exact (hfollow x).eq next (hnext.trans hbound)
    | error error next =>
        rw [bind_of_error hrun, bind_of_error (hsame.trans hrun)]

namespace Prototype

variable {header : Header}

/-! ## The bound does not show -/

theorem read_succ
    (header : Header)
    (depth : Nat) :
    (read header (depth + 1) : Reader Prototype) =
      (do readBody header (Section.read header (read header depth)) (← readString header)) :=
  rfl

/-- A bound of any size finds the length of the source name missing. -/
theorem read_of_lt
    {cursor : Cursor}
    (depth : Nat)
    (h : cursor.remaining < header.sizeWidth.toNat) :
    (read header depth : Reader Prototype) cursor =
      .error (.truncated cursor.position header.sizeWidth.toNat cursor.remaining) cursor := by
  cases depth with
  | zero =>
      rfl
  | succ depth =>
      exact bind_of_error (readString_of_lt h)

/-- The part of a prototype behind its source name, where inner prototypes are read alike. -/
theorem read_succ_congr
    (hvalid : header.Valid)
    {inner other : Reader Prototype}
    {bound : Nat}
    (hinner : Agree bound inner other)
    {cursor : Cursor}
    (hbound : cursor.remaining ≤ bound + 1) :
    (do readBody header (Section.read header inner) (← readString header) :
        Reader Prototype) cursor =
      (do readBody header (Section.read header other) (← readString header) :
        Reader Prototype) cursor := by
  cases hsource : readString header cursor with
  | ok text next =>
      have hless := remaining_lt_of_readString hvalid hsource
      rw [bind_of_ok hsource, bind_of_ok hsource]
      exact ((agree_law bound).readBody header hinner text).eq next (by omega)
  | error error next =>
      rw [bind_of_error hsource, bind_of_error hsource]

/-- Bounds that cover the unread bytes are as good as each other. -/
theorem agree_read
    (hvalid : header.Valid)
    {bound first second : Nat}
    (hfirst : bound ≤ first)
    (hsecond : bound ≤ second) :
    Agree bound (read header first) (read header second) := by
  refine ⟨fun cursor hbound => ?_, (consumes_read hvalid second).mono (Nat.zero_le _)⟩
  have hwidth := hvalid.sizeWidth_pos
  induction bound generalizing first second cursor with
  | zero =>
      have hshort : cursor.remaining < header.sizeWidth.toNat := by
        omega
      rw [read_of_lt first hshort, read_of_lt second hshort]
  | succ bound ih =>
      obtain ⟨first, rfl⟩ : ∃ n, first = n + 1 := ⟨first - 1, by omega⟩
      obtain ⟨second, rfl⟩ : ∃ n, second = n + 1 := ⟨second - 1, by omega⟩
      have hinner : Agree bound (read header first) (read header second) :=
        ⟨ih (Nat.le_of_succ_le_succ hfirst) (Nat.le_of_succ_le_succ hsecond),
          (consumes_read hvalid second).mono (Nat.zero_le _)⟩
      exact read_succ_congr hvalid hinner hbound

theorem read_eq_reader
    (hvalid : header.Valid)
    {depth : Nat}
    {cursor : Cursor}
    (h : cursor.remaining ≤ depth) :
    (read header depth : Reader Prototype) cursor = (reader header : Reader Prototype) cursor :=
  (agree_read hvalid h (Nat.le_refl _)).eq cursor (Nat.le_refl _)

/-! ## The recursion -/

/--
A prototype is read with any reader of inner ones that is right where fewer
bytes are unread.  So the recursion is one on the number of unread bytes.
-/
theorem reader_of_inner
    (hvalid : header.Valid)
    {inner : Reader Prototype}
    {cursor : Cursor}
    (hinner : ∀ below : Cursor, below.remaining < cursor.remaining →
      inner below = (reader header : Reader Prototype) below) :
    (do readBody header (Section.read header inner) (← readString header) :
        Reader Prototype) cursor =
      (reader header : Reader Prototype) cursor := by
  have hdeep := read_eq_reader hvalid (Nat.le_succ cursor.remaining)
  rw [← hdeep, read_succ]
  cases hcount : cursor.remaining with
  | zero =>
      have hshort : cursor.remaining < header.sizeWidth.toNat := by
        have := hvalid.sizeWidth_pos
        omega
      rw [bind_of_error (readString_of_lt hshort), bind_of_error (readString_of_lt hshort)]
  | succ bound =>
      have hagree : Agree bound inner (read header (bound + 1)) := by
        refine ⟨fun below hbelow => ?_, (consumes_read hvalid _).mono (Nat.zero_le _)⟩
        rw [hinner below (by omega), read_eq_reader hvalid (by omega)]
      exact read_succ_congr hvalid hagree (by omega)

/-- The recursive equation of prototypes. -/
theorem reader_eq
    (hvalid : header.Valid) :
    (reader header : Reader Prototype) =
      (do readBody header (Section.read header (reader header)) (← readString header)) := by
  funext cursor
  exact (reader_of_inner hvalid fun _ _ => rfl).symm

end Prototype
end LuaBytecode
