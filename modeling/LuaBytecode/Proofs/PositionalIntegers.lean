import LuaBytecode.Proofs.Acceptance

/-!
# Numbers by the places of their bytes

The unsigned number held by some bytes is the sum of the bytes, each of them times
the power of 256 that its place stands for: the places are counted from the first
byte or from the last one.  The signed number is the only integer of its range
that leaves the same remainder.

**Results.**
* `ByteOrder.value_eq_positional`: a stored number as a sum over places.
* `residue_eq_iff`, `eq_of_residue_eq`: the remainder tells signed numbers apart.
* `Reader.exists_int_of_le`: the signed number that is read.
* `Reader.integers_positional`: what is read, and that reading undoes writing.
-/

namespace LuaBytecode

/-! ## Unsigned numbers -/

namespace ByteOrder

/-- How many of `length` bytes count less than the one at a place. -/
def weight
    (length : Nat)
    (place : Nat) :
    ByteOrder → Nat
  | .little => place
  | .big => length - 1 - place

/-- The sum of the bytes, each times the power of 256 of its place. -/
def positional
    (order : ByteOrder)
    (raw : List UInt8) : Nat :=
  ∑ place : Fin raw.length, raw[place].toNat * 256 ^ order.weight raw.length place

theorem littleValue_append
    (first : List UInt8)
    (second : List UInt8) :
    littleValue (first ++ second) = littleValue first + 256 ^ first.length * littleValue second := by
  induction first with
  | nil =>
      simp
  | cons byte rest ih =>
      rw [List.cons_append, littleValue_cons, littleValue_cons, ih, List.length_cons, Nat.pow_succ]
      ring

theorem bigValue_cons
    (byte : UInt8)
    (rest : List UInt8) :
    bigValue (byte :: rest) = byte.toNat * 256 ^ rest.length + bigValue rest := by
  rw [bigValue_eq_littleValue_reverse, bigValue_eq_littleValue_reverse, List.reverse_cons,
    littleValue_append, List.length_reverse, littleValue_cons, littleValue_nil]
  ring

theorem positional_cons
    (order : ByteOrder)
    (byte : UInt8)
    (rest : List UInt8) :
    order.positional (byte :: rest) =
      byte.toNat * 256 ^ order.weight (rest.length + 1) 0 +
        ∑ place : Fin rest.length,
          rest[place].toNat * 256 ^ order.weight (rest.length + 1) (place + 1) :=
  Fin.sum_univ_succ _

/-- A stored number is the sum of its bytes by their places. -/
theorem value_eq_positional
    (order : ByteOrder)
    (raw : List UInt8) :
    order.value raw = order.positional raw := by
  cases order with
  | little =>
      rw [value]
      induction raw with
      | nil =>
          rfl
      | cons byte rest ih =>
          have hterm (place : Fin rest.length) :
              256 * (rest[place].toNat * 256 ^ (place : Nat)) =
                rest[place].toNat * 256 ^ (place + 1 : Nat) := by
            rw [Nat.pow_succ]
            ring
          rw [littleValue_cons, ih, positional_cons, positional, Finset.mul_sum]
          simp only [weight, hterm, Nat.pow_zero, Nat.mul_one]
  | big =>
      rw [value]
      induction raw with
      | nil =>
          rfl
      | cons byte rest ih =>
          have hweight (place : Nat) :
              weight (rest.length + 1) (place + 1) big = weight rest.length place big := by
            simp only [weight]
            omega
          rw [bigValue_cons, ih, positional_cons]
          simp only [hweight]
          rfl

/-- Counted from the last byte, the places of some bytes are those of the bytes the other way round. -/
theorem positional_big
    (raw : List UInt8) :
    positional .big raw = positional .little raw.reverse := by
  rw [← value_eq_positional, ← value_eq_positional, value, value, bigValue_eq_littleValue_reverse]

end ByteOrder

/-! ## Signed numbers -/

/-- An unsigned number is the residue of the integers that leave the same remainder. -/
theorem residue_eq_iff
    {width : Nat}
    {n : Nat}
    (h : n < 256 ^ width)
    (x : Int) :
    residue width x = n ↔ x ≡ n [ZMOD 2 ^ (8 * width)] := by
  have hn : (n : Int) < 2 ^ (8 * width) := by
    rw [pow_256_eq] at h
    exact_mod_cast h
  have hnonneg := Int.emod_nonneg x (show (2 : Int) ^ (8 * width) ≠ 0 by positivity)
  rw [Int.ModEq, Int.emod_eq_of_lt (Int.natCast_nonneg n) hn, residue]
  omega

/-- Integers of one range with the same residue are equal. -/
theorem eq_of_residue_eq
    {width : Nat}
    {x y : Int}
    (hwidth : 0 < width)
    (hx : FitsSigned width x)
    (hy : FitsSigned width y)
    (h : residue width x = residue width y) :
    x = y := by
  rw [← signedValue_residue hwidth hx, h, signedValue_residue hwidth hy]

/-! ## Reading -/

namespace Reader

/--
The signed number that is read fits, and its residue is the unsigned number: the
bytes ahead are those that are written for it.
-/
theorem exists_int_of_le
    {width : Nat}
    {cursor : Cursor}
    (hpos : 0 < width)
    (hmost : width ≤ 8)
    (h : width ≤ cursor.remaining) :
    ∃ x : Int64, int width cursor = .ok x (cursor.advance width) ∧
      FitsSigned width x.toInt ∧
      residue width x.toInt = cursor.order.value (cursor.rest.take width) := by
  obtain ⟨x, hrun⟩ : ∃ x, int width cursor = .ok x (cursor.advance width) :=
    ⟨_, map_uint_of_le _ h⟩
  obtain ⟨encoded, ⟨hfits, rfl⟩, hprefix, -⟩ :=
    (Accepts.int hpos hmost cursor rfl (Nat.le_refl _) x _).1 hrun
  rw [List.prefix_iff_eq_take, ByteOrder.length_bytes] at hprefix
  refine ⟨x, hrun, hfits, ?_⟩
  rw [← hprefix, ByteOrder.value_bytes _ _ _ (residue_lt width _)]

/-- A word is a number of four bytes, where it can be read and where it cannot. -/
theorem toNat_word :
    UInt32.toNat <$> word = uint 4 := by
  funext cursor
  rw [← bind_pure_comp]
  rcases Nat.lt_or_ge cursor.remaining 4 with hshort | hfits
  · have hword : word cursor = _ := map_uint_of_lt _ hshort
    rw [uint_of_lt hshort, bind_of_error hword]
  · have hword : word cursor = _ := map_uint_of_le _ hfits
    have hlt := cursor.order.value_lt (cursor.rest.take 4)
    rw [(length_take_eq_iff 4 cursor.rest).2 hfits] at hlt
    have hcast : (UInt32.ofNat (cursor.order.value (cursor.rest.take 4))).toNat =
        cursor.order.value (cursor.rest.take 4) := by
      rw [UInt32.toNat_ofNat']
      exact Nat.mod_eq_of_lt hlt
    rw [uint_of_le hfits, bind_of_ok hword]
    exact congrArg (EStateM.Result.ok · _) hcast

/-! ## Reading what was written -/

section Written

variable {width : Nat} (order : ByteOrder) (position : Nat) (rest : List UInt8)

theorem uint_bytes
    {n : Nat}
    (h : n < 256 ^ width) :
    uint width ⟨position, order.bytes width n ++ rest, order⟩ =
      .ok n ⟨position + width, rest, order⟩ := by
  have hrun := (Accepts.uint width ⟨position, order.bytes width n ++ rest, order⟩ rfl
    (Nat.le_refl _) n _).2 ⟨_, ⟨h, rfl⟩, List.prefix_append _ _, rfl⟩
  rw [hrun]
  simp [Cursor.advance]

theorem exists_int_bytes
    {x : Int}
    (hpos : 0 < width)
    (hmost : width ≤ 8)
    (h : FitsSigned width x) :
    ∃ y : Int64,
      int width ⟨position, order.bytes width (residue width x) ++ rest, order⟩ =
        .ok y ⟨position + width, rest, order⟩ ∧ y.toInt = x := by
  have hlength :
      width ≤ Cursor.remaining ⟨position, order.bytes width (residue width x) ++ rest, order⟩ := by
    simp [Cursor.remaining]
  obtain ⟨y, hrun, hfits, hresidue⟩ := exists_int_of_le hpos hmost hlength
  refine ⟨y, ?_, eq_of_residue_eq hpos hfits h ?_⟩
  · rw [hrun]
    simp [Cursor.advance]
  · rw [hresidue, List.take_left' (order.length_bytes width _),
      order.value_bytes width _ (residue_lt width x)]

end Written

/--
Numbers of one to eight bytes, in either order.  The unsigned number is the sum of
the next bytes by their places, and the signed one is the only integer of its range
that leaves the same remainder.  Counted from the last byte, places are those of
the bytes the other way round.  So what was written is read again, an unsigned
number as well as a signed one.  A word is a number of four bytes.
-/
theorem integers_positional
    (width : Nat)
    (hpos : 1 ≤ width)
    (hmost : width ≤ 8) :
    (∀ cursor : Cursor, width ≤ cursor.remaining →
      let next := cursor.advance width
      let n := cursor.order.positional (cursor.rest.take width)
      uint width cursor = .ok n next ∧
        ∃ x : Int64, int width cursor = .ok x next ∧
          ∀ y : Int, y = x.toInt ↔ FitsSigned width y ∧ y ≡ n [ZMOD 2 ^ (8 * width)]) ∧
    (∀ raw : List UInt8,
      ByteOrder.positional .big raw = ByteOrder.positional .little raw.reverse) ∧
    (∀ (order : ByteOrder) (position : Nat) (rest : List UInt8) (n : Nat), n < 256 ^ width →
      uint width ⟨position, order.bytes width n ++ rest, order⟩ =
        .ok n ⟨position + width, rest, order⟩) ∧
    (∀ (order : ByteOrder) (position : Nat) (rest : List UInt8) (x : Int), FitsSigned width x →
      ∃ y : Int64,
        int width ⟨position, order.bytes width (residue width x) ++ rest, order⟩ =
          .ok y ⟨position + width, rest, order⟩ ∧ y.toInt = x) ∧
    UInt32.toNat <$> word = uint 4 := by
  refine ⟨fun cursor hfits => ?_, ByteOrder.positional_big,
    fun order position rest n h => uint_bytes order position rest h,
    fun order position rest x h => exists_int_bytes order position rest hpos hmost h, toNat_word⟩
  intro next n
  have hn : cursor.order.value (cursor.rest.take width) = n :=
    cursor.order.value_eq_positional _
  have hlt := cursor.order.value_lt (cursor.rest.take width)
  rw [(length_take_eq_iff width cursor.rest).2 hfits, hn] at hlt
  obtain ⟨x, hrun, hx, hresidue⟩ := exists_int_of_le hpos hmost hfits
  rw [hn] at hresidue
  refine ⟨by rw [uint_of_le hfits, hn], x, hrun, fun y => ?_⟩
  constructor
  · rintro rfl
    exact ⟨hx, (residue_eq_iff hlt _).1 hresidue⟩
  · rintro ⟨hy, hcongruent⟩
    exact eq_of_residue_eq hpos hy hx (((residue_eq_iff hlt y).2 hcongruent).trans hresidue.symm)

/-- The least number of three bytes, read as it was written, and a number just below 0. -/
theorem threeBytes_positional :
    (∃ x : Int64,
      int 3 ⟨0, [0xff, 0xff, 0xfe, 7], .big⟩ = .ok x ⟨3, [7], .big⟩ ∧ x.toInt = -2) ∧
    uint 3 ⟨5, ByteOrder.bytes .big 3 0x800000 ++ [1], .big⟩ = .ok 0x800000 ⟨8, [1], .big⟩ ∧
    ∃ y : Int64,
      int 3 ⟨5, ByteOrder.bytes .little 3 (residue 3 (-0x800000)) ++ [1], .little⟩ =
        .ok y ⟨8, [1], .little⟩ ∧ y.toInt = -0x800000 := by
  obtain ⟨hread, -, hunsigned, hsigned, -⟩ :=
    integers_positional 3 (by decide) (by decide)
  obtain ⟨-, x, hrun, hunique⟩ := hread ⟨0, [0xff, 0xff, 0xfe, 7], .big⟩ (by decide)
  refine ⟨⟨x, hrun, ?_⟩, hunsigned .big 5 [1] 0x800000 (by decide),
    hsigned .little 5 [1] (-0x800000) (by simp [FitsSigned])⟩
  exact ((hunique (-2)).2 ⟨by simp [FitsSigned], by rfl⟩).symm

end Reader
end LuaBytecode
