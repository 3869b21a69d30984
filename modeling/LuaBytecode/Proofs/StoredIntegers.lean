import LuaBytecode.Bytes
import Mathlib.Data.List.Induction
import Mathlib.Tactic

/-!
# Writing numbers to bytes

A number is written by its digits to base 256, in either order.  A signed number
is written as its residue modulo `256 ^ w`.

**Results.**
* `ByteOrder.value_bytes`, `ByteOrder.bytes_value`: writing and reading an
  unsigned number are inverse to each other.
* `signedValue_residue`, `residue_signedValue`: the same for the two's complement
  reading of a residue.
-/

namespace LuaBytecode

namespace ByteOrder

/-- The digits of `n` to base 256, the least significant one first. -/
def littleBytes :
    Nat → Nat → List UInt8
  | 0, _ => []
  | width + 1, n => UInt8.ofNat (n % 256) :: littleBytes width (n / 256)

/-- The `width` bytes that hold `n`. -/
def bytes :
    ByteOrder → Nat → Nat → List UInt8
  | .big, width, n => (littleBytes width n).reverse
  | .little, width, n => littleBytes width n

@[simp] theorem length_littleBytes
    (width : Nat)
    (n : Nat) :
    (littleBytes width n).length = width := by
  induction width generalizing n with
  | zero =>
      rfl
  | succ width ih =>
      simp [littleBytes, ih]

@[simp] theorem length_bytes
    (order : ByteOrder)
    (width : Nat)
    (n : Nat) :
    (order.bytes width n).length = width := by
  cases order <;> simp [bytes]

/-- The bytes of `n` hold what `width` digits can show of it. -/
theorem littleValue_littleBytes
    (width : Nat)
    (n : Nat) :
    littleValue (littleBytes width n) = n % 256 ^ width := by
  induction width generalizing n with
  | zero =>
      simp [littleBytes, Nat.mod_one]
  | succ width ih =>
      have hdigit : (UInt8.ofNat (n % 256)).toNat = n % 256 := by
        rw [UInt8.toNat_ofNat']
        omega
      rw [littleBytes, littleValue_cons, hdigit, ih, Nat.pow_succ,
        Nat.mul_comm (256 ^ width), Nat.mod_mul]

/-- Bytes are the digits of the number that they hold. -/
theorem littleBytes_littleValue
    (raw : List UInt8) :
    littleBytes raw.length (littleValue raw) = raw := by
  induction raw with
  | nil =>
      rfl
  | cons byte rest ih =>
      have hbyte : byte.toNat < 256 := byte.toNat_lt
      have hlow : (byte.toNat + 256 * littleValue rest) % 256 = byte.toNat := by
        omega
      have hhigh : (byte.toNat + 256 * littleValue rest) / 256 = littleValue rest := by
        omega
      rw [List.length_cons, littleValue_cons, littleBytes, hlow, hhigh, ih,
        UInt8.ofNat_toNat]

/-- The most significant byte comes first where the least significant one comes last. -/
theorem bigValue_eq_littleValue_reverse
    (raw : List UInt8) :
    bigValue raw = littleValue raw.reverse := by
  induction raw using List.reverseRecOn with
  | nil =>
      rfl
  | append_singleton raw last ih =>
      rw [List.reverse_append, List.reverse_singleton, List.singleton_append,
        littleValue_cons, ← ih]
      simp only [bigValue, List.foldl_append, List.foldl_cons, List.foldl_nil]
      omega

/-- A number of `n` bytes in either order is below `256 ^ n`. -/
theorem value_lt
    (order : ByteOrder)
    (raw : List UInt8) :
    order.value raw < 256 ^ raw.length := by
  cases order with
  | big =>
      rw [value, bigValue_eq_littleValue_reverse]
      simpa using littleValue_lt raw.reverse
  | little =>
      exact littleValue_lt raw

/-- Reading undoes writing. -/
theorem value_bytes
    (order : ByteOrder)
    (width : Nat)
    (n : Nat)
    (h : n < 256 ^ width) :
    order.value (order.bytes width n) = n := by
  cases order with
  | big =>
      rw [value, bytes, bigValue_eq_littleValue_reverse, List.reverse_reverse,
        littleValue_littleBytes, Nat.mod_eq_of_lt h]
  | little =>
      rw [value, bytes, littleValue_littleBytes, Nat.mod_eq_of_lt h]

/-- Writing undoes reading. -/
theorem bytes_value
    (order : ByteOrder)
    (raw : List UInt8) :
    order.bytes raw.length (order.value raw) = raw := by
  cases order with
  | big =>
      have h := littleBytes_littleValue raw.reverse
      rw [List.length_reverse] at h
      rw [value, bytes, bigValue_eq_littleValue_reverse, h, List.reverse_reverse]
  | little =>
      exact littleBytes_littleValue raw

end ByteOrder

/-! ## Signed numbers -/

/-- Whether an integer has a two's complement form of `width` bytes. -/
def FitsSigned
    (width : Nat)
    (x : Int) : Prop :=
  -2 ^ (8 * width - 1) ≤ x ∧ x < 2 ^ (8 * width - 1)

/-- The unsigned number that stands for an integer in `width` bytes. -/
def residue
    (width : Nat)
    (x : Int) : Nat :=
  (x % 2 ^ (8 * width)).toNat

/-- The range of unsigned numbers is twice that of the signed ones that are not negative. -/
theorem two_pow_eq_double
    {width : Nat}
    (h : 0 < width) :
    (2 : Int) ^ (8 * width) = 2 * 2 ^ (8 * width - 1) := by
  obtain ⟨w, rfl⟩ := Nat.exists_eq_succ_of_ne_zero h.ne'
  rw [← pow_succ', show 8 * (w + 1) - 1 + 1 = 8 * (w + 1) by omega]

/-- The two places where a power of 256 and a power of 2 meet. -/
theorem pow_256_eq
    (width : Nat) :
    256 ^ width = 2 ^ (8 * width) := by
  rw [Nat.pow_mul]

theorem residue_lt
    (width : Nat)
    (x : Int) :
    residue width x < 256 ^ width := by
  have hpos : (0 : Int) < 2 ^ (8 * width) := by positivity
  have hlt := Int.emod_lt_of_pos x hpos
  have hnonneg := Int.emod_nonneg x hpos.ne'
  rw [pow_256_eq, residue, Int.toNat_lt hnonneg]
  exact_mod_cast hlt

/-- An integer is read back from its residue. -/
theorem signedValue_residue
    {width : Nat}
    {x : Int}
    (hwidth : 0 < width)
    (h : FitsSigned width x) :
    signedValue width (residue width x) = x := by
  have hdouble := two_pow_eq_double hwidth
  have hcast : ((2 ^ (8 * width - 1) : Nat) : Int) = 2 ^ (8 * width - 1) := by
    push_cast
    rfl
  obtain ⟨hlow, hhigh⟩ := h
  rw [signedValue, residue]
  by_cases hsign : 0 ≤ x
  · have hmod : x % 2 ^ (8 * width) = x :=
      Int.emod_eq_of_lt hsign (by omega)
    rw [hmod, if_pos (by omega)]
    omega
  · have hmod : x % 2 ^ (8 * width) = x + 2 ^ (8 * width) := by
      rw [← Int.add_emod_right]
      exact Int.emod_eq_of_lt (by omega) (by omega)
    rw [hmod, if_neg (by omega)]
    omega

/-- Every unsigned number of `width` bytes is read as an integer that fits. -/
theorem fitsSigned_signedValue
    {width : Nat}
    {n : Nat}
    (hwidth : 0 < width)
    (h : n < 256 ^ width) :
    FitsSigned width (signedValue width n) := by
  have hdouble := two_pow_eq_double hwidth
  have hcast : ((2 ^ (8 * width - 1) : Nat) : Int) = 2 ^ (8 * width - 1) := by
    push_cast
    rfl
  have hn : (n : Int) < 2 ^ (8 * width) := by
    rw [pow_256_eq] at h
    exact_mod_cast h
  rw [FitsSigned, signedValue]
  split <;> omega

/-- The residue of what is read is what was stored. -/
theorem residue_signedValue
    {width : Nat}
    {n : Nat}
    (h : n < 256 ^ width) :
    residue width (signedValue width n) = n := by
  have hn : (n : Int) < 2 ^ (8 * width) := by
    rw [pow_256_eq] at h
    exact_mod_cast h
  have hmod : (n : Int) % 2 ^ (8 * width) = n :=
    Int.emod_eq_of_lt (by omega) hn
  rw [residue, signedValue]
  split
  · rw [hmod]
    omega
  · rw [Int.sub_emod_right, hmod]
    omega

end LuaBytecode
