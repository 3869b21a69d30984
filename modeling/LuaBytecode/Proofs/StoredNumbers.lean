import LuaBytecode.Double
import Mathlib.Tactic

/-!
# The values of stored floating-point numbers

A binary format divides its bits into a sign, an exponent and a fraction.  The
greatest exponent marks infinities and what is not a number, exponent 0 the
subnormal numbers.  Every other finite number is the fraction behind a leading
one, scaled by a power of two.

**Results.**
* `Double.value_injective`: a `Double` is determined by its value.
* `Double.value_ofBits`, `Double.value_ofSingleBits`: a `Double` made from the
  bits of either format has the value that the format gives to them.
-/

namespace LuaBytecode

/-- What a floating-point number stands for; zero keeps its sign. -/
inductive FloatValue where
  | nan
  | infinite (negative : Bool)
  | finite (negative : Bool) (size : ℚ)

/-- The division of the bits of a number below its sign. -/
structure FloatFormat where
  fractionBits : Nat
  exponentBits : Nat

namespace FloatFormat

/-- The format of 32 bits. -/
def single : FloatFormat := ⟨23, 8⟩

/-- The format of 64 bits. -/
def double : FloatFormat := ⟨52, 11⟩

variable (format : FloatFormat)

/-- The stored exponent of numbers between 1 and 2. -/
def bias : Nat :=
  2 ^ (format.exponentBits - 1) - 1

/-- The fraction field. -/
def fraction
    (bits : Nat) : Nat :=
  bits % 2 ^ format.fractionBits

/-- The exponent field. -/
def exponent
    (bits : Nat) : Nat :=
  bits / 2 ^ format.fractionBits % 2 ^ format.exponentBits

/-- The sign bit. -/
def negative
    (bits : Nat) : Bool :=
  bits / 2 ^ (format.fractionBits + format.exponentBits) % 2 == 1

/-- The weight of the last fraction bit under a stored exponent. -/
def unit
    (stored : Nat) : ℚ :=
  2 ^ ((stored : Int) - format.bias - format.fractionBits)

/-- The value that the format gives to bits. -/
def value
    (bits : Nat) : FloatValue :=
  if format.exponent bits = 2 ^ format.exponentBits - 1 then
    if format.fraction bits = 0 then
      .infinite (format.negative bits)
    else
      .nan
  else if format.exponent bits = 0 then
    .finite (format.negative bits) (format.fraction bits * format.unit 1)
  else
    .finite (format.negative bits)
      ((2 ^ format.fractionBits + format.fraction bits : Nat) *
        format.unit (format.exponent bits))

end FloatFormat

namespace Double

/-- The rational number for which a finite magnitude stands. -/
def size
    (magnitude : Nat) : ℚ :=
  significand magnitude * 2 ^ exponent magnitude

/-- What a `Double` stands for. -/
def value :
    Double → FloatValue
  | .nan => .nan
  | .infinite negative => .infinite negative
  | .finite negative magnitude => .finite negative (size magnitude)

/-! ## Magnitudes are ordered as their values -/

/-- A finite magnitude as a multiple of the least positive number. -/
def multiple
    (magnitude : Nat) : Nat :=
  if magnitude < 2 ^ 52 then
    magnitude
  else
    (2 ^ 52 + magnitude % 2 ^ 52) * 2 ^ (magnitude / 2 ^ 52 - 1)

/-- The least positive number measures all finite ones. -/
theorem size_eq_multiple
    (magnitude : Nat) :
    size magnitude = multiple magnitude * 2 ^ (-1074 : Int) := by
  by_cases h : magnitude < 2 ^ 52
  · simp only [size, significand, exponent, multiple, if_pos h]
  · have hexponent :
        ((magnitude / 2 ^ 52 : Nat) : Int) - 1075 =
          ((magnitude / 2 ^ 52 - 1 : Nat) : Int) + (-1074) := by
      omega
    simp only [size, significand, exponent, multiple, if_neg h]
    rw [hexponent, zpow_add₀ two_ne_zero, zpow_natCast, Nat.cast_mul, Nat.cast_pow,
      Nat.cast_ofNat, mul_assoc]

/-- A normal magnitude lies in the binade of its exponent field. -/
theorem multiple_binade
    {magnitude : Nat}
    (h : 2 ^ 52 ≤ magnitude) :
    2 ^ 52 * 2 ^ (magnitude / 2 ^ 52 - 1) ≤ multiple magnitude ∧
      multiple magnitude < 2 ^ 52 * 2 ^ (magnitude / 2 ^ 52) := by
  have hquotient : magnitude / 2 ^ 52 = magnitude / 2 ^ 52 - 1 + 1 := by
    omega
  have hpos : 0 < 2 ^ (magnitude / 2 ^ 52 - 1) := by positivity
  have hfraction : magnitude % 2 ^ 52 < 2 ^ 52 := by
    omega
  have htop :
      2 ^ 52 * 2 ^ (magnitude / 2 ^ 52) =
        (2 ^ 52 + 2 ^ 52) * 2 ^ (magnitude / 2 ^ 52 - 1) := by
    rw [hquotient, pow_succ, Nat.add_sub_cancel]
    ring
  rw [multiple, if_neg (Nat.not_lt.2 h), htop]
  constructor
  · exact Nat.mul_le_mul_right _ (Nat.le_add_right _ _)
  · exact Nat.mul_lt_mul_of_pos_right (Nat.add_lt_add_left hfraction _) hpos

theorem multiple_strictMono :
    StrictMono multiple := by
  intro m n hlt
  by_cases hn : n < 2 ^ 52
  · rw [multiple, multiple, if_pos (by omega), if_pos hn]
    exact hlt
  have hnormal := multiple_binade (Nat.not_lt.1 hn)
  by_cases hm : m < 2 ^ 52
  · have hone : 1 ≤ 2 ^ (n / 2 ^ 52 - 1) := Nat.one_le_two_pow
    calc
      multiple m = m := by rw [multiple, if_pos hm]
      _ < 2 ^ 52 * 2 ^ (n / 2 ^ 52 - 1) := by omega
      _ ≤ multiple n := hnormal.1
  · have hquotient : m / 2 ^ 52 ≤ n / 2 ^ 52 :=
      Nat.div_le_div_right hlt.le
    rcases hquotient.eq_or_lt with hsame | hless
    · rw [multiple, multiple, if_neg hm, if_neg hn, hsame]
      exact Nat.mul_lt_mul_of_pos_right (by omega) (by positivity)
    · have hpow : 2 ^ (m / 2 ^ 52) ≤ 2 ^ (n / 2 ^ 52 - 1) :=
        Nat.pow_le_pow_right two_pos (by omega)
      calc
        multiple m < 2 ^ 52 * 2 ^ (m / 2 ^ 52) := (multiple_binade (Nat.not_lt.1 hm)).2
        _ ≤ 2 ^ 52 * 2 ^ (n / 2 ^ 52 - 1) := Nat.mul_le_mul_left _ hpow
        _ ≤ multiple n := hnormal.1

theorem size_injective :
    Function.Injective size := by
  intro m n h
  rw [size_eq_multiple, size_eq_multiple] at h
  have hunit : (2 : ℚ) ^ (-1074 : Int) ≠ 0 := by positivity
  have hmultiple : (multiple m : ℚ) = multiple n := mul_right_cancel₀ hunit h
  exact multiple_strictMono.injective (by exact_mod_cast hmultiple)

/-- A number is determined by what it stands for. -/
theorem value_injective :
    Function.Injective value := by
  intro x y h
  cases x with
  | nan =>
      cases y <;> simp_all [value]
  | infinite a =>
      cases y <;> simp_all [value]
  | finite a m =>
      cases y with
      | nan =>
          simp [value] at h
      | infinite b =>
          simp [value] at h
      | finite b n =>
          simp only [value, FloatValue.finite.injEq] at h
          rw [h.1, Fin.ext (size_injective h.2)]

/-! ## Numbers made from bits -/

/-- A finite number is the fraction field behind its leading digit, scaled by the exponent. -/
theorem size_of_fields
    {stored fraction : Nat}
    (hfraction : fraction < 2 ^ 52) :
    size (stored * 2 ^ 52 + fraction) =
      if stored = 0 then
        fraction * FloatFormat.double.unit 1
      else
        (2 ^ 52 + fraction : Nat) * FloatFormat.double.unit stored := by
  have hbias : FloatFormat.double.bias = 1023 := rfl
  split
  · next hzero =>
      subst hzero
      rw [Nat.zero_mul, Nat.zero_add, size, significand, exponent, if_pos hfraction,
        if_pos hfraction, FloatFormat.unit, hbias]
      norm_num [FloatFormat.double]
  · next hpos =>
      have hnormal : ¬ stored * 2 ^ 52 + fraction < 2 ^ 52 := by
        omega
      have hlow : (stored * 2 ^ 52 + fraction) % 2 ^ 52 = fraction := by
        omega
      have hhigh : (stored * 2 ^ 52 + fraction) / 2 ^ 52 = stored := by
        omega
      have hexponent : (stored : Int) - 1075 = stored - (1023 : Nat) - (52 : Nat) := by
        omega
      rw [size, significand, exponent, if_neg hnormal, if_neg hnormal, hlow, hhigh,
        hexponent, FloatFormat.unit, hbias, FloatFormat.double]

theorem value_ofMagnitude
    {negative : Bool}
    {magnitude : Nat}
    (h : magnitude < infinityBits) :
    (ofMagnitude negative magnitude).value = .finite negative (size magnitude) := by
  rw [ofMagnitude, dif_pos (by exact h), value]

theorem value_ofMagnitude_infinityBits
    (negative : Bool) :
    (ofMagnitude negative infinityBits).value = .infinite negative := by
  rw [ofMagnitude, dif_neg (by decide), value]

/-- The number held by 64 bits has the value of the 64-bit format. -/
theorem value_ofBits
    (bits : Nat) :
    (ofBits bits).value = FloatFormat.double.value bits := by
  have hfraction : FloatFormat.double.fraction bits < 2 ^ 52 :=
    Nat.mod_lt _ (by positivity)
  have hexponent : FloatFormat.double.exponent bits < 2 ^ 11 :=
    Nat.mod_lt _ (by positivity)
  have hmagnitude :
      bits % 2 ^ 63 =
        FloatFormat.double.exponent bits * 2 ^ 52 + FloatFormat.double.fraction bits := by
    simp only [FloatFormat.double, FloatFormat.exponent, FloatFormat.fraction]
    omega
  have hsign : (bits / 2 ^ 63 % 2 == 1) = FloatFormat.double.negative bits := rfl
  have hgreatest : 2 ^ FloatFormat.double.exponentBits - 1 = 2047 := rfl
  rw [ofBits, FloatFormat.value, hmagnitude, hsign, hgreatest]
  generalize FloatFormat.double.exponent bits = stored at *
  generalize FloatFormat.double.fraction bits = fraction at *
  by_cases hspecial : stored = 2047
  · subst hspecial
    by_cases hzero : fraction = 0
    · subst hzero
      rw [if_neg (by decide), if_pos rfl, if_pos rfl]
      exact value_ofMagnitude_infinityBits _
    · rw [if_pos (by unfold infinityBits; omega), if_pos rfl, if_neg hzero, value]
  · have hfinite : stored * 2 ^ 52 + fraction < infinityBits := by
      unfold infinityBits
      omega
    rw [if_neg (Nat.lt_asymm hfinite), if_neg hspecial, value_ofMagnitude hfinite,
      size_of_fields hfraction]
    split <;> rfl

/-- A subnormal number of the short format, whose leading digit becomes the hidden one. -/
theorem widenedMagnitude_subnormal
    {fraction : Nat}
    (hpos : fraction ≠ 0)
    (hfraction : fraction < 2 ^ 23) :
    ∃ place rest,
      place < 23 ∧
      rest < 2 ^ 52 ∧
      2 ^ 52 + rest = fraction * 2 ^ (52 - place) ∧
      widenedMagnitude fraction = (place + 874) * 2 ^ 52 + rest := by
  have hlow : 2 ^ Nat.log2 fraction ≤ fraction := Nat.log2_self_le hpos
  have hhigh : fraction < 2 ^ (Nat.log2 fraction + 1) := Nat.lt_log2_self
  have hplace : Nat.log2 fraction < 23 := (Nat.log2_lt hpos).2 hfraction
  have hsplit : 2 ^ Nat.log2 fraction * 2 ^ (52 - Nat.log2 fraction) = 2 ^ 52 := by
    rw [← pow_add, Nat.add_sub_of_le (by omega)]
  have hleast : 2 ^ 52 ≤ fraction * 2 ^ (52 - Nat.log2 fraction) := by
    rw [← hsplit]
    exact Nat.mul_le_mul_right _ hlow
  have hmost : fraction * 2 ^ (52 - Nat.log2 fraction) < 2 * 2 ^ 52 := by
    rw [← hsplit, ← mul_assoc, ← pow_succ']
    exact Nat.mul_lt_mul_of_pos_right hhigh (by positivity)
  refine ⟨Nat.log2 fraction, fraction * 2 ^ (52 - Nat.log2 fraction) - 2 ^ 52,
    hplace, ?_, ?_, ?_⟩
  · omega
  · omega
  · rw [widenedMagnitude, if_neg hpos, if_pos hfraction]
    omega

/-- Widening keeps the number for which the bits stand. -/
theorem size_widenedMagnitude
    {stored fraction : Nat}
    (hfraction : fraction < 2 ^ 23) :
    size (widenedMagnitude (stored * 2 ^ 23 + fraction)) =
      if stored = 0 then
        fraction * FloatFormat.single.unit 1
      else
        (2 ^ 23 + fraction : Nat) * FloatFormat.single.unit stored := by
  have hsingle : FloatFormat.single.bias = 127 := rfl
  have hdouble : FloatFormat.double.bias = 1023 := rfl
  split
  · next hzero =>
      subst hzero
      rw [Nat.zero_mul, Nat.zero_add]
      by_cases hpos : fraction = 0
      · subst hpos
        simp [widenedMagnitude, size, significand]
      · obtain ⟨place, rest, hplace, hrest, hvalue, hwidened⟩ :=
          widenedMagnitude_subnormal hpos hfraction
        have hexponent :
            ((place + 874 : Nat) : Int) - (1023 : Nat) - (52 : Nat) =
              -((52 - place : Nat) : Int) + ((1 : Nat) - (127 : Nat) - (23 : Nat)) := by
          omega
        have hcancel : (2 : ℚ) ^ (52 - place) * 2 ^ (-((52 - place : Nat) : Int)) = 1 := by
          rw [zpow_neg, zpow_natCast]
          exact mul_inv_cancel₀ (by positivity)
        rw [hwidened, size_of_fields hrest, if_neg (by omega), hvalue, FloatFormat.unit,
          FloatFormat.unit, hsingle, hdouble]
        simp only [FloatFormat.single, FloatFormat.double]
        rw [hexponent, zpow_add₀ two_ne_zero, Nat.cast_mul, Nat.cast_pow, Nat.cast_ofNat,
          mul_assoc, ← mul_assoc (2 ^ (52 - place) : ℚ), hcancel, one_mul]
  · next hpos =>
      have hwidened :
          widenedMagnitude (stored * 2 ^ 23 + fraction) =
            (stored + 896) * 2 ^ 52 + fraction * 2 ^ 29 := by
        rw [widenedMagnitude, if_neg (by omega), if_neg (by omega)]
        omega
      have hexponent :
          ((stored + 896 : Nat) : Int) - (1023 : Nat) - (52 : Nat) =
            -29 + (stored - (127 : Nat) - (23 : Nat)) := by
        omega
      rw [hwidened, size_of_fields (by omega), if_neg (by omega), FloatFormat.unit,
        FloatFormat.unit, hsingle, hdouble]
      simp only [FloatFormat.single, FloatFormat.double]
      rw [hexponent, zpow_add₀ two_ne_zero]
      push_cast
      ring

/-- What is widened stays finite. -/
theorem widenedMagnitude_lt
    {single : Nat}
    (h : single < 0x7F800000) :
    widenedMagnitude single < infinityBits := by
  by_cases hzero : single = 0
  · rw [widenedMagnitude, if_pos hzero]
    decide
  by_cases hsubnormal : single < 2 ^ 23
  · obtain ⟨place, rest, hplace, hrest, -, hwidened⟩ :=
      widenedMagnitude_subnormal hzero hsubnormal
    rw [hwidened, infinityBits]
    omega
  · rw [widenedMagnitude, if_neg hzero, if_neg hsubnormal, infinityBits]
    omega

/-- The number held by 32 bits has the value of the 32-bit format. -/
theorem value_ofSingleBits
    (bits : Nat) :
    (ofSingleBits bits).value = FloatFormat.single.value bits := by
  have hfraction : FloatFormat.single.fraction bits < 2 ^ 23 :=
    Nat.mod_lt _ (by positivity)
  have hexponent : FloatFormat.single.exponent bits < 2 ^ 8 :=
    Nat.mod_lt _ (by positivity)
  have hmagnitude :
      bits % 2 ^ 31 =
        FloatFormat.single.exponent bits * 2 ^ 23 + FloatFormat.single.fraction bits := by
    simp only [FloatFormat.single, FloatFormat.exponent, FloatFormat.fraction]
    omega
  have hsign : (bits / 2 ^ 31 % 2 == 1) = FloatFormat.single.negative bits := rfl
  have hgreatest : 2 ^ FloatFormat.single.exponentBits - 1 = 255 := rfl
  simp only [ofSingleBits, hsign]
  rw [FloatFormat.value, hmagnitude, hgreatest]
  generalize FloatFormat.single.exponent bits = stored at *
  generalize FloatFormat.single.fraction bits = fraction at *
  by_cases hspecial : stored = 255
  · subst hspecial
    by_cases hzero : fraction = 0
    · subst hzero
      rw [if_neg (by decide), if_pos (by decide), if_pos rfl, if_pos rfl, value]
    · rw [if_pos (by omega), if_pos rfl, if_neg hzero, value]
  · have hfinite : stored * 2 ^ 23 + fraction < 0x7F800000 := by
      omega
    rw [if_neg (Nat.lt_asymm hfinite), if_neg hfinite.ne, if_neg hspecial,
      value_ofMagnitude (widenedMagnitude_lt hfinite), size_widenedMagnitude hfraction]
    split <;> rfl

end Double
end LuaBytecode
