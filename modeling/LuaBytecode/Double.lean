import LuaBytecode.Bytes

/-!
# Binary floating-point numbers

A `Double` is a number of the 64-bit binary interchange format: a sign and a
magnitude, an infinity, or not a number.  The magnitude is the pattern of the
low 63 bits read as a natural number, so magnitudes are ordered as the numbers
they stand for.  All patterns of a number that is none are one value.

A finite magnitude `g` stands for `significand g * 2 ^ exponent g`.

**Contents.**
* `Double.ofBits`, `Double.ofSingleBits`: the number held by 64 or 32 bits.
* `Double.nearestMagnitude`: a ratio of naturals rounded to the nearest number, a
  tie going to the even one.
* `Double.equal`: equality of numbers, for which zero has no sign and what is
  not a number equals nothing.
-/

namespace LuaBytecode

/-- A number of the 64-bit binary format. -/
inductive Double where
  | nan
  | infinite (negative : Bool)
  | finite (negative : Bool) (magnitude : Fin 0x7FF0000000000000)
  deriving DecidableEq

namespace Double

/-- The magnitude just above every finite one. -/
def infinityBits : Nat := 0x7FF0000000000000

/-- The integer that a finite magnitude scales. -/
def significand
    (magnitude : Nat) : Nat :=
  if magnitude < 2 ^ 52 then
    magnitude
  else
    2 ^ 52 + magnitude % 2 ^ 52

/-- The power of two by which a finite magnitude scales its significand. -/
def exponent
    (magnitude : Nat) : Int :=
  if magnitude < 2 ^ 52 then
    -1074
  else
    (magnitude / 2 ^ 52 : Nat) - 1075

/-- The number of a sign and a magnitude; every magnitude past the finite ones is infinite. -/
def ofMagnitude
    (negative : Bool)
    (magnitude : Nat) : Double :=
  if h : magnitude < 0x7FF0000000000000 then
    .finite negative ⟨magnitude, h⟩
  else
    .infinite negative

/-- The number held by 64 bits. -/
def ofBits
    (bits : Nat) : Double :=
  if infinityBits < bits % 2 ^ 63 then
    .nan
  else
    ofMagnitude (bits / 2 ^ 63 % 2 == 1) (bits % 2 ^ 63)

/-- The 64 bits of a number, the quiet pattern standing for all that are none. -/
def bits :
    Double → Nat
  | .nan => 0x7FF8000000000000
  | .infinite negative => negative.toNat * 2 ^ 63 + infinityBits
  | .finite negative magnitude => negative.toNat * 2 ^ 63 + magnitude

/--
The magnitude of the number whose 32-bit magnitude is `single`, finite or not.
A normal number keeps its fraction and moves its exponent to the wider bias; a
subnormal one becomes normal at the place of its leading bit.
-/
def widenedMagnitude
    (single : Nat) : Nat :=
  if single = 0 then
    0
  else if single < 2 ^ 23 then
    (Nat.log2 single + 873) * 2 ^ 52 + single * 2 ^ (52 - Nat.log2 single)
  else
    single * 2 ^ 29 + 896 * 2 ^ 52

/-- The number held by 32 bits, which every 64-bit number can hold exactly. -/
def ofSingleBits
    (bits : Nat) : Double :=
  let magnitude := bits % 2 ^ 31
  let negative := bits / 2 ^ 31 % 2 == 1
  if 0x7F800000 < magnitude then
    .nan
  else if magnitude = 0x7F800000 then
    .infinite negative
  else
    ofMagnitude negative (widenedMagnitude magnitude)

/-- Equality of numbers: zeros of both signs are equal, and what is not a number equals nothing. -/
def equal :
    Double → Double → Bool
  | .infinite a, .infinite b => a == b
  | .finite a m, .finite b n => m == n && (a == b || m.val == 0)
  | _, _ => false

/-! ## Rounding -/

/-- The natural number nearest to `num / den`; of two equally near ones, the even one. -/
def roundHalfEven
    (num : Nat)
    (den : Nat) : Nat :=
  let quotient := num / den
  let twice := 2 * (num % den)
  if twice < den then
    quotient
  else if den < twice then
    quotient + 1
  else
    quotient + quotient % 2

/-- The greatest `k` with `2 ^ k ≤ num / den`, for a positive ratio. -/
def ratioLog2
    (num : Nat)
    (den : Nat) : Int :=
  let gap : Int := (Nat.log2 num : Int) - Nat.log2 den
  if den * 2 ^ Nat.log2 num ≤ num * 2 ^ Nat.log2 den then
    gap
  else
    gap - 1

/-- The magnitude nearest to `num / den`, which may lie past the finite ones. -/
def nearestMagnitude
    (num : Nat)
    (den : Nat) : Nat :=
  if num = 0 then
    0
  else
    let scale := max (ratioLog2 num den - 52) (-1074)
    (scale + 1074).toNat * 2 ^ 52 +
      roundHalfEven (num * 2 ^ (-scale).toNat) (den * 2 ^ scale.toNat)

/-- A finite magnitude as a ratio of naturals. -/
def ratio
    (magnitude : Nat) : Nat × Nat :=
  (significand magnitude * 2 ^ (exponent magnitude).toNat,
    2 ^ (-exponent magnitude).toNat)

end Double
end LuaBytecode
