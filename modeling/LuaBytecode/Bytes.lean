/-!
# Numbers stored in bytes

A stored number is a list of bytes whose positional value, to base 256, counts
from its first or from its last byte.  A signed number of the same width is its
two's complement reading.

**Contents.**
* `ByteOrder.value`: the unsigned number held by a list of bytes.
* `signedValue`: the number in `[-2^(8w-1), 2^(8w-1))` that is congruent to an
  unsigned one modulo `2^(8w)`.
-/

namespace LuaBytecode

/-- Powers are those of the core library, also where there are others to choose from. -/
@[default_instance 20000]
instance (priority := 2000) corePower {α : Type} [NatPow α] : Pow α Nat := instPowNat

/-- Which end of a stored number comes first. -/
inductive ByteOrder where
  | big
  | little
  deriving DecidableEq

namespace ByteOrder

/-- The value of bytes whose least significant one comes first. -/
def littleValue :
    List UInt8 → Nat
  | [] => 0
  | byte :: rest => byte.toNat + 256 * littleValue rest

@[simp] theorem littleValue_nil :
    littleValue [] = 0 := rfl

@[simp] theorem littleValue_cons
    (byte : UInt8)
    (rest : List UInt8) :
    littleValue (byte :: rest) = byte.toNat + 256 * littleValue rest := rfl

/-- The value of bytes whose most significant one comes first. -/
def bigValue
    (bytes : List UInt8) : Nat :=
  bytes.foldl (fun total byte => 256 * total + byte.toNat) 0

/-- The unsigned number held by `bytes`. -/
def value :
    ByteOrder → List UInt8 → Nat
  | .big, bytes => bigValue bytes
  | .little, bytes => littleValue bytes

/-- A number of `n` bytes is below `256 ^ n`. -/
theorem littleValue_lt
    (bytes : List UInt8) :
    littleValue bytes < 256 ^ bytes.length := by
  induction bytes with
  | nil => simp
  | cons byte rest ih =>
      have hbyte : byte.toNat < 256 := byte.toNat_lt
      simp only [littleValue_cons, List.length_cons, Nat.pow_succ]
      omega

end ByteOrder

/-- The two's complement reading of an unsigned number of `width` bytes. -/
def signedValue
    (width : Nat)
    (unsigned : Nat) : Int :=
  if unsigned < 2 ^ (8 * width - 1) then
    unsigned
  else
    (unsigned : Int) - 2 ^ (8 * width)

end LuaBytecode
