import LuaBytecode.Double

/-!
# Numbers in JSON text

A numeral is an optional minus sign, a whole part without needless leading
zeros, and optionally a fraction and an exponent.

An integer is a numeral that has neither fraction nor exponent; a zero with a
minus sign is none.  As a binary number, a numeral is read in two roundings: its
leading digits are gathered in a word of 64 bits, the word is rounded, and the
result is multiplied or divided by the rounded power of ten that the other
digits and the exponent make up.

**Contents.**
* `Json.Numeral`, `Json.Numeral.ofText?`.
* `Json.Numeral.toInt?`, `Json.Numeral.toDouble?`.
-/

namespace LuaBytecode
namespace Json

/-- The parts of a number as it is written. -/
structure Numeral where
  negative : Bool
  whole : List Char
  fraction : Option (List Char)
  exponent : Option (Bool × List Char)
  deriving DecidableEq

namespace Numeral

/-- Splits digits from the front. -/
def digits
    (text : List Char) : List Char × List Char :=
  (text.takeWhile Char.isDigit, text.dropWhile Char.isDigit)

/-- A whole part has a digit, and its first is not 0 unless it is the only one. -/
def validWhole :
    List Char → Bool
  | [] => false
  | ['0'] => true
  | '0' :: _ => false
  | _ => true

/-- The exponent that makes up the rest of a numeral; its flag says that it is negative. -/
def exponentPart? :
    List Char → Option (Option (Bool × List Char))
  | [] => some none
  | mark :: rest =>
      if mark = 'e' ∨ mark = 'E' then
        let (negative, places) :=
          match rest with
          | '+' :: places => (false, places)
          | '-' :: places => (true, places)
          | places => (false, places)
        if places ≠ [] ∧ places.all Char.isDigit then
          some (some (negative, places))
        else
          none
      else
        none

/-- The fraction at the front of what follows a whole part, and what follows it. -/
def fractionPart? :
    List Char → Option (Option (List Char) × List Char)
  | '.' :: rest =>
      match digits rest with
      | ([], _) => none
      | (fraction, rest) => some (some fraction, rest)
  | rest => some (none, rest)

/-- The numeral that is written as the given text. -/
def ofText?
    (text : List Char) : Option Numeral := do
  let (negative, unsigned) :=
    match text with
    | '-' :: rest => (true, rest)
    | rest => (false, rest)
  let (whole, rest) := digits unsigned
  guard (validWhole whole)
  let (fraction, rest) ← fractionPart? rest
  let exponent ← exponentPart? rest
  return { negative, whole, fraction, exponent }

/-- The number that a list of digits stands for. -/
def digitsValue
    (text : List Char) : Nat :=
  Nat.ofDigitChars 10 text 0

/-- The integer that a numeral writes. -/
def toInt?
    (numeral : Numeral) : Option Int :=
  match numeral.fraction, numeral.exponent with
  | none, none =>
      let size := digitsValue numeral.whole
      if numeral.negative then
        if size = 0 then
          none
        else
          some (-(size : Int))
      else
        some size
  | _, _ => none

/-! ## Binary numbers -/

/-- Gathers digits as long as the word holds them; what does not fit is left over. -/
def gather
    (word : Nat) :
    List Char → Nat × List Char
  | [] => (word, [])
  | digit :: rest =>
      let next := 10 * word + (digit.toNat - '0'.toNat)
      if next < 2 ^ 64 then
        gather next rest
      else
        (word, digit :: rest)

/-- The word of leading digits of a numeral, and the power of ten that scales it. -/
def scaledWord
    (numeral : Numeral) : Nat × Int :=
  let (word, left) := gather 0 numeral.whole
  let fraction := numeral.fraction.getD []
  let (word, unused) := gather word fraction
  let places : Int := (left.length : Int) - (fraction.length - unused.length : Nat)
  let power : Int :=
    match numeral.exponent with
    | none => 0
    | some (true, digits) => -(digitsValue digits : Int)
    | some (false, digits) => digitsValue digits
  (word, places + power)

/-- The magnitude nearest to a power of ten. -/
def tenPower
    (power : Nat) : Nat :=
  Double.nearestMagnitude (10 ^ power) 1

/-- The magnitude nearest to the product of two finite ones. -/
def product
    (left : Nat)
    (right : Nat) : Nat :=
  let (a, b) := Double.ratio left
  let (c, d) := Double.ratio right
  Double.nearestMagnitude (a * c) (b * d)

/-- The magnitude nearest to the quotient of two finite ones. -/
def quotient
    (left : Nat)
    (right : Nat) : Nat :=
  let (a, b) := Double.ratio left
  let (c, d) := Double.ratio right
  Double.nearestMagnitude (a * d) (b * c)

/-- The greatest power of ten by which a magnitude is scaled at once. -/
def greatestPower : Nat := 308

/--
A magnitude scaled by a power of ten.  Beyond the greatest power nothing but
zero can grow, and to shrink takes two steps, after which nothing is left.
-/
def scaled
    (magnitude : Nat)
    (power : Int) : Nat :=
  if magnitude = 0 then
    0
  else
    match power with
    | .ofNat up =>
        if up ≤ greatestPower then
          product magnitude (tenPower up)
        else
          Double.infinityBits
    | .negSucc below =>
        let down := below + 1
        if down ≤ greatestPower then
          quotient magnitude (tenPower down)
        else if down ≤ 2 * greatestPower then
          quotient (quotient magnitude (tenPower greatestPower))
            (tenPower (down - greatestPower))
        else
          0

/-- The binary number that a numeral writes, unless it is past the finite ones. -/
def toDouble?
    (numeral : Numeral) : Option Double :=
  let (word, power) := scaledWord numeral
  let magnitude := scaled (Double.nearestMagnitude word 1) power
  if h : magnitude < 0x7FF0000000000000 then
    some (.finite numeral.negative ⟨magnitude, h⟩)
  else
    none

end Numeral
end Json
end LuaBytecode
