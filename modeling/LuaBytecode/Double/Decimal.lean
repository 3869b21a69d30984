import LuaBytecode.Double

/-!
# Decimal text of a binary number

A finite number is written with the fewest digits that are rounded back to it.
For one digit, two digits and so on, the two points of the decimal grid around
the number are tried; the first grid with a point that is rounded back wins, and
of two such points the nearer one.  The layout of the digits, and the choice
between two points that are equally near, are the decisions of a `DecimalStyle`.

**Contents.**
* `Double.Decimal`: digits times a power of ten.
* `Double.shortest`: the decimal that is written for a finite magnitude.
* `DecimalStyle`: how a decimal is laid out; `DecimalStyle.plain` never uses an
  exponent, `DecimalStyle.scaled` does outside a fixed range.
-/

namespace LuaBytecode
namespace Double

/-- The number `digits * 10 ^ exponent`. -/
structure Decimal where
  digits : Nat
  exponent : Int
  deriving DecidableEq

/-- A decimal as a ratio of naturals. -/
def Decimal.ratio
    (decimal : Decimal) : Nat × Nat :=
  (decimal.digits * 10 ^ decimal.exponent.toNat,
    10 ^ (-decimal.exponent).toNat)

/-- Whether a decimal is rounded to the given finite magnitude. -/
def Decimal.readsBack
    (decimal : Decimal)
    (magnitude : Nat) : Bool :=
  nearestMagnitude decimal.ratio.1 decimal.ratio.2 == magnitude

/-- The decimal that equals a finite magnitude. -/
def exactDecimal
    (magnitude : Nat) : Decimal :=
  match exponent magnitude with
  | .ofNat scale => ⟨significand magnitude * 2 ^ scale, 0⟩
  | .negSucc below => ⟨significand magnitude * 5 ^ (below + 1), .negSucc below⟩

/-- Which of two decimals is taken when both are equally near. -/
inductive Tie where
  | toEven
  | up
  deriving DecidableEq

/--
The point of the grid of `10 ^ drop` units of `exact` that is rounded back to
`magnitude`, if there is one next to the number.
-/
def gridPoint?
    (tie : Tie)
    (magnitude : Nat)
    (exact : Decimal)
    (drop : Nat) : Option Decimal :=
  let below := exact.digits / 10 ^ drop
  let lower : Decimal := ⟨below, exact.exponent + drop⟩
  let upper : Decimal := ⟨below + 1, exact.exponent + drop⟩
  match lower.readsBack magnitude, upper.readsBack magnitude with
  | false, false => none
  | true, false => some lower
  | false, true => some upper
  | true, true =>
      let middle := (2 * below + 1) * 10 ^ drop
      if 2 * exact.digits < middle then
        some lower
      else if middle < 2 * exact.digits then
        some upper
      else
        match tie with
        | .toEven => some (if below % 2 = 0 then lower else upper)
        | .up => some upper

/-- The decimal with the fewest digits that is rounded back to a finite magnitude. -/
def shortest
    (tie : Tie)
    (magnitude : Nat) : Decimal :=
  let exact := exactDecimal magnitude
  let length := (Nat.toDigits 10 exact.digits).length
  let found := (List.range' 1 17).findSome? fun count =>
    gridPoint? tie magnitude exact (length - count)
  found.getD exact

/-- The digits of a decimal without trailing zeros, and the power of ten of the last one kept. -/
def Decimal.trimmed
    (decimal : Decimal) : List Char × Int :=
  let digits := Nat.toDigits 10 decimal.digits
  let kept := (digits.reverse.dropWhile (· == '0')).reverse
  (kept, decimal.exponent + ((digits.length - kept.length : Nat) : Int))

end Double

/-- The layout of decimal text. -/
structure DecimalStyle where
  /-- Which of two equally near decimals is written. -/
  tie : Double.Tie
  /-- Whether a number whose leading digit has this power of ten is written without exponent. -/
  positional : Int → Bool
  /-- What follows the digits of a whole number that is written without exponent. -/
  wholeSuffix : List Char

namespace DecimalStyle

/-- Every number is written out with all its places, and a whole one as an integer. -/
def plain : DecimalStyle where
  tie := .up
  positional := fun _ => true
  wholeSuffix := []

/-- Numbers from `10 ^ -5` up to `10 ^ 16` are written out, the others with an exponent. -/
def scaled : DecimalStyle where
  tie := .toEven
  positional := fun power => -5 ≤ power && power ≤ 15
  wholeSuffix := ['.', '0']

/-- Digits whose last one has the power of ten `last`, written with all their places. -/
def positionalText
    (style : DecimalStyle)
    (digits : List Char)
    (last : Int) : List Char :=
  match last with
  | .ofNat zeros => digits ++ List.replicate zeros '0' ++ style.wholeSuffix
  | .negSucc below =>
      let places := below + 1
      if places < digits.length then
        digits.take (digits.length - places) ++ '.' :: digits.drop (digits.length - places)
      else
        '0' :: '.' :: List.replicate (places - digits.length) '0' ++ digits

/-- Digits with a point after the first one, followed by the power of ten of the first. -/
def exponentText
    (digits : List Char)
    (power : Int) : List Char :=
  let fraction :=
    match digits.drop 1 with
    | [] => []
    | rest => '.' :: rest
  let sign := if power < 0 then '-' else '+'
  digits.take 1 ++ fraction ++ 'e' :: sign :: Nat.toDigits 10 power.natAbs

/-- The text of a finite magnitude. -/
def magnitudeText
    (style : DecimalStyle)
    (magnitude : Nat) : List Char :=
  if magnitude = 0 then
    '0' :: style.wholeSuffix
  else
    let (digits, last) := (Double.shortest style.tie magnitude).trimmed
    let power := last + digits.length - 1
    if style.positional power then
      style.positionalText digits last
    else
      exponentText digits power

/-- The text of a finite number; a negative zero keeps its sign. -/
def finiteText
    (style : DecimalStyle)
    (negative : Bool)
    (magnitude : Nat) : String :=
  let text := style.magnitudeText magnitude
  String.ofList (if negative then '-' :: text else text)

end DecimalStyle

/-- A number as it stands in a listing or in pseudocode. -/
def Double.text :
    Double → String
  | .nan => "NaN"
  | .infinite negative => if negative then "-inf" else "inf"
  | .finite negative magnitude => DecimalStyle.plain.finiteText negative magnitude

end LuaBytecode
