import DocScript.Binary64

/-!
# Shortest decimal text

`Binary64.toText` writes a number with the fewest decimal digits that read back as the same number,
and of those the digits nearest to it. The text is always positional: there is no exponent, a whole
number has no point, and the sign of a zero is written.
-/

namespace DocScript

namespace Binary64

/-- The numbers that round to one positive finite number, in quarters of a unit: those between
`low` and `high`, the ends included when `closed`. -/
structure RoundingInterval where
  low : Nat
  value : Nat
  high : Nat
  closed : Bool

/-- A number is halfway from its two neighbours; the neighbour below is nearer by half when the
number starts a binade. An even significand takes both ties. -/
def roundingInterval (x : Binary64) : RoundingInterval :=
  let gap := 1 <<< x.binade
  let value := 4 * x.units
  let startsBinade := x.significand == 2 ^ 52 && 0 < x.binade
  { low := value - (if startsBinade then gap else 2 * gap)
    value
    high := value + 2 * gap
    closed := x.significand % 2 == 0 }

/-- Quarters of a unit in one. -/
def quartersOfOne : Nat := 4 <<< oneExponent

/-- `numerator / 10 ^ places` as a pair of natural numbers. -/
structure DecimalFraction where
  numerator : Nat
  places : Int

/-- Whether `numerator * 10 ^ (-places)`, counted in quarters of a unit, reads back. -/
def RoundingInterval.contains (interval : RoundingInterval) (decimal : DecimalFraction) : Bool :=
  let up := Nat.pow 10 (-decimal.places).toNat
  let down := Nat.pow 10 decimal.places.toNat
  let scaled := decimal.numerator * up * quartersOfOne
  let low := interval.low * down
  let high := interval.high * down
  if interval.closed then decide (low ≤ scaled ∧ scaled ≤ high)
  else decide (low < scaled ∧ scaled < high)

/-- The number of decimal digits of a natural number, at least one. -/
def decimalLength (n : Nat) : Nat := (Nat.toDigits 10 n).length

/-- The place of the leading digit: the value lies between `10 ^ (place - 1)` and `10 ^ place`. -/
def RoundingInterval.leadingPlace (interval : RoundingInterval) : Int :=
  (decimalLength (interval.value * 10 ^ 330 / quartersOfOne) : Int) - 330

/-- The decimal with `count` digits next to the value that reads back, if there is one: the nearer
one of the two neighbours, and the upper one if both are equally near. -/
def RoundingInterval.withDigits? (interval : RoundingInterval) (count : Nat) :
    Option DecimalFraction :=
  let places : Int := count - interval.leadingPlace
  let numerator := interval.value * Nat.pow 10 places.toNat
  let denominator := quartersOfOne * Nat.pow 10 (-places).toNat
  let below := numerator / denominator
  let remainder := numerator % denominator
  let lower : DecimalFraction := ⟨below, places⟩
  let upper : DecimalFraction := ⟨below + 1, places⟩
  if remainder = 0 then some lower
  else
    match interval.contains lower, interval.contains upper with
    | true, true => some (if 2 * remainder < denominator then lower else upper)
    | true, false => some lower
    | false, true => some upper
    | false, false => none

/-- The shortest decimal that reads back; seventeen digits always suffice. -/
def RoundingInterval.shortest (interval : RoundingInterval) : DecimalFraction :=
  ((List.range 17).findSome? fun count => interval.withDigits? (count + 1)).getD ⟨0, 0⟩

/-- Writes a decimal fraction without an exponent and without superfluous zeros. -/
def DecimalFraction.toText (decimal : DecimalFraction) : String :=
  let digits := Nat.toDigits 10 decimal.numerator
  if decimal.places ≤ 0 then
    String.ofList (digits ++ List.replicate (-decimal.places).toNat '0')
  else
    let places := decimal.places.toNat
    let padded := List.replicate (places + 1 - digits.length) '0' ++ digits
    let whole := padded.take (padded.length - places)
    let fraction := (padded.drop (padded.length - places)).reverse.dropWhile (· == '0')
    if fraction.isEmpty then String.ofList whole
    else String.ofList (whole ++ '.' :: fraction.reverse)

/-- The shortest text that reads back as the number. -/
def toText (x : Binary64) : String :=
  if x.isNaN then "NaN"
  else
    let sign := if x.isNegative then "-" else ""
    if x.isInfinite then sign ++ "inf"
    else if x.isZero then sign ++ "0"
    else sign ++ x.roundingInterval.shortest.toText

end Binary64

end DocScript
