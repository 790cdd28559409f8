import DocScript.LittleEndian

/-!
# IEEE 754 double-precision numbers

A number is its 64-bit word, so the payload of a NaN and the sign of a zero are part of it. Every
finite magnitude is a whole number of *units* of `2 ^ -1074`; arithmetic is exact on units and is
then rounded once, to the nearest word and on a tie to the even one. An operation on a NaN returns
its first NaN operand made quiet, and an invalid operation returns `Binary64.invalid`.
-/

namespace DocScript

/-- A double-precision number. Equality is equality of words: it tells `0.0` from `-0.0` and one
NaN from another. The comparison of numbers is `Binary64.numEq`. -/
structure Binary64 where
  bits : UInt64
  deriving DecidableEq, Inhabited, Repr

namespace Binary64

/-! ### Words -/

/-- The word without its sign bit. Magnitudes are ordered as these numbers are. -/
def magnitude (x : Binary64) : Nat := x.bits.toNat % 2 ^ 63

/-- The sign bit is set; zeros and NaNs have a sign too. -/
def isNegative (x : Binary64) : Bool := decide (2 ^ 63 ≤ x.bits.toNat)

/-- The magnitude of infinity; every larger magnitude is a NaN. -/
def infiniteMagnitude : Nat := 2047 * 2 ^ 52

def isNaN (x : Binary64) : Bool := decide (infiniteMagnitude < x.magnitude)

def isInfinite (x : Binary64) : Bool := x.magnitude == infiniteMagnitude

def isZero (x : Binary64) : Bool := x.magnitude == 0

/-- The number with the given sign and magnitude. -/
def ofMagnitude (negative : Bool) (magnitude : Nat) : Binary64 :=
  ⟨((if negative then 2 ^ 63 else 0) + magnitude % 2 ^ 63).toUInt64⟩

def zero : Binary64 := ⟨0⟩

def infinity (negative : Bool) : Binary64 := ofMagnitude negative infiniteMagnitude

/-- The result of an invalid operation, such as `0 / 0`: a quiet NaN with the sign bit set. -/
def invalid : Binary64 := ⟨0xfff8000000000000⟩

/-- A NaN with its quiet bit set; sign and payload stay. -/
def quiet (x : Binary64) : Binary64 := ⟨x.bits ||| 0x8000000000000⟩

/-- Flips the sign bit, also of zeros and NaNs. -/
def neg (x : Binary64) : Binary64 := ⟨x.bits ^^^ 0x8000000000000000⟩

/-! ### Units -/

/-- The binade of a magnitude: its units are multiples of `2 ^ binade`. -/
def binade (x : Binary64) : Nat := x.magnitude / 2 ^ 52 - 1

/-- The 53-bit significand: a finite magnitude is `significand * 2 ^ binade` units. -/
def significand (x : Binary64) : Nat :=
  if x.magnitude < 2 ^ 52 then x.magnitude else 2 ^ 52 + x.magnitude % 2 ^ 52

/-- The magnitude in units of `2 ^ -1074`. -/
def units (x : Binary64) : Nat := x.significand <<< x.binade

/-- The value in units, with its sign. -/
def signedUnits (x : Binary64) : Int := if x.isNegative then -(x.units : Int) else x.units

/-- `n / 2 ^ k` rounded to the nearest natural number, on a tie to the even one. -/
def roundShift (n k : Nat) : Nat :=
  let quotient := n >>> k
  let twice := 2 * (n - quotient <<< k)
  if twice < 1 <<< k then quotient
  else if twice = 1 <<< k then quotient + quotient % 2
  else quotient + 1

/-- The word nearest to `n / 2 ^ base` units in a format with `fraction` fraction bits, before the
largest finite word is enforced. A carry out of the significand moves into the exponent by itself,
because the words of one binade follow those of the binade below. -/
def pack (fraction base n : Nat) : Nat :=
  let shift := max (n.log2 - fraction) base
  ((shift - base) <<< fraction) + roundShift n shift

/-- The number nearest to `n / 2 ^ base` units. -/
def ofScaledUnits (negative : Bool) (base n : Nat) : Binary64 :=
  ofMagnitude negative (min (pack 52 base n) infiniteMagnitude)

/-- The number nearest to `n` units. -/
def ofUnits (negative : Bool) (n : Nat) : Binary64 := ofScaledUnits negative 0 n

/-! ### Whole numbers -/

/-- One is `2 ^ 1074` units. -/
def oneExponent : Nat := 1074

/-- The number nearest to a natural number. -/
def ofNat (n : Nat) : Binary64 := ofUnits false (n <<< oneExponent)

/-- The number nearest to an integer. -/
def ofInt (n : Int) : Binary64 := ofUnits (decide (n < 0)) (n.natAbs <<< oneExponent)

def ofInt64 (n : Int64) : Binary64 := ofInt n.toInt

/-- The whole part, clamped to the range of 64-bit integers; a NaN gives zero. -/
def toInt64 (x : Binary64) : Int64 :=
  if x.isNaN then 0
  else
    let whole : Int := x.units >>> oneExponent
    Int64.ofInt (if x.isNegative then max (-whole) (-(2 ^ 63)) else min whole (2 ^ 63 - 1))

/-! ### Order -/

/-- Positions of the numbers on a line on which both zeros share one place. -/
def position (x : Binary64) : Int := if x.isNegative then -(x.magnitude : Int) else x.magnitude

/-- Numeric equality: the zeros are equal and a NaN equals nothing. -/
def numEq (x y : Binary64) : Bool := !x.isNaN && !y.isNaN && x.position == y.position

/-- Numeric order: false when either side is a NaN. -/
def lt (x y : Binary64) : Bool := !x.isNaN && !y.isNaN && decide (x.position < y.position)

/-! ### Arithmetic -/

/-- `value` unless an operand is a NaN, which then is the result. -/
def onNumbers (x y : Binary64) (value : Binary64) : Binary64 :=
  if x.isNaN then x.quiet else if y.isNaN then y.quiet else value

/-- The sum. An exact zero is negative only if both operands are. -/
def add (x y : Binary64) : Binary64 :=
  onNumbers x y <|
    if x.isInfinite then if y.isInfinite && x.isNegative != y.isNegative then invalid else x
    else if y.isInfinite then y
    else
      let sum := x.signedUnits + y.signedUnits
      if sum = 0 then ofMagnitude (x.isNegative && y.isNegative) 0
      else ofUnits (decide (sum < 0)) sum.natAbs

/-- The difference; a NaN subtrahend keeps its sign. -/
def sub (x y : Binary64) : Binary64 := onNumbers x y (x.add y.neg)

/-- The product. -/
def mul (x y : Binary64) : Binary64 :=
  let negative := x.isNegative != y.isNegative
  onNumbers x y <|
    if x.isInfinite || y.isInfinite then
      if x.isZero || y.isZero then invalid else infinity negative
    else ofScaledUnits negative oneExponent (x.units * y.units)

/-- The quotient. The division is carried 64 places past a unit, and a remainder is kept as one
more odd place, so the one rounding that follows sees on which side of a tie the quotient lies. -/
def div (x y : Binary64) : Binary64 :=
  let negative := x.isNegative != y.isNegative
  onNumbers x y <|
    if x.isInfinite then if y.isInfinite then invalid else infinity negative
    else if y.isInfinite then ofMagnitude negative 0
    else if y.isZero then if x.isZero then invalid else infinity negative
    else
      let dividend := x.units <<< (oneExponent + 64)
      let sticky := if dividend % y.units = 0 then 0 else 1
      ofScaledUnits negative 65 (2 * (dividend / y.units) + sticky)

/-- The remainder of the division truncated toward zero. It is exact and has the sign of the
dividend. -/
def rem (x y : Binary64) : Binary64 :=
  onNumbers x y <|
    if x.isInfinite || y.isZero then invalid
    else if y.isInfinite then x
    else ofUnits x.isNegative (x.units % y.units)

/-! ### Single precision -/

/-- A unit of the single-precision format, `2 ^ -149`, is `2 ^ 925` units. -/
def singleExponent : Nat := 925

/-- The word of the nearest single-precision number; a NaN keeps its sign and the upper part of
its payload and becomes quiet. -/
def toSingle (x : Binary64) : UInt32 :=
  let sign := if x.isNegative then 2 ^ 31 else 0
  let magnitude :=
    if x.isNaN then 0x7fc00000 ||| (x.magnitude >>> 29 % 2 ^ 23)
    else if x.isInfinite then 0x7f800000
    else min (pack 23 singleExponent x.units) 0x7f800000
  (sign + magnitude).toUInt32

/-- The value of a single-precision word, which is exact; a NaN becomes quiet. -/
def ofSingle (word : UInt32) : Binary64 :=
  let negative := decide (2 ^ 31 ≤ word.toNat)
  let magnitude := word.toNat % 2 ^ 31
  let field := magnitude >>> 23
  let fraction := magnitude % 2 ^ 23
  if field = 255 then
    if fraction = 0 then infinity negative
    else (ofMagnitude negative (infiniteMagnitude + fraction <<< 29)).quiet
  else if field = 0 then ofUnits negative (fraction <<< singleExponent)
  else ofUnits negative ((2 ^ 23 + fraction) <<< (field - 1 + singleExponent))

end Binary64

end DocScript
