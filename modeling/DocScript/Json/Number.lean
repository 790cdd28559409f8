import DocScript.Json
import DocScript.Json.Cursor

/-!
# JSON numbers

The digits of a number are gathered in a 64-bit significand and a decimal exponent. Integer digits
that no longer fit count in the exponent alone, and fraction digits that no longer fit are ignored.
A float is the significand times or divided by the nearest power of ten: it is rounded at each of
these steps, so it need not be the number nearest to its text.
-/

namespace DocScript.Json

/-- A significand of at most 64 bits with a decimal exponent. -/
structure Decimal where
  significand : Nat
  exponent : Int

/-- The value of a decimal digit. -/
def digitValue (c : Char) : Nat := c.toNat - '0'.toNat

/-- Appends a digit if the significand can take it. -/
def Decimal.append? (decimal : Decimal) (digit : Nat) : Option Nat :=
  let significand := 10 * decimal.significand + digit
  if significand < 2 ^ 64 then some significand else none

/-- Takes the digits of the integer part. From the first one that does not fit on, each of them
counts in the exponent. -/
def Decimal.integerDigits (decimal : Decimal) : List Char → Decimal
  | [] => decimal
  | c :: rest =>
      match decimal.append? (digitValue c) with
      | some significand => integerDigits { decimal with significand } rest
      | none => { decimal with exponent := decimal.exponent + (rest.length + 1) }

/-- Takes the digits of the fraction. From the first one that does not fit on they are ignored. -/
def Decimal.fractionDigits (decimal : Decimal) : List Char → Decimal
  | [] => decimal
  | c :: rest =>
      match decimal.append? (digitValue c) with
      | some significand => fractionDigits ⟨significand, decimal.exponent - 1⟩ rest
      | none => decimal

/-- The nearest double of a power of ten. -/
def powerOfTen (k : Nat) : Binary64 := Binary64.ofNat (Nat.pow 10 k)

/-- The largest power of ten that is a finite double. -/
def largestPower : Nat := 308

/-- `value * 10 ^ exponent`, or `none` if it is out of range. An exponent below the table is
approached in steps of the largest power. -/
def scale (value : Binary64) (exponent : Int) : Option Binary64 :=
  if exponent.natAbs ≤ largestPower then
    if 0 ≤ exponent then
      let scaled := value.mul (powerOfTen exponent.natAbs)
      if scaled.isInfinite then none else some scaled
    else some (value.div (powerOfTen exponent.natAbs))
  else if value.isZero then some value
  else if 0 ≤ exponent then none
  else scale (value.div (powerOfTen largestPower)) (exponent + largestPower)
termination_by (-exponent).toNat
decreasing_by
  simp only [largestPower] at *
  omega

/-- The range of a written exponent and of its sum with the exponent of the digits. -/
def exponentLimit : Nat := 2 ^ 31 - 1

/-- A written exponent: its value, or that it is beyond the limit, then with the cursor behind the
digit that passed it. -/
inductive WrittenExponent where
  | value (exponent : Nat) (cursor : Cursor)
  | beyond (cursor : Cursor)

/-- Reads the digits of an exponent after the first one. -/
def exponentDigits (value : Nat) (offset : Nat) : List Char → WrittenExponent
  | [] => .value value ⟨[], offset⟩
  | c :: rest =>
      if c.isDigit then
        let next := 10 * value + digitValue c
        if exponentLimit < next then .beyond ⟨rest, offset + 1⟩
        else exponentDigits next (offset + 1) rest
      else .value value ⟨c :: rest, offset⟩

/-- The float of a decimal, with its sign. -/
def Decimal.toFloat (decimal : Decimal) (negative : Bool) (cursor : Cursor) :
    Except ReadError (Json × Cursor) :=
  match scale (Binary64.ofNat decimal.significand) decimal.exponent with
  | some value => .ok (.float (if negative then value.neg else value), cursor)
  | none => cursor.failHere .numberOutOfRange

/-- Splits off the decimal digits at the cursor. -/
def Cursor.digits (cursor : Cursor) : List Char × Cursor :=
  let digits := cursor.rest.takeWhile Char.isDigit
  (digits, ⟨cursor.rest.drop digits.length, cursor.offset + digits.length⟩)

/-- Reads the exponent after its letter, then makes the float. -/
def readExponent (decimal : Decimal) (negative : Bool) (cursor : Cursor) :
    Except ReadError (Json × Cursor) :=
  let (down, cursor) :=
    match cursor.rest with
    | '+' :: rest => (false, cursor.past '+' rest)
    | '-' :: rest => (true, cursor.past '-' rest)
    | _ => (false, cursor)
  match cursor.rest with
  | [] => cursor.failHere .endInValue
  | c :: rest =>
      if c.isDigit then
        match exponentDigits (digitValue c) (cursor.offset + 1) rest with
        | .value exponent cursor =>
            let sum := decimal.exponent + (if down then -(exponent : Int) else exponent)
            let clamped := max (-(exponentLimit + 1 : Int)) (min sum exponentLimit)
            Decimal.toFloat { decimal with exponent := clamped } negative cursor
        | .beyond cursor =>
            if decimal.significand = 0 ∨ down then
              let cursor := cursor.digits.2
              .ok (.float (if negative then Binary64.zero.neg else Binary64.zero), cursor)
            else cursor.failHere .numberOutOfRange
      else cursor.failNext .invalidNumber

/-- Reads the fraction after its point, and an exponent if one follows. -/
def readFraction (decimal : Decimal) (negative : Bool) (cursor : Cursor) :
    Except ReadError (Json × Cursor) :=
  match cursor.digits with
  | ([], _) => cursor.failNext (if cursor.rest.isEmpty then .endInValue else .invalidNumber)
  | (digits, behind) =>
      let decimal := decimal.fractionDigits digits
      match behind.rest with
      | 'e' :: rest => readExponent decimal negative (behind.past 'e' rest)
      | 'E' :: rest => readExponent decimal negative (behind.past 'E' rest)
      | _ => decimal.toFloat negative behind

/-- A number without point and exponent: an integer if it fits, with a sign and 64 bits. -/
def wholeNumber (decimal : Decimal) (negative : Bool) (cursor : Cursor) :
    Except ReadError (Json × Cursor) :=
  let value : Int := if negative then -(decimal.significand : Int) else decimal.significand
  if decimal.exponent = 0 ∧ -(2 ^ 63) ≤ value ∧ value < 2 ^ 63 ∧ ¬(negative ∧ value = 0) then
    .ok (.int (Int64.ofInt value), cursor)
  else decimal.toFloat negative cursor

/-- Reads a number after its sign. The integer part has no leading zero. -/
def readUnsigned (negative : Bool) (cursor : Cursor) : Except ReadError (Json × Cursor) :=
  match cursor.digits with
  | ([], _) =>
      if cursor.rest.isEmpty then cursor.failHere .endInValue else cursor.failNext .invalidNumber
  | ('0' :: _ :: _, _) => .error ⟨.invalidNumber, cursor.offset + 2⟩
  | (digits, behind) =>
      let decimal := Decimal.integerDigits ⟨0, 0⟩ digits
      match behind.rest with
      | '.' :: rest => readFraction decimal negative (behind.past '.' rest)
      | 'e' :: rest => readExponent decimal negative (behind.past 'e' rest)
      | 'E' :: rest => readExponent decimal negative (behind.past 'E' rest)
      | _ => wholeNumber decimal negative behind

/-- Reads a number at its sign or first digit. -/
def readNumber (cursor : Cursor) : Except ReadError (Json × Cursor) :=
  match cursor.rest with
  | '-' :: rest => readUnsigned true (cursor.past '-' rest)
  | _ => readUnsigned false cursor

end DocScript.Json
