/-!
# Numbers in text
-/

namespace DocScript.Text

/-- Hexadecimal digits in lower case, without leading zeros. -/
def hex (n : Nat) : String := String.ofList (Nat.toDigits 16 n)

/-- Pads digits with zeros on the left. -/
def padZeros (width : Nat) (digits : String) : String :=
  String.ofList (List.replicate (width - digits.length) '0') ++ digits

/-- A byte as two hexadecimal digits in upper case. -/
def byteHex (byte : UInt8) : String :=
  padZeros 2 (String.ofList ((Nat.toDigits 16 byte.toNat).map Char.toUpper))

end DocScript.Text
