import DocScript.Text.Printable
import DocScript.Text.Digits

/-!
# Quoted text

`Text.quoted` writes a string between double quotes so that every character of it can be seen.
-/

namespace DocScript.Text

/-- One character between the quotes: the usual short escapes, the code point in hexadecimal for a
character that cannot be shown, and otherwise the character itself. -/
def quotedChar (c : Char) : String :=
  match c with
  | '\t' => "\\t"
  | '\n' => "\\n"
  | '\r' => "\\r"
  | '\x00' => "\\0"
  | '"' => "\\\""
  | '\\' => "\\\\"
  | c => if isPrintable c then c.toString else "\\u\x7b" ++ hex c.toNat ++ "\x7d"

/-- A string between double quotes. -/
def quoted (s : String) : String :=
  "\"" ++ String.join (s.toList.map quotedChar) ++ "\""

end DocScript.Text
