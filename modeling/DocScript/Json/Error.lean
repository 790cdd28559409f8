/-!
# Errors of the JSON reader

An error is a cause and the number of bytes of the text before it. Its message gives the place as a
line and a column, both counted as JSON readers do: lines from one, columns in bytes of the line
that were read.
-/

namespace DocScript.Json

/-- Why a text is not a JSON value. -/
inductive ErrorCause where
  | endInValue
  | endInString
  | endInList
  | endInObject
  | expectedValue
  | expectedLiteral
  | expectedListSeparator
  | expectedObjectSeparator
  | expectedColon
  | trailingComma
  | trailingCharacters
  | keyNotString
  | invalidNumber
  | numberOutOfRange
  | invalidEscape
  | loneSurrogate
  | endOfSurrogatePair
  | controlCharacter
  | tooDeep
  deriving DecidableEq, Repr

def ErrorCause.message : ErrorCause → String
  | .endInValue => "EOF while parsing a value"
  | .endInString => "EOF while parsing a string"
  | .endInList => "EOF while parsing a list"
  | .endInObject => "EOF while parsing an object"
  | .expectedValue => "expected value"
  | .expectedLiteral => "expected ident"
  | .expectedListSeparator => "expected `,` or `]`"
  | .expectedObjectSeparator => "expected `,` or `\x7d`"
  | .expectedColon => "expected `:`"
  | .trailingComma => "trailing comma"
  | .trailingCharacters => "trailing characters"
  | .keyNotString => "key must be a string"
  | .invalidNumber => "invalid number"
  | .numberOutOfRange => "number out of range"
  | .invalidEscape => "invalid escape"
  | .loneSurrogate => "lone leading surrogate in hex escape"
  | .endOfSurrogatePair => "unexpected end of hex escape"
  | .controlCharacter =>
      "control character (\\u0000-\\u001F) found while parsing a string"
  | .tooDeep => "recursion limit exceeded"

/-- A cause with the number of bytes before the place it is reported at. -/
structure ReadError where
  cause : ErrorCause
  offset : Nat
  deriving DecidableEq, Repr

/-- A place in a text: a line, and the bytes of that line before the place. -/
structure Place where
  line : Nat
  column : Nat
  deriving DecidableEq, Repr

/-- Moves past the characters that start within the next `bytes` bytes. -/
def Place.advance (place : Place) (bytes : Nat) : List Char → Place
  | [] => place
  | c :: rest =>
      if bytes = 0 then place
      else if c = '\n' then Place.advance ⟨place.line + 1, 0⟩ (bytes - 1) rest
      else if bytes < c.utf8Size then ⟨place.line, place.column + bytes⟩
      else Place.advance ⟨place.line, place.column + c.utf8Size⟩ (bytes - c.utf8Size) rest

/-- The place after the first `offset` bytes of a text. -/
def Place.ofOffset (text : String) (offset : Nat) : Place :=
  Place.advance ⟨1, 0⟩ offset text.toList

/-- The message with its place in the text that was read. -/
def ReadError.message (e : ReadError) (text : String) : String :=
  let place := Place.ofOffset text e.offset
  s!"{e.cause.message} at line {place.line} column {place.column}"

end DocScript.Json
