import DocScript.Json.Error

/-!
# Reading position

A cursor is the unread part of a text with the number of bytes before it. An error is reported
either after the bytes that were read, or one byte further, past the byte that is in the way.
-/

namespace DocScript.Json

/-- The unread characters and the number of bytes that were read. -/
structure Cursor where
  rest : List Char
  offset : Nat

namespace Cursor

/-- The start of a text. -/
def start (text : String) : Cursor := ⟨text.toList, 0⟩

/-- The cursor behind its first character `c`. -/
def past (cursor : Cursor) (c : Char) (rest : List Char) : Cursor :=
  ⟨rest, cursor.offset + c.utf8Size⟩

/-- An error after the bytes that were read. -/
def failHere (cursor : Cursor) (cause : ErrorCause) : Except ReadError α :=
  .error ⟨cause, cursor.offset⟩

/-- An error past the first byte of the unread part, or at the end if there is none. -/
def failNext (cursor : Cursor) (cause : ErrorCause) : Except ReadError α :=
  .error ⟨cause, if cursor.rest.isEmpty then cursor.offset else cursor.offset + 1⟩

/-- The characters that JSON allows between tokens. -/
def isSpace (c : Char) : Bool := c == ' ' || c == '\n' || c == '\t' || c == '\r'

/-- Skips the space before the next token. -/
def skipSpace (cursor : Cursor) : Cursor :=
  let space := cursor.rest.takeWhile isSpace
  ⟨cursor.rest.drop space.length, cursor.offset + space.length⟩

/-- The number of unread bytes, counted up to `limit`. -/
def bytesUpTo (limit : Nat) : List Char → Nat
  | [] => 0
  | c :: rest => if limit ≤ c.utf8Size then limit else c.utf8Size + bytesUpTo (limit - c.utf8Size) rest

/-- Reads the letters of a literal after its first one. A wrong byte counts as read. -/
def expectLetters (cursor : Cursor) : List Char → Except ReadError Cursor
  | [] => .ok cursor
  | letter :: letters =>
      match cursor.rest with
      | [] => cursor.failHere .endInValue
      | c :: rest =>
          if c = letter then (cursor.past c rest).expectLetters letters
          else cursor.failNext .expectedLiteral

end Cursor

end DocScript.Json
