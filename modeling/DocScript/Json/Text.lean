import DocScript.Json.Cursor

/-!
# JSON strings

Reads the part of a string behind its opening quote. A character outside the basic plane may be
written as a surrogate pair of two escapes.
-/

namespace DocScript.Json

/-- The value of a hexadecimal digit. -/
def hexDigit? (c : Char) : Option Nat :=
  if c.isDigit then some (c.toNat - '0'.toNat)
  else if 'a' ≤ c ∧ c ≤ 'f' then some (c.toNat - 'a'.toNat + 10)
  else if 'A' ≤ c ∧ c ≤ 'F' then some (c.toNat - 'A'.toNat + 10)
  else none

/-- Reads four hexadecimal digits. Four bytes count as read even if they are not digits. -/
def readHex (cursor : Cursor) : Except ReadError (Nat × Cursor) :=
  let bytes := Cursor.bytesUpTo 4 cursor.rest
  if bytes < 4 then .error ⟨.endInString, cursor.offset + bytes⟩
  else
    match (cursor.rest.take 4).mapM hexDigit? with
    | some digits =>
        .ok (digits.foldl (fun value digit => 16 * value + digit) 0,
          ⟨cursor.rest.drop 4, cursor.offset + 4⟩)
    | none => .error ⟨.invalidEscape, cursor.offset + 4⟩

def isHighSurrogate (unit : Nat) : Bool := 0xd800 ≤ unit && unit ≤ 0xdbff

def isLowSurrogate (unit : Nat) : Bool := 0xdc00 ≤ unit && unit ≤ 0xdfff

/-- Reads the second half of a surrogate pair. -/
def readLowSurrogate (high : Nat) (cursor : Cursor) : Except ReadError (Char × Cursor) :=
  match cursor.rest with
  | '\\' :: rest =>
      let cursor := cursor.past '\\' rest
      match cursor.rest with
      | 'u' :: rest => do
          let (low, cursor) ← readHex (cursor.past 'u' rest)
          if isLowSurrogate low then
            .ok (Char.ofNat (0x10000 + (high - 0xd800) * 0x400 + (low - 0xdc00)), cursor)
          else cursor.failHere .loneSurrogate
      | [] => cursor.failHere .endInString
      | _ => cursor.failNext .endOfSurrogatePair
  | [] => cursor.failHere .endInString
  | _ => cursor.failNext .endOfSurrogatePair

/-- Reads the four digits of a `u` escape, and the second half of a pair if they begin one. -/
def readUnicode (cursor : Cursor) : Except ReadError (Char × Cursor) := do
  let (unit, cursor) ← readHex cursor
  if isLowSurrogate unit then cursor.failHere .loneSurrogate
  else if isHighSurrogate unit then readLowSurrogate unit cursor
  else .ok (Char.ofNat unit, cursor)

/-- Reads an escape behind its backslash. -/
def readEscape (cursor : Cursor) : Except ReadError (Char × Cursor) :=
  match cursor.rest with
  | [] => cursor.failHere .endInString
  | c :: rest =>
      let plain (value : Char) : Except ReadError (Char × Cursor) :=
        .ok (value, cursor.past c rest)
      match c with
      | '"' => plain '"'
      | '\\' => plain '\\'
      | '/' => plain '/'
      | 'b' => plain '\x08'
      | 'f' => plain '\x0c'
      | 'n' => plain '\n'
      | 'r' => plain '\r'
      | 't' => plain '\t'
      | 'u' => readUnicode (cursor.past c rest)
      | _ => cursor.failNext .invalidEscape

/-- Reads up to the closing quote; `done` holds the characters read so far, the last one first.
Each step reads a character, so any fuel above the number of unread characters is enough. -/
def readCharacters (fuel : Nat) (done : List Char) (cursor : Cursor) :
    Except ReadError (String × Cursor) :=
  match fuel with
  | 0 => cursor.failHere .endInString
  | fuel + 1 =>
      match cursor.rest with
      | [] => cursor.failHere .endInString
      | c :: rest =>
          if c = '"' then .ok (String.ofList done.reverse, cursor.past c rest)
          else if c = '\\' then
            match readEscape (cursor.past c rest) with
            | .ok (value, cursor) => readCharacters fuel (value :: done) cursor
            | .error e => .error e
          else if c.toNat < 0x20 then cursor.failNext .controlCharacter
          else readCharacters fuel (c :: done) (cursor.past c rest)

/-- Reads a string behind its opening quote. -/
def readString (fuel : Nat) (cursor : Cursor) : Except ReadError (String × Cursor) :=
  readCharacters fuel [] cursor

end DocScript.Json
