import DocScript.Json.Number
import DocScript.Json.Text

/-!
# JSON reader

`Json.parse` reads a text that holds one JSON value, and of a text with errors reports the first.
The reader of one level takes the reader of the levels below it as an argument; `readValue` ties the
knot over the number of brackets that may still be opened. Within a level the readers of strings,
arrays and objects go round at most once for each unread character; `limit` is a number above that
of all characters of the text, and so enough for each of them.
-/

namespace DocScript.Json

/-- Reads one value at the cursor. -/
abbrev ValueReader := Cursor → Except ReadError (Json × Cursor)

/-- Reads the items of an array up to its bracket, the cursor standing at an item. -/
def readItems (item : ValueReader) (fuel : Nat) (done : List Json) (cursor : Cursor) :
    Except ReadError (Json × Cursor) :=
  match fuel with
  | 0 => cursor.failNext .endInList
  | fuel + 1 => do
      let (value, cursor) ← item cursor
      let cursor := cursor.skipSpace
      match cursor.rest with
      | ']' :: rest => .ok (.array (value :: done).reverse, cursor.past ']' rest)
      | ',' :: rest =>
          let cursor := (cursor.past ',' rest).skipSpace
          match cursor.rest with
          | [] => cursor.failNext .endInValue
          | ']' :: _ => cursor.failNext .trailingComma
          | _ => readItems item fuel (value :: done) cursor
      | [] => cursor.failNext .endInList
      | _ => cursor.failNext .expectedListSeparator

/-- Reads an array behind its opening bracket. -/
def readArray (limit : Nat) (item : ValueReader) (cursor : Cursor) : Except ReadError (Json × Cursor) :=
  let cursor := cursor.skipSpace
  match cursor.rest with
  | ']' :: rest => .ok (.array [], cursor.past ']' rest)
  | [] => cursor.failNext .endInList
  | _ => readItems item limit [] cursor

/-- Reads a member behind the opening quote of its key. -/
def readMember (limit : Nat) (item : ValueReader) (cursor : Cursor) :
    Except ReadError ((String × Json) × Cursor) := do
  let (key, cursor) ← readString limit cursor
  let cursor := cursor.skipSpace
  match cursor.rest with
  | ':' :: rest => do
      let (value, cursor) ← item (cursor.past ':' rest)
      .ok ((key, value), cursor)
  | [] => cursor.failNext .endInObject
  | _ => cursor.failNext .expectedColon

/-- Reads the members of an object up to its brace, the cursor standing behind the opening quote of
a key. -/
def readMembers (limit : Nat) (item : ValueReader) (fuel : Nat) (done : List (String × Json))
    (cursor : Cursor) : Except ReadError (Json × Cursor) :=
  match fuel with
  | 0 => cursor.failNext .endInObject
  | fuel + 1 => do
      let (member, cursor) ← readMember limit item cursor
      let cursor := cursor.skipSpace
      match cursor.rest with
      | '}' :: rest => .ok (ofMembers (member :: done).reverse, cursor.past '}' rest)
      | ',' :: rest =>
          let cursor := (cursor.past ',' rest).skipSpace
          match cursor.rest with
          | [] => cursor.failNext .endInValue
          | '"' :: rest => readMembers limit item fuel (member :: done) (cursor.past '"' rest)
          | '}' :: _ => cursor.failNext .trailingComma
          | _ => cursor.failNext .keyNotString
      | [] => cursor.failNext .endInObject
      | _ => cursor.failNext .expectedObjectSeparator

/-- Reads an object behind its opening brace. -/
def readObject (limit : Nat) (item : ValueReader) (cursor : Cursor) : Except ReadError (Json × Cursor) :=
  let cursor := cursor.skipSpace
  match cursor.rest with
  | '}' :: rest => .ok (.object [], cursor.past '}' rest)
  | '"' :: rest => readMembers limit item limit [] (cursor.past '"' rest)
  | [] => cursor.failNext .endInObject
  | _ => cursor.failNext .keyNotString

/-- Reads a value whose arrays and objects hold what `nested` reads; without `nested` no bracket
may be opened. -/
def readOneLevel (limit : Nat) (nested : Option ValueReader) : ValueReader := fun cursor =>
  let cursor := cursor.skipSpace
  match cursor.rest with
  | [] => cursor.failNext .endInValue
  | c :: rest =>
      let behind := cursor.past c rest
      match c with
      | 'n' => do
          let cursor ← behind.expectLetters ['u', 'l', 'l']
          .ok (.null, cursor)
      | 't' => do
          let cursor ← behind.expectLetters ['r', 'u', 'e']
          .ok (.bool true, cursor)
      | 'f' => do
          let cursor ← behind.expectLetters ['a', 'l', 's', 'e']
          .ok (.bool false, cursor)
      | '"' => do
          let (value, cursor) ← readString limit behind
          .ok (.string value, cursor)
      | '[' =>
          match nested with
          | some item => readArray limit item behind
          | none => cursor.failNext .tooDeep
      | '{' =>
          match nested with
          | some item => readObject limit item behind
          | none => cursor.failNext .tooDeep
      | _ => if c = '-' ∨ c.isDigit then readNumber cursor else cursor.failNext .expectedValue

/-- Reads a value in which at most `depth` brackets are open at once. -/
def readValue (limit : Nat) : (depth : Nat) → ValueReader
  | 0 => readOneLevel limit none
  | depth + 1 => readOneLevel limit (some (readValue limit depth))

/-- The brackets that may be open at once. -/
def depthLimit : Nat := 127

/-- Reads a text that holds exactly one value. -/
def parse (text : String) : Except ReadError Json := do
  let (value, cursor) ← readValue (text.length + 1) depthLimit (Cursor.start text)
  let cursor := cursor.skipSpace
  if cursor.rest.isEmpty then .ok value else cursor.failNext .trailingCharacters

end DocScript.Json
