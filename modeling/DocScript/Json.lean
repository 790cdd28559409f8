import DocScript.Binary64

/-!
# JSON values

A number is an integer if it was written as one and fits 64 bits with a sign; every other number is
a float. The members of an object are kept in increasing order of their keys by code point, each
key once, so two objects with the same members are equal however they were written.
-/

namespace DocScript

/-- A JSON value. `object` lists its members in strictly increasing order of their keys. -/
inductive Json where
  | null
  | bool (value : Bool)
  | int (value : Int64)
  | float (value : Binary64)
  | string (value : String)
  | array (items : List Json)
  | object (members : List (String × Json))
  deriving Inhabited

namespace Json

/-- Puts a member in its place by key; a member of the same key is replaced. -/
def insertMember (key : String) (value : Json) : List (String × Json) → List (String × Json)
  | [] => [(key, value)]
  | (k, v) :: rest =>
      match compare key k with
      | .lt => (key, value) :: (k, v) :: rest
      | .eq => (key, value) :: rest
      | .gt => (k, v) :: insertMember key value rest

/-- The object with the given members; of members with one key the last one counts. -/
def ofMembers (members : List (String × Json)) : Json :=
  .object (members.foldl (fun done (key, value) => insertMember key value done) [])

/-- The member of an object with the given key. Any other value has no members. -/
def get? : Json → String → Option Json
  | .object members, key => members.lookup key
  | _, _ => none

def string? : Json → Option String
  | .string value => some value
  | _ => none

def array? : Json → Option (List Json)
  | .array items => some items
  | _ => none

def object? : Json → Option (List (String × Json))
  | .object members => some members
  | _ => none

end Json

end DocScript
