/-!
# Paths into a document

A path names a value of a document by the keys and positions that lead to it, as in
`functions[0].body[2].let`. It is plain text: a key is written as it stands, so a key that holds a
point or a bracket makes paths that read in more than one way.
-/

namespace DocScript

/-- The path of a value in a document; the root has the empty path. -/
structure SourcePath where
  text : String
  deriving DecidableEq, Inhabited, Repr

namespace SourcePath

def root : SourcePath := ⟨""⟩

/-- The path of the member with the given key. -/
def member (path : SourcePath) (key : String) : SourcePath :=
  if path.text.isEmpty then ⟨key⟩ else ⟨path.text ++ "." ++ key⟩

/-- The path of the element at the given position. -/
def element (path : SourcePath) (position : Nat) : SourcePath :=
  ⟨path.text ++ "[" ++ toString position ++ "]"⟩

/-- Cuts the last segment off a path that is written backwards: back to the last opening bracket if
the path ends with a closing one, otherwise back to the last point. -/
def cutReversed (reversed : List Char) : List Char :=
  let beforeBracket :=
    match reversed with
    | ']' :: rest => rest.dropWhile (· != '[')
    | _ => []
  if beforeBracket.isEmpty then (reversed.dropWhile (· != '.')).drop 1
  else beforeBracket.drop 1

/-- The path without its last segment. -/
def parent (path : SourcePath) : SourcePath :=
  ⟨String.ofList (cutReversed path.text.toList.reverse).reverse⟩

end SourcePath

end DocScript
