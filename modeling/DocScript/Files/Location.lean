/-!
# Locations of files

A location is kept as it was written. Its parts say where it leads: empty pieces and single dots
between the slashes lead nowhere, except that a location may begin at the root or with a dot.
-/

namespace DocScript

/-- A path to a file or a folder, as it was written. -/
structure Location where
  text : String
  deriving DecidableEq, Inhabited, Repr

/-- A part of a location. -/
inductive PathPart where
  | root
  | here
  | up
  | name (text : String)
  deriving DecidableEq, Inhabited, Repr

namespace PathPart

/-- The kinds of parts in their order. -/
def rank : PathPart → Nat
  | .root => 0
  | .here => 1
  | .up => 2
  | .name _ => 3

def text : PathPart → String
  | .name text => text
  | _ => ""

/-- Parts are ordered by kind, names by their characters. -/
def precedes (a b : PathPart) : Bool :=
  decide (a.rank < b.rank) || a.rank == b.rank && decide (a.text < b.text)

end PathPart

namespace Location

/-- What stands between the slashes; there is always one piece. -/
def splitSlashes : List Char → List (List Char)
  | [] => [[]]
  | '/' :: rest => [] :: splitSlashes rest
  | c :: rest =>
      match splitSlashes rest with
      | [] => [[c]]
      | piece :: others => (c :: piece) :: others

def pieces (location : Location) : List (List Char) := splitSlashes location.text.toList

/-- The part that a piece behind the first one stands for. -/
def partOfPiece? (piece : List Char) : Option PathPart :=
  if piece = [] ∨ piece = ['.'] then none
  else if piece = ['.', '.'] then some .up
  else some (.name (String.ofList piece))

def parts (location : Location) : List PathPart :=
  match location.pieces with
  | [] => []
  | first :: rest =>
      let start :=
        if first = [] ∧ rest ≠ [] then some .root
        else if first = ['.'] then some .here
        else partOfPiece? first
      start.toList ++ rest.filterMap partOfPiece?

/-- Whether the parts of one location come before those of another or are equal to them. A location
comes before those below it. -/
def partsLe : List PathPart → List PathPart → Bool
  | [], _ => true
  | _ :: _, [] => false
  | a :: restA, b :: restB =>
      if a.precedes b then true else if b.precedes a then false else partsLe restA restB

/-- The order of locations: part by part. -/
def le (a b : Location) : Bool := partsLe a.parts b.parts

/-! ### Names and extensions -/

/-- The pieces up to the last one that leads somewhere. -/
def trimPieces (pieces : List (List Char)) : List (List Char) :=
  (pieces.reverse.dropWhile fun piece => piece = [] ∨ piece = ['.']).reverse

/-- The name at the end, unless the location ends with a step upwards or has no name at all. -/
def fileName? (location : Location) : Option (List Char) :=
  (trimPieces location.pieces).getLast?.filter (· ≠ ['.', '.'])

/-- A name in front of its last dot and what follows that dot. A dot at the very beginning does not
count. -/
def splitName (name : List Char) : List Char × Option (List Char) :=
  match name.reverse.span (· ≠ '.') with
  | (extension, _ :: stem) =>
      if stem.isEmpty then (name, none) else (stem.reverse, some extension.reverse)
  | _ => (name, none)

/-- What follows the last dot of the name. -/
def extension? (location : Location) : Option String :=
  (location.fileName?.bind fun name => (splitName name).2).map String.ofList

/-- Gives the name at the end an extension in place of the one that it has. A location without a
name stays as it is. -/
def setExtension (location : Location) (extension : String) : Location :=
  match location.fileName? with
  | none => location
  | some name =>
      let folders := (trimPieces location.pieces).dropLast
      let changed := (splitName name).1 ++ '.' :: extension.toList
      ⟨"/".intercalate ((folders ++ [changed]).map String.ofList)⟩

/-- The location with another extension. The old one is taken off the end first; where only dots
are left then, there is no name and so no extension. -/
def withExtension (location : Location) (extension : String) : Location :=
  let characters := location.text.toList
  let kept := characters.length - (location.extension?.map String.length).getD 0
  setExtension ⟨String.ofList (characters.take kept)⟩ extension

/-- The location of an entry of a folder. -/
def join (folder : Location) (name : String) : Location :=
  match folder.text.toList.getLast? with
  | none => ⟨name⟩
  | some '/' => ⟨folder.text ++ name⟩
  | some _ => ⟨folder.text ++ "/" ++ name⟩

end Location

end DocScript
