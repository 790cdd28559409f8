import DocScript.Files.Location

/-!
# File trees

A tree of folders and files, and of pipes or devices among these, with the folder in which all
locations begin at its top. Walking a location needs a folder wherever a step is still to be made,
also for a dot or a slash at the end. Names and locations have limits, which are counted in bytes: a
name that is too long is refused where it is looked for, a location that is too long before anything
is looked for.
-/

namespace DocScript

/-- Why a file cannot be read or written. -/
inductive FileError where
  | notFound
  | notFolder
  | isFolder
  | nameTooLong
  | notText
  /-- The location holds the character that ends texts in the system. -/
  | zeroCharacter
  /-- Anything else, in the words of the system. -/
  | other (message : String)
  deriving DecidableEq, Inhabited, Repr

def FileError.message : FileError → String
  | .notFound => "No such file or directory (os error 2)"
  | .notFolder => "Not a directory (os error 20)"
  | .isFolder => "Is a directory (os error 21)"
  | .nameTooLong => "File name too long (os error 36)"
  | .notText => "stream did not contain valid UTF-8"
  | .zeroCharacter => "file name contained an unexpected NUL byte"
  | .other message => message

/-- The length of the longest name that an entry of a folder can have. -/
def longestName : Nat := 255

/-- The length of the longest location that can be asked for. -/
def longestLocation : Nat := 4095

/-- What is wrong with a location whatever there is in the tree. -/
def Location.refusal? (location : Location) : Option FileError :=
  if location.text.contains '\x00' then some .zeroCharacter
  else if longestLocation < location.text.utf8ByteSize then some .nameTooLong
  else none

/-- How something answers that stands among files but is none, such as a pipe or a device. What is
written to it does not change the tree. -/
structure SpecialFile where
  reading : Except FileError (List UInt8)
  writing : Except FileError Unit
  deriving Repr

/-- A file, something special in the place of one, or a folder with named entries. -/
inductive FileNode where
  | file (bytes : List UInt8)
  | special (answers : SpecialFile)
  | folder (entries : List (String × FileNode))
  deriving Inhabited, Repr

namespace FileNode

def isFolder : FileNode → Bool
  | .file _ => false
  | .special _ => false
  | .folder _ => true

/-- A place in a tree: the node there, and the way back to the top with the name of each step. -/
structure Place where
  node : FileNode
  above : List (String × FileNode)

/-- Makes one step from a place. Above the top there is nothing but the top. -/
def Place.step (place : Place) (piece : List Char) : Except FileError Place :=
  match place.node with
  | .file _ => .error .notFolder
  | .special _ => .error .notFolder
  | .folder entries =>
      if piece = [] ∨ piece = ['.'] then .ok place
      else if piece = ['.', '.'] then
        match place.above with
        | [] => .ok place
        | (_, node) :: above => .ok ⟨node, above⟩
      else
        let name := String.ofList piece
        if longestName < name.utf8ByteSize then .error .nameTooLong
        else
          match entries.lookup name with
          | none => .error .notFound
          | some node => .ok ⟨node, (name, place.node) :: place.above⟩

/-- Makes steps from a place. -/
def Place.walk (place : Place) : List (List Char) → Except FileError Place
  | [] => .ok place
  | piece :: rest =>
      match place.step piece with
      | .error error => .error error
      | .ok next => next.walk rest

/-- The node at a location. Nothing is at the empty location or at one that begins at the root of
the system. -/
def find (top : FileNode) (location : Location) : Except FileError FileNode :=
  match location.refusal?, location.pieces with
  | some error, _ => .error error
  | none, [] :: _ => .error .notFound
  | none, pieces => (Place.walk ⟨top, []⟩ pieces).map Place.node

/-- Puts a node where the names lead, through folders that are made where there are none. -/
def insert (content : FileNode) : List String → FileNode → FileNode
  | [], _ => content
  | name :: rest, node =>
      let entries :=
        match node with
        | .file _ => []
        | .special _ => []
        | .folder entries => entries
      let inner := (entries.lookup name).getD (.folder [])
      .folder ((name, content.insert rest inner) :: entries.filter (·.1 != name))

/-- The names that lead from the top to an entry of the folder at a place. -/
def Place.namesTo (place : Place) (name : String) : List String :=
  (place.above.map Prod.fst).reverse ++ [name]

/-- Writes a file. Its folder must be there, and a folder cannot be written, not even one that is
only asked for by a slash at the end. -/
def write (top : FileNode) (location : Location) (bytes : List UInt8) :
    Except FileError FileNode :=
  match location.refusal?, location.pieces with
  | some error, _ => .error error
  | none, [] :: _ => .error .notFound
  | none, pieces =>
      let asked := (pieces.reverse.dropWhile (· = [])).reverse
      let last := asked.getLast?.getD []
      if last = ['.'] ∨ last = ['.', '.'] then
        match Place.walk ⟨top, []⟩ asked with
        | .error error => .error error
        | .ok _ => .error .isFolder
      else
        match Place.walk ⟨top, []⟩ asked.dropLast with
        | .error error => .error error
        | .ok ⟨.file _, _⟩ => .error .notFolder
        | .ok ⟨.special _, _⟩ => .error .notFolder
        | .ok ⟨.folder entries, above⟩ =>
            let name := String.ofList last
            let hasSlash := asked.length ≠ pieces.length
            let isFolder := ((entries.lookup name).map FileNode.isFolder).getD false
            if hasSlash ∨ isFolder then .error .isFolder
            else if longestName < name.utf8ByteSize then .error .nameTooLong
            else
              match entries.lookup name with
              | some (.special answers) => answers.writing.map fun _ => top
              | _ => .ok (insert (.file bytes) (Place.namesTo ⟨.folder entries, above⟩ name) top)

end FileNode

/-- Files as far as a program looks at them: what is at a location. -/
structure Files where
  find : Location → Except FileError FileNode

/-- The files of a tree. -/
def FileNode.files (top : FileNode) : Files := ⟨top.find⟩

namespace FileNode

mutual

/-- A node at a location and everything below it, each with its own location. -/
def listing (location : Location) : FileNode → List (Location × FileNode)
  | .file bytes => [(location, .file bytes)]
  | .special answers => [(location, .special answers)]
  | .folder entries => (location, .folder entries) :: listingIn location entries

/-- The entries of a folder and everything below them. -/
def listingIn (folder : Location) : List (String × FileNode) → List (Location × FileNode)
  | [] => []
  | (name, node) :: rest => listing (folder.join name) node ++ listingIn folder rest

end

end FileNode

namespace Files

/-- The files that are known when one location was looked at: the node there, if there is one, and
all below it. -/
def ofLocation (location : Location) (found : Except FileError FileNode) : Files where
  find asked :=
    if asked = location then found
    else
      match found with
      | .error _ => .error .notFound
      | .ok node =>
          match (node.listing location).lookup asked with
          | some node => .ok node
          | none => .error .notFound

def isFolder (files : Files) (location : Location) : Bool :=
  match files.find location with
  | .ok node => node.isFolder
  | .error _ => false

/-- The bytes of a file, or what something special gives. -/
def read (files : Files) (location : Location) : Except FileError (List UInt8) :=
  match files.find location with
  | .ok (.file bytes) => .ok bytes
  | .ok (.special answers) => answers.reading
  | .ok (.folder _) => .error .isFolder
  | .error error => .error error

/-- The text of a file. -/
def readText (files : Files) (location : Location) : Except FileError String :=
  match files.read location with
  | .error error => .error error
  | .ok bytes =>
      match String.fromUTF8? ⟨bytes.toArray⟩ with
      | some text => .ok text
      | none => .error .notText

end Files

end DocScript
