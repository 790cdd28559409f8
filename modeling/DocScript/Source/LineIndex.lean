import Std.Data.TreeMap
import DocScript.Source.Path
import DocScript.Text.CharClass

/-!
# Lines of the values of a document

`LineIndex.build` reads a text once, character by character, and records for each value the line it
begins on; a member of an object begins at its key. The scanner follows brackets, keys and strings
and never fails: on a text that is not JSON it records what it meets. Keys are recorded as they are
written, backslashes included.
-/

namespace DocScript

/-- An open array or object: its path, and for an array the position of its next element. -/
inductive OpenContainer where
  | object (path : SourcePath)
  | array (path : SourcePath) (next : Nat)
  deriving DecidableEq, Repr

/-- What the scanner expects of the next character. -/
inductive ScanMode where
  /-- Space or the first character of the value at `path`. -/
  | value (path : SourcePath)
  /-- Space, a colon or the first character of the value at `path`, whose key has ended. -/
  | colon (path : SourcePath)
  /-- An entry of the innermost open container, or its end. -/
  | entry
  /-- Inside a key that began on `line`; the characters so far stand in reverse order. -/
  | key (line : Nat) (reversed : List Char)
  /-- Behind a backslash inside a key. -/
  | keyEscape (line : Nat) (reversed : List Char)
  | string
  | stringEscape
  /-- Inside a number, a literal or anything else that is no string and no bracket. -/
  | scalar
  /-- The value of the document has ended. -/
  | done
  deriving DecidableEq, Repr

/-- Lines by path. -/
abbrev LineTable := Std.TreeMap String Nat

/-- The state of the scanner before a character: the line the character stands on, what it may be,
the open containers from the innermost outwards, and the lines recorded so far. -/
structure LineScan where
  line : Nat
  mode : ScanMode
  containers : List OpenContainer
  lines : LineTable

namespace LineScan

/-- Before the first character. -/
def start : LineScan := ⟨1, .value .root, [], {}⟩

/-- Records the line of a key; a key that is repeated is recorded anew. -/
def recordKey (scan : LineScan) (path : SourcePath) (line : Nat) : LineScan :=
  { scan with lines := scan.lines.insert path.text line }

/-- Records the current line for a value unless its path has a line already. -/
def recordValue (scan : LineScan) (path : SourcePath) : LineScan :=
  { scan with lines := scan.lines.insertIfNew path.text scan.line }

/-- The mode behind a complete value. -/
def afterValue (scan : LineScan) : LineScan :=
  { scan with mode := if scan.containers.isEmpty then .done else .entry }

/-- A character that ends a scalar without belonging to it. -/
def endsScalar (c : Char) : Bool := c == ',' || c == '}' || c == ']' || Text.isBlank c

/-- Begins the value at `path` with its first character. A character that ends scalars is a whole
value if it stands where a value begins. -/
def beginValue (scan : LineScan) (path : SourcePath) (c : Char) : LineScan :=
  let scan := scan.recordValue path
  match c with
  | '{' => { scan with mode := .entry, containers := .object path :: scan.containers }
  | '[' => { scan with mode := .entry, containers := .array path 0 :: scan.containers }
  | '"' => { scan with mode := .string }
  | _ => if endsScalar c then scan.afterValue else { scan with mode := .scalar }

/-- Ends the innermost container. -/
def close (scan : LineScan) : LineScan :=
  { scan with containers := scan.containers.tail }.afterValue

/-- Reads a character between the entries of the innermost container. Characters that have no
business there are skipped. -/
def entry (scan : LineScan) (c : Char) : LineScan :=
  match scan.containers with
  | [] => scan
  | .object _ :: _ =>
      match c with
      | '}' => scan.close
      | '"' => { scan with mode := .key scan.line [] }
      | _ => scan
  | .array path next :: outer =>
      if c = ']' then scan.close
      else if c = ',' ∨ Text.isBlank c then scan
      else
        { scan with containers := .array path (next + 1) :: outer }.beginValue
          (path.element next) c

/-- The path of the member of the innermost object with the given key, written in reverse. -/
def memberPath (scan : LineScan) (reversed : List Char) : SourcePath :=
  let key := String.ofList reversed.reverse
  match scan.containers with
  | .object path :: _ => path.member key
  | .array path _ :: _ => path.member key
  | [] => SourcePath.root.member key

/-- Reads one character, apart from counting the line. -/
def read (scan : LineScan) (c : Char) : LineScan :=
  match scan.mode with
  | .value path => if Text.isBlank c then scan else scan.beginValue path c
  | .colon path =>
      if Text.isBlank c then scan
      else if c = ':' then { scan with mode := .value path }
      else scan.beginValue path c
  | .entry => scan.entry c
  | .key line reversed =>
      match c with
      | '"' =>
          let path := scan.memberPath reversed
          { scan.recordKey path line with mode := .colon path }
      | '\\' => { scan with mode := .keyEscape line reversed }
      | _ => { scan with mode := .key line (c :: reversed) }
  | .keyEscape line reversed => { scan with mode := .key line (c :: '\\' :: reversed) }
  | .string =>
      match c with
      | '"' => scan.afterValue
      | '\\' => { scan with mode := .stringEscape }
      | _ => scan
  | .stringEscape => { scan with mode := .string }
  | .scalar => if endsScalar c then scan.afterValue.entry c else scan
  | .done => scan

/-- Reads one character and counts its line. -/
def step (scan : LineScan) (c : Char) : LineScan :=
  let scan := scan.read c
  if c = '\n' then { scan with line := scan.line + 1 } else scan

/-- The lines recorded when the text ends: a value that never began stands where the text ends, and
a key that never ended counts as a key. -/
def finish (scan : LineScan) : LineTable :=
  match scan.mode with
  | .value path => (scan.recordValue path).lines
  | .key line reversed | .keyEscape line reversed =>
      (scan.recordKey (scan.memberPath reversed) line).lines
  | _ => scan.lines

end LineScan

/-- The lines of the values of one text. -/
structure LineIndex where
  lines : LineTable

namespace LineIndex

/-- Scans a text from its first character to its last. -/
def build (text : String) : LineIndex :=
  ⟨(text.toList.foldl LineScan.step LineScan.start).finish⟩

/-- Looks up a path, then the paths above it, for at most `steps` steps. -/
def lookup (index : LineIndex) : (steps : Nat) → SourcePath → Nat
  | 0, path => index.lines[path.text]?.getD 1
  | steps + 1, path =>
      match index.lines[path.text]? with
      | some line => line
      | none => index.lookup steps path.parent

/-- The line of a path, or of the nearest value above it that has one. Each step up shortens the
path, so its length bounds the steps. -/
def lineOf (index : LineIndex) (path : SourcePath) : Nat :=
  index.lookup path.text.length path

/-- The number of recorded paths. -/
def size (index : LineIndex) : Nat := index.lines.size

end LineIndex

end DocScript
