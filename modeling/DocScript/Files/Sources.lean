import DocScript.Artifact.Reader
import DocScript.Artifact.Writer
import DocScript.Compile.Compiler
import DocScript.Files.Tree

/-!
# Sources and artifacts

A program is given as one file or as a folder, which stands for all documents below it. Its
artifact is written beside the file or into the folder.
-/

namespace DocScript

def sourceExtension : String := "json"

def artifactExtension : String := "jsc"

/-! ### Finding sources -/

/-- Why a location gives no sources. -/
inductive SourceError where
  | notFound (location : Location)
  /-- A folder on the way cannot be looked into. -/
  | unreadable (folder : Location) (error : FileError)
  | noSources (location : Location)
  deriving DecidableEq, Inhabited, Repr

namespace SourceError

def location : SourceError → Location
  | .notFound location => location
  | .unreadable folder _ => folder
  | .noSources location => location

def message : SourceError → String
  | .notFound location => s!"Path not found: {location.text}"
  | .unreadable folder error => s!"Failed to read directory {folder.text}: {error.message}"
  | .noSources location => s!"No .{sourceExtension} files found in {location.text}"

end SourceError

namespace FileNode

mutual

/-- The documents at a node that stands at the given location. -/
def documents (location : Location) : FileNode → List Location
  | .file _ => if location.extension? = some sourceExtension then [location] else []
  | .special _ => []
  | .folder entries => documentsIn location entries

/-- The documents among the entries of a folder. -/
def documentsIn (folder : Location) : List (String × FileNode) → List Location
  | [] => []
  | (name, node) :: rest => documents (folder.join name) node ++ documentsIn folder rest

end

mutual

/-- The first folder below a node whose own location cannot be asked for. -/
def unreadable? (location : Location) : FileNode → Option SourceError
  | .file _ => none
  | .special _ => none
  | .folder entries =>
      match location.refusal? with
      | some error => some (.unreadable location error)
      | none => unreadableIn? location entries

/-- The first such folder among the entries of a folder. -/
def unreadableIn? (folder : Location) : List (String × FileNode) → Option SourceError
  | [] => none
  | (name, node) :: rest =>
      (unreadable? (folder.join name) node).or (unreadableIn? folder rest)

end

end FileNode

/-- The sources at a location: a file itself, whatever its name, or the documents below a folder
in the order of their locations. -/
def resolveSources (files : Files) (location : Location) : Except SourceError (List Location) :=
  match files.find location with
  | .error _ => .error (.notFound location)
  | .ok (.file _) => .ok [location]
  | .ok (.special _) => .ok [location]
  | .ok (.folder entries) =>
      match FileNode.unreadableIn? location entries, FileNode.documentsIn location entries with
      | some error, _ => .error error
      | none, [] => .error (.noSources location)
      | none, documents => .ok (documents.mergeSort Location.le)

/-! ### Reading sources -/

/-- The source unit in a file; its location is its id. -/
def SourceUnit.load (files : Files) (location : Location) : Except FileError SourceUnit :=
  (files.readText location).map fun text => ⟨location.text, text⟩

/-- Registers the unit in a file. An unreadable file is an error of the program. -/
def Compiler.registerFile (files : Files) (compiler : Compiler) (location : Location) : Compiler :=
  match SourceUnit.load files location with
  | .ok unit => compiler.registerUnit unit
  | .error error =>
      let message := s!"Failed to read source: {error.message}"
      { compiler with
        diagnostics := compiler.diagnostics.push ⟨.error, location.text, 0, message⟩ }

/-- Compiles the units in files. -/
def compileFiles (files : Files) (locations : List Location) :
    Except DiagnosticBag Compilation :=
  (locations.foldl (Compiler.registerFile files) {}).complete

/-! ### Artifacts in files -/

/-- Why a table cannot be loaded or saved. -/
inductive StorageError where
  | file (error : FileError)
  | artifact (error : ArtifactError)
  deriving DecidableEq, Repr

def StorageError.message : StorageError → String
  | .file error => s!"I/O error: {error.message}"
  | .artifact error => error.message

/-- The table of an artifact file. -/
def FunctionTable.load (files : Files) (location : Location) :
    Except StorageError (FunctionTable Constant) :=
  match files.read location with
  | .error error => .error (.file error)
  | .ok bytes => (Artifact.read bytes).mapError .artifact

/-- Writes the artifact of a table into a tree. A table without an artifact writes nothing. -/
def FunctionTable.save (table : FunctionTable Constant) (top : FileNode) (location : Location) :
    Except StorageError FileNode :=
  match Artifact.write table with
  | .error error => .error (.artifact error)
  | .ok bytes => (top.write location bytes).mapError .file

/-- Where the artifact of a program is written unless something else is said. -/
def artifactLocation (files : Files) (source : Location) : Location :=
  if files.isFolder source then source.join "output.jsc" else source.withExtension artifactExtension

end DocScript
