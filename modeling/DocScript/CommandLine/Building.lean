import DocScript.Bytecode.Listing
import DocScript.CommandLine.Arguments
import DocScript.CommandLine.Report
import DocScript.Files.Sources

/-!
# Commands that compile

`check` compiles a program, `build` writes its artifact, and `disasm` lists its code or that of an
artifact.
-/

namespace DocScript

/-- The function that a program begins with unless another one is asked for. -/
def defaultEntry : String := "Main.main"

def entryOption : OptionSpec := { long := "entry", takesValue := true }

def outputOption : OptionSpec :=
  { long := "output", short := some 'o', takesValue := true, isPath := true }

namespace Building

/-- The status of a table that cannot be loaded or saved. -/
def storageStatus : StorageError → ExitStatus
  | .file _ => .io
  | .artifact _ => .artifact

/-- The status of a location without sources. -/
def sourceStatus : SourceError → ExitStatus
  | .notFound _ | .unreadable _ _ => .io
  | .noSources _ => .compilation

/-- A diagnostic as a line of a build. -/
def diagnosticLine (diagnostic : Diagnostic) : String :=
  let code := if diagnostic.isError then "E-COMPILE" else "W-COMPILE"
  s!"[{code}][compile] {diagnostic.toText}"

/-- Adds all diagnostics of a bag to a report. -/
def complainAll (report : Report) (bag : DiagnosticBag) : Report :=
  bag.toList.foldl (fun report diagnostic => report.complain (diagnosticLine diagnostic)) report

/-- Compiles what is at a location. The report of a success has the warnings. -/
def compile (files : Files) (location : Location) :
    Except Report (FunctionTable Constant × Report) :=
  match resolveSources files location with
  | .error error => .error ((Report.complain {} error.message).fail (sourceStatus error))
  | .ok sources =>
      match compileFiles files sources with
      | .ok compilation => .ok (compilation.functions, complainAll {} compilation.warnings)
      | .error bag =>
          .error (((complainAll {} bag).complain s!"{bag.errorCount} error(s)").fail .compilation)

def check (files : Files) (location : Location) : Job :=
  match compile files location with
  | .error report => .done report
  | .ok (_, report) => .done (report.say s!"ok: {location.text}")

/-- The report of a table that cannot be saved. -/
def notWritten (report : Report) (target : Location) (error : StorageError) : Report :=
  (report.complain s!"Failed to write `{target.text}`: {error.message}").fail (storageStatus error)

def build (files : Files) (location : Location) (output : Option Location) (entry : String) : Job :=
  match compile files location with
  | .error report => .done report
  | .ok (table, report) =>
      if !table.contains entry then
        let line := s!"[E-BUILD][build] Entry point '{entry}' not found"
        .done ((report.complain line).fail .compilation)
      else
        let target := output.getD (artifactLocation files location)
        match Artifact.write table with
        | .error error => .done (notWritten report target (.artifact error))
        | .ok bytes =>
            .write target bytes fun
              | .ok () => report.say s!"Built: {target.text}"
              | .error error => notWritten report target (.file error)

def disasm (files : Files) (location : Location) : Job :=
  let table :=
    if location.extension? = some artifactExtension then
      match FunctionTable.load files location with
      | .ok table => .ok (table, {})
      | .error error =>
          let line := s!"Failed to decode `{location.text}`: {error.message}"
          .error ((Report.complain {} line).fail (storageStatus error))
    else compile files location
  match table with
  | .error report => .done report
  | .ok (table, report) => .done { report with output := table.listing }

end Building

/-- A command that compiles. -/
inductive BuildCommand where
  | check (location : Location)
  | build (location : Location) (output : Option Location) (entry : String)
  | disasm (location : Location)
  deriving DecidableEq, Inhabited, Repr

namespace BuildCommand

/-- The location that the command looks at. -/
def location : BuildCommand → Location
  | .check location | .build location _ _ | .disasm location => location

/-- Reads a command line. -/
def read : List String → Except UsageStop BuildCommand
  | "check" :: rest => do
      let arguments ← CommandArguments.read {} rest
      .ok (.check ⟨arguments.path⟩)
  | "build" :: rest => do
      let arguments ← CommandArguments.read { options := [outputOption, entryOption] } rest
      let output := (arguments.value? outputOption).map Location.mk
      .ok (.build ⟨arguments.path⟩ output ((arguments.value? entryOption).getD defaultEntry))
  | "disasm" :: rest => do
      let arguments ← CommandArguments.read {} rest
      .ok (.disasm ⟨arguments.path⟩)
  | line => .error (UsageStop.ofLine ["check", "build", "disasm"] line)

/-- The course of a command. -/
def job (files : Files) : BuildCommand → Job
  | .check location => Building.check files location
  | .build location output entry => Building.build files location output entry
  | .disasm location => Building.disasm files location

end BuildCommand

end DocScript
