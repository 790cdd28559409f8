import DocScript.CommandLine.Building
import DocScript.Machine.Run
import DocScript.Machine.Transcript
import DocScript.Memory.Interface

/-!
# Commands that run programs

`run` compiles a program and runs it, `exec` runs an artifact. A program that is run from the
command line prints, has memory if it is allowed, and neither foreign functions nor graphics.
-/

namespace DocScript

def debugOption : OptionSpec := { long := "debug" }

def memoryOption : OptionSpec := { long := "allow-memory" }

/-- How a program is run. -/
structure RunOptions where
  entry : String := defaultEntry
  debug : Bool := false
  allowMemory : Bool := false
  arguments : List String := []
  deriving DecidableEq, Inhabited, Repr

namespace Running

/-- What a program prints and the memory that it has. -/
structure Surroundings where
  transcript : Transcript := {}
  arena : Arena := {}

/-- A backend that is never there. -/
def noGraphics : GraphicsInterface Empty where
  openWindow _ _ _ := fun backend => nomatch backend
  draw _ := fun backend => nomatch backend
  loop := fun backend => nomatch backend
  layer := fun backend => nomatch backend
  device := fun backend => nomatch backend

def capabilities (allowMemory : Bool) : Capabilities Surroundings Empty where
  print text := modify fun surroundings =>
    { surroundings with transcript := surroundings.transcript.print text }
  foreign := none
  memory :=
    if allowMemory then
      some (Arena.interface Surroundings.arena fun surroundings arena =>
        { surroundings with arena })
    else none
  graphics := noGraphics

/-- The arguments of the entry: one array of strings if it has one parameter, and none otherwise. -/
def entryArguments (table : FunctionTable Constant) (options : RunOptions) : List Constant :=
  if ((table.get? options.entry).map CompiledFunction.paramCount) = some 1 then
    [.ofItems (options.arguments.map fun argument => .scalar (.string argument))]
  else []

/-- Runs a table. Nothing is reported of a program that runs out of fuel. -/
def execute (fuel : Nat) (table : FunctionTable Constant) (options : RunOptions)
    (report : Report) : Option Report :=
  let (program, heap) := table.link {}
  let (arguments, heap) := heap.internItems (entryArguments table options)
  let setup : Setup Surroundings Empty :=
    { program, capabilities := capabilities options.allowMemory }
  let start : Machine Surroundings Empty := { heap, graphics := .absent, environment := {} }
  let report :=
    if options.debug then { report with complaints := report.complaints ++ table.listing }
    else report
  match start.run setup fuel options.entry arguments with
  | .done _ after => some { report with output := after.environment.transcript.text }
  | .faulted fault after =>
      let line := s!"Runtime error: [{fault.kind.code}] {fault.message}"
      some (({ report with output := after.environment.transcript.text }.complain line).fail .fault)
  | .outOfFuel => none

/-- Compiles what is at a location; the diagnostics stand for themselves. -/
def compile (files : Files) (location : Location) :
    Except Report (FunctionTable Constant × Report) :=
  match resolveSources files location with
  | .error error =>
      .error ((Report.complain {} error.message).fail (Building.sourceStatus error))
  | .ok sources =>
      match compileFiles files sources with
      | .ok compilation =>
          .ok (compilation.functions, { complaints := compilation.warnings.toText })
      | .error bag => .error { status := .compilation, complaints := bag.toText }

/-- Loads an artifact. -/
def load (files : Files) (location : Location) :
    Except Report (FunctionTable Constant × Report) :=
  match FunctionTable.load files location with
  | .ok table => .ok (table, {})
  | .error error =>
      let line := s!"Failed to load `{location.text}`: {error.message}"
      .error ((Report.complain {} line).fail (Building.storageStatus error))

end Running

/-- A command that runs a program. -/
inductive RunCommand where
  | run (location : Location) (options : RunOptions)
  | exec (location : Location) (options : RunOptions)
  deriving DecidableEq, Inhabited, Repr

namespace RunCommand

/-- The location that the command looks at. -/
def location : RunCommand → Location
  | .run location _ | .exec location _ => location

/-- Reads the path and the options behind the name of a command. -/
def readOptions (arguments : List String) : Except UsageStop (Location × RunOptions) := do
  let arguments ← CommandArguments.read
    { options := [entryOption, debugOption, memoryOption], takesRest := true } arguments
  .ok (⟨arguments.path⟩,
    { entry := (arguments.value? entryOption).getD defaultEntry
      debug := arguments.has debugOption
      allowMemory := arguments.has memoryOption
      arguments := arguments.rest })

/-- Reads a command line. -/
def read : List String → Except UsageStop RunCommand
  | "run" :: rest => do
      let (location, options) ← readOptions rest
      .ok (.run location options)
  | "exec" :: rest => do
      let (location, options) ← readOptions rest
      .ok (.exec location options)
  | line => .error (UsageStop.ofLine ["run", "exec"] line)

/-- The report of a command, unless its program runs out of fuel. -/
def report (fuel : Nat) (files : Files) : RunCommand → Option Report
  | .run location options =>
      match Running.compile files location with
      | .error report => some report
      | .ok (table, report) => Running.execute fuel table options report
  | .exec location options =>
      match Running.load files location with
      | .error report => some report
      | .ok (table, report) => Running.execute fuel table options report

end RunCommand

end DocScript
