import DocScript.CommandLine.Running

/-!
# The command line

`main` looks at the disk, lets a command do its work on what is there, writes what the command asks
for and reports.
-/

open DocScript

/-- What the system says about a file. -/
def fileErrorOf : IO.Error → FileError
  | .noFileOrDirectory .. => .notFound
  | .inappropriateType _ code details =>
      if code = 20 then .notFolder
      else if code = 21 then .isFolder
      else .other s!"{details} (os error {code})"
  | .invalidArgument _ code details =>
      if code = 36 then .nameTooLong else .other s!"{details} (os error {code})"
  | error => .other (toString error)

/-- Whether there is something that is neither a file nor a folder. -/
def isSpecial (location : Location) : IO Bool := do
  let place : IO.FS.DirEntry := { root := location.text, fileName := "" }
  try return (← place.root.metadata).type == .other
  catch _ => return false

/-- Reads a file, or a folder with everything below it. An entry that cannot be read is left out,
and what is special in a folder is not read: nothing asks for it there. -/
partial def readNode (location : Location) : IO (Except FileError FileNode) := do
  let place : IO.FS.DirEntry := { root := location.text, fileName := "" }
  if ← place.root.isDir then
    let mut entries := #[]
    for entry in ← place.root.readDir do
      let inner := location.join entry.fileName
      if ← isSpecial inner then
        entries := entries.push (entry.fileName, .special ⟨.ok [], .ok ()⟩)
      else if let .ok node ← readNode inner then
        entries := entries.push (entry.fileName, node)
    return .ok (.folder entries.toList)
  else
    let reading : Except FileError (List UInt8) ←
      try pure (.ok (← IO.FS.readBinFile location.text).toList)
      catch error => pure (.error (fileErrorOf error))
    if ← isSpecial location then return .ok (.special ⟨reading, .ok ()⟩)
    else return reading.map .file

/-- Does a job on the disk. -/
def doJob : Job → IO Report
  | .done report => return report
  | .write location bytes resume => do
      try
        IO.FS.writeBinFile location.text ⟨bytes.toArray⟩
        return resume (.ok ())
      catch error => return resume (.error (fileErrorOf error))

/-- Prints a report and gives its code. -/
def giveReport (report : Report) : IO UInt32 := do
  IO.print report.output
  IO.eprint report.complaints
  return report.status.code.toUInt32

/-- The commands as help shows them. -/
def usage : String :=
  "Usage:\n" ++
  "  check PATH\n" ++
  "  build PATH [-o OUTPUT] [--entry NAME]\n" ++
  "  disasm PATH\n" ++
  "  run PATH [--entry NAME] [--debug] [--allow-memory] [ARGS...]\n" ++
  "  exec ARTIFACT [--entry NAME] [--debug] [--allow-memory] [ARGS...]\n"

/-- Explains the commands. -/
def explain : UsageStop → IO UInt32
  | .help => giveReport { output := usage }
  | .misuse => giveReport { status := .usage, complaints := usage }

/-- Does a command that runs a program, with more fuel each time it runs out. -/
partial def launch (fuel : Nat) (files : Files) (command : RunCommand) : IO UInt32 :=
  match command.report fuel files with
  | some report => giveReport report
  | none => launch (2 * fuel) files command

def main (arguments : List String) : IO UInt32 := do
  if arguments.head? = some "run" ∨ arguments.head? = some "exec" then
    match RunCommand.read arguments with
    | .error stop => explain stop
    | .ok command =>
        let files := Files.ofLocation command.location (← readNode command.location)
        launch (2 ^ 60) files command
  else
    match BuildCommand.read arguments with
    | .error stop => explain stop
    | .ok command =>
        let files := Files.ofLocation command.location (← readNode command.location)
        giveReport (← doJob (command.job files))
