import DocScript.Files.Tree

/-!
# Reports of commands
-/

namespace DocScript

/-- How a command ends. -/
inductive ExitStatus where
  | success
  | usage
  | io
  | compilation
  | fault
  | artifact
  deriving DecidableEq, Inhabited, Repr

/-- The code that the system sees. -/
def ExitStatus.code : ExitStatus → Nat
  | .success => 0
  | .usage => 2
  | .io => 3
  | .compilation => 11
  | .fault => 12
  | .artifact => 13

/-- What a command leaves behind: its status, its output and its complaints. -/
structure Report where
  status : ExitStatus := .success
  output : String := ""
  complaints : String := ""
  deriving DecidableEq, Inhabited, Repr

namespace Report

/-- A report that a line of output is added to. -/
def say (report : Report) (line : String) : Report :=
  { report with output := report.output ++ line ++ "\n" }

/-- A report that a complaint is added to. -/
def complain (report : Report) (line : String) : Report :=
  { report with complaints := report.complaints ++ line ++ "\n" }

/-- A report of failure. -/
def fail (report : Report) (status : ExitStatus) : Report := { report with status }

end Report

/-- The course of a command: it ends with a report, which may depend on how a file can be
written. -/
inductive Job where
  | done (report : Report)
  | write (location : Location) (bytes : List UInt8) (resume : Except FileError Unit → Report)

/-- Does a job on a tree. -/
def Job.onTree (top : FileNode) : Job → Report × FileNode
  | .done report => (report, top)
  | .write location bytes resume =>
      match top.write location bytes with
      | .ok changed => (resume (.ok ()), changed)
      | .error error => (resume (.error error), top)

end DocScript
