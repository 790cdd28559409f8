/-!
# Diagnostics

What the compiler reports about its sources, in the order in which it was found.
-/

namespace DocScript

/-- Errors stop a compilation, warnings do not. -/
inductive Severity where
  | error
  | warning
  deriving DecidableEq, Inhabited, Repr

def Severity.name : Severity → String
  | .error => "error"
  | .warning => "warning"

/-- A message about a line of a source unit; line zero stands for the unit as a whole. -/
structure Diagnostic where
  severity : Severity
  unit : String
  line : Nat
  message : String
  deriving DecidableEq, Inhabited, Repr

namespace Diagnostic

def isError (diagnostic : Diagnostic) : Bool := diagnostic.severity == .error

/-- The diagnostic as one line of text. -/
def toText (diagnostic : Diagnostic) : String :=
  let place := if diagnostic.line = 0 then s!" in {diagnostic.unit}: "
    else s!" at {diagnostic.unit}:{diagnostic.line}: "
  diagnostic.severity.name ++ place ++ diagnostic.message

end Diagnostic

/-- The diagnostics of a compilation; `reversed` holds the latest first. -/
structure DiagnosticBag where
  reversed : List Diagnostic := []
  deriving DecidableEq, Inhabited, Repr

namespace DiagnosticBag

/-- Reports a diagnostic after all others. -/
def push (bag : DiagnosticBag) (diagnostic : Diagnostic) : DiagnosticBag :=
  ⟨diagnostic :: bag.reversed⟩

/-- The diagnostics in the order in which they were reported. -/
def toList (bag : DiagnosticBag) : List Diagnostic := bag.reversed.reverse

def size (bag : DiagnosticBag) : Nat := bag.reversed.length

def isEmpty (bag : DiagnosticBag) : Bool := bag.reversed.isEmpty

def hasErrors (bag : DiagnosticBag) : Bool := bag.reversed.any Diagnostic.isError

theorem hasErrors_push (bag : DiagnosticBag) (diagnostic : Diagnostic) :
    (bag.push diagnostic).hasErrors = (diagnostic.isError || bag.hasErrors) := rfl

def errorCount (bag : DiagnosticBag) : Nat := bag.reversed.countP Diagnostic.isError

/-- All diagnostics, each on a line of its own. -/
def toText (bag : DiagnosticBag) : String :=
  String.join (bag.toList.map fun diagnostic => diagnostic.toText ++ "\n")

end DiagnosticBag

end DocScript
