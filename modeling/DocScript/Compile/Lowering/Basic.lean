import DocScript.Compile.Inference
import DocScript.Compile.Site

/-!
# Lowering

Lowering turns the body of a function into code. Its state is the function that is being built and
the diagnostics so far; it goes on after an error, so that one pass finds all of them.
-/

namespace DocScript

/-- What lowering looks up and never changes. -/
structure LoweringScope where
  signatures : SignatureTable
  site : SourceSite

/-- The function that is being built and what was reported so far. -/
structure Lowering where
  builder : FunctionBuilder
  diagnostics : DiagnosticBag
  deriving Inhabited

namespace Lowering

/-- Changes the function that is being built. -/
def modify (state : Lowering) (change : FunctionBuilder → FunctionBuilder) : Lowering :=
  { state with builder := change state.builder }

def emit (state : Lowering) (op : Opcode) : Lowering := state.modify (·.emit op)

def emitWord (state : Lowering) (op : Opcode) (operand : Nat) : Lowering :=
  state.modify (·.emitWord op operand)

def emitCount (state : Lowering) (op : Opcode) (count : Nat) : Lowering :=
  state.modify (·.emitCount op count)

/-- Emits a push of a scalar. -/
def emitScalar (state : Lowering) (value : Scalar) : Lowering :=
  state.modify (·.emitConst (.scalar value))

/-- Emits a push of a text. -/
def emitText (state : Lowering) (text : String) : Lowering := state.emitScalar (.string text)

/-- Emits a jump whose target is set later; the place of the target comes with the result. -/
def emitJump (state : Lowering) (op : Opcode) : Nat × Lowering :=
  let (place, builder) := state.builder.emitJump op
  (place, { state with builder })

/-- Sets the target of a jump. -/
def patchJump (state : Lowering) (place target : Nat) : Lowering :=
  state.modify (·.patchJump place target)

/-- Sets the target of a jump to where the code ends now. -/
def landJump (state : Lowering) (place : Nat) : Lowering :=
  state.patchJump place state.builder.offset

/-- Emits a store into a local, which counts as assigned from here on. -/
def store (state : Lowering) (name : String) (target : LocalSlot) : Lowering :=
  state.modify fun builder => (builder.emitStore target).markAssigned name

end Lowering

namespace LoweringScope

/-- Reports an error about the value at a path. -/
def report (scope : LoweringScope) (path : SourcePath) (error : CompileError)
    (state : Lowering) : Lowering :=
  { state with diagnostics := state.diagnostics.push (scope.site.error path error) }

/-- Reports the keys that a form does not know. -/
def reportStray (scope : LoweringScope) (form : String) (stray : List String)
    (path : SourcePath) (state : Lowering) : Lowering :=
  stray.foldl (fun state key => scope.report (path.member key) (.unknownField key form) state)
    state

/-- Goes on with a text field of a form, or reports what is wrong with it. -/
def requireText (scope : LoweringScope) (form key : String) (field : Field String)
    (path : SourcePath) (next : String → Lowering → Lowering) (state : Lowering) : Lowering :=
  match field with
  | .given text => next text state
  | .absent => scope.report path (.fieldRequired form key) state
  | .misshapen => scope.report (path.member key) (.fieldNotText form key) state

/-- Goes on with a field of a form, or reports that it is absent. -/
def require (scope : LoweringScope) (form key : String) (field : Option α)
    (path : SourcePath) (next : α → Lowering → Lowering) (state : Lowering) : Lowering :=
  match field with
  | some value => next value state
  | none => scope.report path (.fieldRequired form key) state

/-- The static type of an expression at this point of the function. -/
def typeOf (scope : LoweringScope) (state : Lowering) (expr : Expr) : Option StaticType :=
  expr.staticType scope.signatures state.builder

/-- Loads a local, which must be declared and assigned. -/
def load (scope : LoweringScope) (name : String) (path : SourcePath) (state : Lowering) :
    Lowering :=
  match state.builder.slot? name with
  | none => scope.report path (.undefinedVariable name) state
  | some target =>
      if state.builder.isAssigned name then state.emitWord .loadLocal target.slot
      else scope.report path (.unassignedVariable name) state

/-- Goes on with a local that holds an array and is assigned, or reports what is wrong with it. -/
def requireArray (scope : LoweringScope) (name : String) (path : SourcePath)
    (next : LocalSlot → Lowering → Lowering) (state : Lowering) : Lowering :=
  match state.builder.slot? name with
  | none => scope.report path (.undefinedVariable name) state
  | some target =>
      if !target.type.isArray then scope.report path (.notAnArray name) state
      else if state.builder.isAssigned name then next target state
      else scope.report path (.unassignedVariable name) state

/-- Goes on with a local that may be stored to, or reports what is wrong with it. -/
def requireTarget (scope : LoweringScope) (name : String) (path : SourcePath)
    (next : LocalSlot → Lowering → Lowering) (state : Lowering) : Lowering :=
  if state.builder.isParam name then scope.report path (.paramReassigned name) state
  else
    match state.builder.slot? name with
    | none => scope.report path (.undefinedVariable name) state
    | some target => next target state

end LoweringScope

end DocScript
