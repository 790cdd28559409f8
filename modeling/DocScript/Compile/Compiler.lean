import DocScript.Compile.Declaration
import DocScript.Compile.Lowering.Stmt
import DocScript.Json.Reader
import DocScript.Source.Reader
import DocScript.Source.Unit

/-!
# Compilation

Compilation has two passes over all units. The first registers the signature of every function, so
that the second can lower each body against all of them, in whatever order the functions stand. A
pass that reports an error ends the compilation.
-/

namespace DocScript

/-- The namespace of a unit that names none. -/
def defaultNamespace : String := "Global"

/-- A unit whose functions are registered. -/
structure RegisteredUnit where
  site : SourceSite
  space : String
  declarations : List Json

/-- The namespace and the function declarations of an object, or what is wrong with them and where. -/
def readDocument (document : Json) : Except (SourcePath × CompileError) (String × List Json) :=
  let space : Option String :=
    match document.get? "namespace" with
    | none => some defaultNamespace
    | some (.string space) => if space.isEmpty then none else some space
    | some _ => none
  match space, (document.get? "functions").bind Json.array? with
  | none, _ => .error (SourcePath.root.member "namespace", .invalidNamespace)
  | some _, none => .error (SourcePath.root.member "functions", .noFunctions)
  | some space, some declarations => .ok (space, declarations)

/-- The path of a function declaration in its document. -/
def declarationPath (position : Nat) : SourcePath :=
  (SourcePath.root.member "functions").element position

/-- What a compilation knows between its steps. `origins` names the unit that first registered each
function. -/
structure Compiler where
  signatures : SignatureTable := SignatureTable.natives
  functions : FunctionTable Constant := {}
  diagnostics : DiagnosticBag := {}
  units : List RegisteredUnit := []
  origins : List (String × String) := []

/-- The result of a compilation that reported no error. -/
structure Compilation where
  functions : FunctionTable Constant
  warnings : DiagnosticBag

namespace Compiler

/-- Reports a diagnostic. -/
def report (compiler : Compiler) (diagnostic : Diagnostic) : Compiler :=
  { compiler with diagnostics := compiler.diagnostics.push diagnostic }

/-! ### First pass -/

/-- Registers one declaration of a unit. -/
def registerDeclaration (compiler : Compiler) (site : SourceSite) (space : String)
    (path : SourcePath) (declaration : Json) : Compiler :=
  let (signature, diagnostics) := readSignature site space path declaration
  let compiler := diagnostics.foldl report compiler
  match signature with
  | none => compiler
  | some signature =>
      let (added, signatures) := compiler.signatures.register signature
      if added then
        { compiler with
          signatures
          origins := (signature.name, site.unit) :: compiler.origins }
      else
        let first := compiler.origins.lookup signature.name
        compiler.report
          (site.error (path.member "name") (.duplicateFunction signature.name first))

/-- Registers the declarations of a unit, the first at the given position. -/
def registerDeclarations (site : SourceSite) (space : String) :
    List Json → (position : Nat) → Compiler → Compiler
  | [], _, compiler => compiler
  | declaration :: rest, position, compiler =>
      registerDeclarations site space rest (position + 1)
        (compiler.registerDeclaration site space (declarationPath position) declaration)

/-- Registers every function of a document and keeps the document for the second pass. -/
def registerDocument (compiler : Compiler) (site : SourceSite) (document : Json) : Compiler :=
  match readDocument document with
  | .error (path, error) => compiler.report (site.error path error)
  | .ok (space, declarations) =>
      let compiler := registerDeclarations site space declarations 0 compiler
      { compiler with units := compiler.units ++ [⟨site, space, declarations⟩] }

/-- Reads a unit and registers every function that it declares. -/
def registerUnit (compiler : Compiler) (unit : SourceUnit) : Compiler :=
  match Json.parse unit.text with
  | .error e =>
      let line := (Json.Place.ofOffset unit.text e.offset).line
      let error := CompileError.malformedText (e.message unit.text)
      compiler.report ⟨.error, unit.id, line, error.message⟩
  | .ok (.object members) =>
      compiler.registerDocument ⟨unit.id, LineIndex.build unit.text⟩ (.object members)
  | .ok _ => compiler.report ⟨.error, unit.id, 1, CompileError.unitNotObject.message⟩

/-! ### Second pass -/

/-- Declares one local of a function, or reports what is wrong with it. -/
def declareLocal (scope : LoweringScope) (path : SourcePath) (item : Json) (state : Lowering) :
    Lowering :=
  match (item.get? "name").bind Json.string? with
  | none => scope.report path .localWithoutName state
  | some name =>
      let namePath := path.member "name"
      if isReserved name then scope.report namePath (.reservedName name .slot) state
      else if state.builder.isParam name then scope.report namePath (.localHidesParam name) state
      else if state.builder.isDeclared name then scope.report namePath (.repeatedLocal name) state
      else
        match (item.get? "type").bind Json.string? with
        | none => scope.report path (.localWithoutType name) state
        | some text =>
            match StaticType.ofText? text with
            | none => scope.report (path.member "type") (.unknownType text) state
            | some type => state.modify (·.declareLocal name type)

/-- Declares the locals of a function, the first at the given position. -/
def declareLocals (scope : LoweringScope) (path : SourcePath) :
    List Json → (position : Nat) → Lowering → Lowering
  | [], _, state => state
  | item :: rest, position, state =>
      declareLocals scope path rest (position + 1)
        (declareLocal scope (path.element position) item state)

/-- Lowers the locals and the body of a declaration, and ends the code. -/
def lowerFunction (scope : LoweringScope) (path : SourcePath) (declaration : Json)
    (state : Lowering) : Lowering :=
  let localsPath := path.member "locals"
  let state :=
    match declaration.get? "locals" with
    | none => state
    | some (.array items) => declareLocals scope localsPath items 0 state
    | some _ => scope.report localsPath .localsNotList state
  let state :=
    match (declaration.get? "body").bind Json.array? with
    | some stmts => lowerBlock scope (stmts.map Stmt.ofJson) (path.member "body") 0 state
    | none => scope.report path (.bodyNotList state.builder.name) state
  state.emit .halt

/-- A builder for the body of a function with the given signature. -/
def startFunction (space : String) (signature : Signature) : FunctionBuilder :=
  signature.params.foldl (fun builder param => builder.declareParam param.name param.type)
    { name := signature.name, space, returns := signature.returns }

/-- Compiles one declaration. A declaration that the first pass refused is passed over. -/
def compileDeclaration (compiler : Compiler) (unit : RegisteredUnit) (path : SourcePath)
    (declaration : Json) : Compiler :=
  match (declaration.get? "name").bind Json.string? with
  | none => compiler
  | some name =>
      let fullName := unit.space ++ "." ++ name
      if compiler.functions.contains fullName then
        compiler.report (unit.site.error path (.duplicateFunction fullName none))
      else
        match compiler.signatures.get? fullName with
        | none => compiler
        | some signature =>
            let scope : LoweringScope := ⟨compiler.signatures, unit.site⟩
            let state := lowerFunction scope path declaration
              ⟨startFunction unit.space signature, compiler.diagnostics⟩
            let (overflow, builder) := state.builder.takeOverflow
            let diagnostics :=
              match overflow with
              | none => state.diagnostics
              | some limit =>
                  state.diagnostics.push (unit.site.error path (.exceeded builder.name limit))
            { compiler with
              diagnostics
              functions := compiler.functions.insert builder.finish }

/-- Compiles the declarations of a unit, the first at the given position. -/
def compileDeclarations (unit : RegisteredUnit) :
    List Json → (position : Nat) → Compiler → Compiler
  | [], _, compiler => compiler
  | declaration :: rest, position, compiler =>
      compileDeclarations unit rest (position + 1)
        (compiler.compileDeclaration unit (declarationPath position) declaration)

/-- Compiles the bodies of all registered units. -/
def compileRegistered (compiler : Compiler) : Compiler :=
  compiler.units.foldl (fun compiler unit => compileDeclarations unit unit.declarations 0 compiler)
    compiler

/-- Fails with all diagnostics if one of them is an error. -/
def flush (compiler : Compiler) : Except DiagnosticBag Unit :=
  if compiler.diagnostics.hasErrors then .error compiler.diagnostics else .ok ()

/-- The compiled functions, unless an error was reported. -/
def finish (compiler : Compiler) : Except DiagnosticBag Compilation := do
  compiler.flush
  .ok ⟨compiler.functions, compiler.diagnostics⟩

/-- Both passes over the units that are registered so far. -/
def complete (compiler : Compiler) : Except DiagnosticBag Compilation := do
  compiler.flush
  compiler.compileRegistered.finish

end Compiler

/-- Compiles source units, in the order in which their diagnostics are to be reported. -/
def compileUnits (units : List SourceUnit) : Except DiagnosticBag Compilation :=
  (units.foldl Compiler.registerUnit {}).complete

/-- Compiles a single document. -/
def compileSource (text : String) : Except DiagnosticBag (FunctionTable Constant) :=
  (compileUnits [⟨"<source>", text⟩]).map Compilation.functions

end DocScript
