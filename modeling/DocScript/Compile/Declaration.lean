import DocScript.Compile.Reserved
import DocScript.Compile.Signature
import DocScript.Compile.Site
import DocScript.Json

/-!
# Declarations

Reads the signature that a function declaration states, with everything that is wrong with it.
-/

namespace DocScript

/-- The name of the functions that programs start with; they take at most the arguments of the
command line and return nothing. -/
def entryName : String := "main"

/-- The constant that a literal writes; arrays and objects are no literals. -/
def literal? : Json → Option Constant
  | .null => some (.scalar .null)
  | .bool value => some (.scalar (.bool value))
  | .int value => some (.scalar (.int value))
  | .float value => some (.scalar (.float value))
  | .string value => some (.scalar (.string value))
  | .array _ | .object _ => none

/-- The declared type of a parameter, which is `int` unless a text says otherwise. -/
def paramType (item : Json) : Except String StaticType :=
  match (item.get? "type").bind Json.string? with
  | none => .ok .int
  | some text =>
      match StaticType.ofText? text with
      | some type => .ok type
      | none => .error text

/-- The default of a parameter, if one is written; it must be a literal. -/
def paramDefault (item : Json) : Except Unit (Option Constant) :=
  match item.get? "default" with
  | none => .ok none
  | some value =>
      match literal? value with
      | some constant => .ok (some constant)
      | none => .error ()

/-- Reads one parameter after the `earlier` ones. A parameter that has no default but follows one
that has is accepted with a warning. -/
def readParam (site : SourceSite) (function : String) (path : SourcePath)
    (earlier : List Parameter) (item : Json) : Option Parameter × List Diagnostic :=
  match (item.get? "name").bind Json.string? with
  | none => (none, [site.error path .paramWithoutName])
  | some name =>
      let namePath := path.member "name"
      if isReserved name then
        (none, [site.error namePath (.reservedName name .parameter)])
      else if earlier.any (·.name == name) then
        (none, [site.error namePath (.repeatedParam name function)])
      else
        match paramType item, paramDefault item with
        | .error text, _ => (none, [site.error (path.member "type") (.unknownType text)])
        | .ok _, .error _ =>
            (none, [site.error (path.member "default") (.defaultNotLiteral name)])
        | .ok type, .ok default =>
            let warnings :=
              if default.isNone ∧ earlier.any (·.default.isSome) then
                [site.diagnose .warning path (.requiredAfterDefault name function)]
              else []
            (some ⟨name, type, default⟩, warnings)

/-- Reads the parameters of a declaration. `earlier` holds those accepted so far; `ok` is false once
one was refused. -/
def readParams (site : SourceSite) (function : String) (path : SourcePath) :
    List Json → (position : Nat) → (earlier : List Parameter) → (ok : Bool) →
      Option (List Parameter) × List Diagnostic
  | [], _, earlier, ok => (if ok then some earlier else none, [])
  | item :: rest, position, earlier, ok =>
      let (param, diagnostics) :=
        readParam site function (path.element position) earlier item
      let (params, others) :=
        match param with
        | some param => readParams site function path rest (position + 1) (earlier ++ [param]) ok
        | none => readParams site function path rest (position + 1) earlier false
      (params, diagnostics ++ others)

/-- The declared result type: absent or null for none. -/
def resultType (declaration : Json) : Except CompileError (Option StaticType) :=
  match declaration.get? "type" with
  | none | some .null => .ok none
  | some (.string text) =>
      match StaticType.ofText? text with
      | some type => .ok (some type)
      | none => .error (.unknownType text)
  | some _ => .error .typeNotText

/-- What an entry function may not declare. -/
def entryDiagnostics (site : SourceSite) (path : SourcePath) (signature : Signature) :
    List Diagnostic :=
  let returnsNothing :=
    if signature.returns.isSome then
      [site.error (path.member "type") (.entryReturns signature.name)]
    else []
  let takesArguments :=
    match signature.params with
    | [] => []
    | [param] =>
        if param.type = .array (some .string) then []
        else [site.error (path.member "params") (.entryParams signature.name)]
    | _ => [site.error (path.member "params") (.entryParams signature.name)]
  returnsNothing ++ takesArguments

/-- Reads the parameters that a declaration lists. -/
def declaredParams (site : SourceSite) (function : String) (path : SourcePath)
    (declaration : Json) : Option (List Parameter) × List Diagnostic :=
  let path := path.member "params"
  match declaration.get? "params" with
  | none => (some [], [])
  | some (.array items) => readParams site function path items 0 [] true
  | some _ => (none, [site.error path .paramsNotList])

/-- The signature that a declaration at a path states, and what there is to say about it. Without a
signature the function is unknown to the rest of the compilation. -/
def readSignature (site : SourceSite) (space : String) (path : SourcePath)
    (declaration : Json) : Option Signature × List Diagnostic :=
  match declaration.object?, (declaration.get? "name").bind Json.string? with
  | none, _ => (none, [site.error path .declarationNotObject])
  | some _, none => (none, [site.error path .declarationWithoutName])
  | some _, some name =>
      let fullName := space ++ "." ++ name
      if space = nativeNamespace then (none, [site.error path .nativeNamespaceReserved])
      else
        match resultType declaration with
        | .error error => (none, [site.error (path.member "type") error])
        | .ok returns =>
            match declaredParams site fullName path declaration with
            | (none, diagnostics) => (none, diagnostics)
            | (some params, diagnostics) =>
                let signature : Signature := ⟨fullName, params, returns⟩
                let entry :=
                  if name = entryName then entryDiagnostics site path signature else []
                (some signature, diagnostics ++ entry)

end DocScript
