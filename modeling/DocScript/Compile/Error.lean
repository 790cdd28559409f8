import DocScript.Compile.FunctionBuilder
import DocScript.Value.MemoryWidth

/-!
# What the compiler objects to

Each objection is a cause; its wording stands in one place.
-/

namespace DocScript

/-- Something that comes in a number of at most 255. -/
inductive Counted where
  | arrayElements
  | operands
  | arguments
  | foreignArguments
  deriving DecidableEq, Repr

def Counted.name : Counted → String
  | .arrayElements => "array elements"
  | .operands => "operands"
  | .arguments => "arguments"
  | .foreignArguments => "ffi arguments"

/-- The two kinds of names that a function declares. -/
inductive DeclaredName where
  | parameter
  | slot
  deriving DecidableEq, Repr

def DeclaredName.name : DeclaredName → String
  | .parameter => "parameter"
  | .slot => "local"

/-- Why a program is not compiled. -/
inductive CompileError where
  -- units and declarations
  | malformedText (message : String)
  | unitNotObject
  | invalidNamespace
  | noFunctions
  | duplicateFunction (name : String) (first : Option String)
  | declarationNotObject
  | declarationWithoutName
  | nativeNamespaceReserved
  | unknownType (text : String)
  | typeNotText
  | entryReturns (name : String)
  | entryParams (name : String)
  | paramsNotList
  | paramWithoutName
  | reservedName (name : String) (declared : DeclaredName)
  | repeatedParam (name function : String)
  | defaultNotLiteral (name : String)
  | requiredAfterDefault (name function : String)
  | bodyNotList (function : String)
  | exceeded (function : String) (limit : Overflow)
  -- locals
  | localsNotList
  | localWithoutName
  | localHidesParam (name : String)
  | repeatedLocal (name : String)
  | localWithoutType (name : String)
  -- forms
  | unknownField (key form : String)
  | tooMany (what : Counted) (count : Nat)
  | statementNotObject
  | unknownStatement (found : String)
  | unknownExpression (found : String)
  | objectExpected (form : String)
  | fieldRequired (form field : String)
  | fieldNotText (form field : String)
  | blockNotList (field : String)
  -- names and types
  | undefinedVariable (name : String)
  | unassignedVariable (name : String)
  | notAnArray (name : String)
  | paramReassigned (name : String)
  | letTypeDiffers (text name : String) (declared : StaticType)
  | letWithoutValue (name : String)
  | letElementMismatch (name : String) (element : ValueKind) (position : Nat) (found : StaticType)
  | letMismatch (name : String) (declared found : StaticType)
  | setMismatch (name : String) (element : ValueKind) (found : StaticType)
  | pushMismatch (name : String) (element : ValueKind) (found : StaticType)
  | returnFromVoid
  | returnWithoutValue (function : String) (expected : StaticType)
  | returnMismatch (expected found : StaticType)
  | mixedArray (expected found : StaticType)
  | boolOperand (form : String)
  -- expressions
  | stringNotText
  | nameNotText
  | operandsNotList (form : String)
  | noOperands (form : String)
  | getNotObject
  | getWithoutArray
  | getWithoutIndex
  | noLength (name : String)
  -- calls
  | callNotObject
  | callWithoutFunction
  | unknownFunction (name : String)
  | voidAsValue (name : String)
  | argumentsTwice (name : String)
  | argumentsNotObject (name : String)
  | unknownArgument (function name : String)
  | argumentMismatch (function name : String) (expected found : StaticType)
  | missingArgument (function name : String)
  -- events, foreign calls and memory
  | handlerNotObject
  | returnsNotText
  | foreignArgumentsNotList
  | voidIntoLocal
  | intoNotPointer (name : String)
  | intoNotText
  | unknownWidth (text : String)
  deriving DecidableEq, Repr

def CompileError.message : CompileError → String
  | .malformedText message => s!"Malformed JSON: {message}"
  | .unitNotObject => "Source unit must be a JSON object"
  | .invalidNamespace => "'namespace' must be a non-empty string"
  | .noFunctions => "Source unit has no 'functions' array"
  | .duplicateFunction name (some first) =>
      s!"Duplicate function '{name}'; first defined in {first}"
  | .duplicateFunction name none => s!"Duplicate function '{name}'"
  | .declarationNotObject => "Function declaration must be an object"
  | .declarationWithoutName => "Function declaration is missing a 'name'"
  | .nativeNamespaceReserved => "Namespace 'Gfx' is reserved for native functions"
  | .unknownType text => s!"Unknown type '{text}'"
  | .typeNotText => "'type' must be a string"
  | .entryReturns name => s!"'{name}' must not declare a return type"
  | .entryParams name => s!"'{name}' may only take a single 'string[]' parameter"
  | .paramsNotList => "'params' must be an array"
  | .paramWithoutName => "Parameter is missing a 'name'"
  | .reservedName name declared =>
      s!"'{name}' is a reserved word and cannot be used as a {declared.name} name"
  | .repeatedParam name function => s!"Parameter '{name}' is declared twice in '{function}'"
  | .defaultNotLiteral name => s!"Default value for parameter '{name}' must be a literal"
  | .requiredAfterDefault name function =>
      s!"Parameter '{name}' of '{function}' has no default but follows a defaulted parameter"
  | .bodyNotList function => s!"Function '{function}' must have a 'body' array"
  | .exceeded function limit => limit.message function
  | .localsNotList => "'locals' must be an array"
  | .localWithoutName => "Local is missing a 'name'"
  | .localHidesParam name => s!"Local '{name}' conflicts with a parameter of the same name"
  | .repeatedLocal name => s!"Local '{name}' is declared twice"
  | .localWithoutType name => s!"Local '{name}' is missing a 'type'"
  | .unknownField key form => s!"Unknown field '{key}' in {form}"
  | .tooMany what count => s!"Too many {what.name} ({count}); the limit is 255"
  | .statementNotObject => "Statement must be a JSON object"
  | .unknownStatement found => s!"Unsupported statement kind '{found}'"
  | .unknownExpression found => s!"Unknown expression kind '{found}'"
  | .objectExpected form => s!"'{form}' expects an object"
  | .fieldRequired form field => s!"'{form}' requires a '{field}' field"
  | .fieldNotText form field => s!"'{field}' of '{form}' must be a string"
  | .blockNotList field => s!"'{field}' must be an array of statements"
  | .undefinedVariable name => s!"Undefined variable '{name}'"
  | .unassignedVariable name => s!"Variable '{name}' is used before being assigned"
  | .notAnArray name => s!"Variable '{name}' is not an array"
  | .paramReassigned name => s!"Parameter '{name}' cannot be reassigned"
  | .letTypeDiffers text name declared =>
      s!"'let' type '{text}' does not match '{name}' declared as '{declared.toText}'"
  | .letWithoutValue name => s!"'let' for '{name}' is missing a 'value'"
  | .letElementMismatch name element position found =>
      s!"Type mismatch: '{name}' holds '{element.name}' but element {position} is " ++
        s!"'{found.toText}'"
  | .letMismatch name declared found =>
      s!"Type mismatch: '{name}' is declared as '{declared.toText}' but assigned " ++
        s!"'{found.toText}'"
  | .setMismatch name element found =>
      s!"Type mismatch: array '{name}' holds '{element.name}' but setting '{found.toText}'"
  | .pushMismatch name element found =>
      s!"Type mismatch: array '{name}' holds '{element.name}' but pushing '{found.toText}'"
  | .returnFromVoid => "Function is void but contains a return value"
  | .returnWithoutValue function expected =>
      s!"Function '{function}' must return a '{expected.toText}' value"
  | .returnMismatch expected found =>
      s!"Expected type '{expected.toText}' but got '{found.toText}' in return"
  | .mixedArray expected found =>
      s!"Array literal mixes '{expected.toText}' and '{found.toText}' elements"
  | .boolOperand form => s!"Cannot use bool in '{form}' expression"
  | .stringNotText => "'string' expects a string literal"
  | .nameNotText => "'name' expects a variable name"
  | .operandsNotList form => s!"'{form}' expects an array of operands"
  | .noOperands form => s!"'{form}' requires at least one operand"
  | .getNotObject => "'get' expects an object with 'array' and 'at'"
  | .getWithoutArray => "'get' requires an 'array' name"
  | .getWithoutIndex => "'get' requires an 'at' index"
  | .noLength name => s!"Variable '{name}' does not have a length"
  | .callNotObject => "'call' expects an object with 'namespace' and 'function'"
  | .callWithoutFunction => "'call' requires a 'function' name"
  | .unknownFunction name => s!"Unknown function '{name}'"
  | .voidAsValue name => s!"'{name}' is void and cannot be used as an expression"
  | .argumentsTwice name => s!"Arguments for '{name}' are given twice"
  | .argumentsNotObject name => s!"'args' for '{name}' must be an object"
  | .unknownArgument function name => s!"'{function}' has no parameter named '{name}'"
  | .argumentMismatch function name expected found =>
      s!"Argument '{name}' of '{function}' expects '{expected.toText}' but got " ++
        s!"'{found.toText}'"
  | .missingArgument function name => s!"'{function}' is missing required argument '{name}'"
  | .handlerNotObject => "'on' requires a 'call' object naming the handler"
  | .returnsNotText => "'returns' of 'ffi' must be a string"
  | .foreignArgumentsNotList => "'args' of 'ffi' must be an array"
  | .voidIntoLocal => "'ffi' returning void cannot store a result"
  | .intoNotPointer name => s!"'{name}' must be a pointer to hold an allocation"
  | .intoNotText => "'into' must name a local"
  | .unknownWidth text =>
      s!"Unknown memory type '{text}'; expected int8, int16, int32, int64, float32, float64 or ptr"

end DocScript
