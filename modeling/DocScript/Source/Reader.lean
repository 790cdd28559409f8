import DocScript.Json
import DocScript.Source.Tree

/-!
# From documents to statements

Statements and expressions are written as JSON objects with one key that names the form. The
reader of one level takes the reader of the levels below as an argument and hands it nothing but
parts of its own value; `Expr.ofJson` and `Stmt.ofJson` tie the knot over the depth of the value.
-/

namespace DocScript

/-! ### Fields -/

/-- The keys of an object that are not among the known ones. -/
def strayKeys (known : List String) (members : List (String × Json)) : List String :=
  (members.map Prod.fst).filter fun key => !known.contains key

/-- The first key of an object, or a stand-in for an empty one. -/
def firstKey (members : List (String × Json)) : String :=
  match members with
  | (key, _) :: _ => key
  | [] => "<empty>"

/-- A field that must be a string. -/
def textField (members : List (String × Json)) (key : String) : Field String :=
  match members.lookup key with
  | none => .absent
  | some (.string text) => .given text
  | some _ => .misshapen

/-- A field that counts only if it is a string. -/
def optionalText (members : List (String × Json)) (key : String) : Option String :=
  (members.lookup key).bind Json.string?

/-- A field that must be an array, with each item read. -/
def listField (item : Json → α) (members : List (String × Json)) (key : String) :
    Field (List α) :=
  match members.lookup key with
  | none => .absent
  | some (.array items) => .given (items.map item)
  | some _ => .misshapen

/-- A call, with the fields that a call does not know. -/
def CallTarget.ofMembers (members : List (String × Json)) : CallTarget where
  stray := strayKeys ["namespace", "function", "args"] members
  space := optionalText members "namespace"
  function := optionalText members "function"

/-- Where the arguments of a call stand, and the arguments by name. `beside` is the field of the
object around the call. -/
def readArguments (argument : Json → Expr) (members : List (String × Json))
    (beside : Option Json) : ArgumentPlace × Option (List (String × Expr)) :=
  let named (args : Json) : Option (List (String × Expr)) :=
    match args with
    | .null => some []
    | .object members => some (members.map fun (name, value) => (name, argument value))
    | _ => none
  match members.lookup "args", beside with
  | some _, some _ => (.both, some [])
  | some args, none => (.within, named args)
  | none, some args => (.beside, named args)
  | none, none => (.within, some [])

/-! ### Expressions -/

/-- The keys that name a form of expressions. Of several such keys in an object the one that comes
first in this list names the form. -/
def expressionForms : List String :=
  ["string", "call", "get", "not", "negate", "length", "name", "and", "or", "add", "subtract",
    "multiply", "divide", "modulo", "eq", "gt", "lt"]

/-- The keys that an object with the given form may have. -/
def knownKeys (form : String) : List String :=
  if form = "call" then ["call", "args"] else [form]

/-- The operator that a form stands for. -/
def Operator.ofName? (form : String) : Option Operator :=
  match form with
  | "and" => some .and
  | "or" => some .or
  | "add" => some (.arithmetic .add)
  | "subtract" => some (.arithmetic .subtract)
  | "multiply" => some (.arithmetic .multiply)
  | "divide" => some (.arithmetic .divide)
  | "modulo" => some (.arithmetic .modulo)
  | "eq" => some .eq
  | "gt" => some .gt
  | "lt" => some .lt
  | _ => none

/-- The operands of an operator: a list, or for most operators a single operand. -/
def readOperands (operator : Operator) (operand : Json → Expr) (value : Json) :
    Option (List Expr) :=
  match value with
  | .array items => some (items.map operand)
  | _ => if operator.isLogical then none else some [operand value]

/-- An element access. -/
def readGet (operand : Json → Expr) (value : Json) : Expr :=
  match value with
  | .object members =>
      .get (strayKeys ["array", "at"] members) (optionalText members "array")
        ((members.lookup "at").map operand)
  | _ => .misshapenGet

/-- The expression of a form with its value; `members` are those of the object around it. -/
def readForm (operand : Json → Expr) (members : List (String × Json)) (form : String)
    (value : Json) : Expr :=
  match form with
  | "string" => .string value.string?
  | "call" =>
      match value with
      | .object call =>
          let (place, arguments) := readArguments operand call (members.lookup "args")
          .call (.ofMembers call) place arguments
      | _ => .misshapenCall
  | "get" => readGet operand value
  | "not" => .not (operand value)
  | "negate" => .negate (operand value)
  | "length" => .length (operand value)
  | "name" => .named value.string?
  | _ =>
      match Operator.ofName? form with
      | some operator => .operator operator (readOperands operator operand value)
      | none => .unknownForm form

/-- Reads one level of an expression. -/
def Expr.readLevel (operand : Json → Expr) : Json → Expr
  | .null => .null
  | .bool value => .bool value
  | .int value => .int value
  | .float value => .float value
  | .string name => .reference name
  | .array items => .array (items.map operand)
  | .object members =>
      match expressionForms.findSome? fun form => (members.lookup form).map (form, ·) with
      | none => .unknownForm (firstKey members)
      | some (form, value) =>
          let body := readForm operand members form value
          match strayKeys (knownKeys form) members with
          | [] => body
          | stray => .overfull form stray body

/-- Reads the upper `depth` levels of an expression. -/
def Expr.ofLevels : (depth : Nat) → Json → Expr
  | 0 => fun _ => .null
  | depth + 1 => Expr.readLevel (Expr.ofLevels depth)

mutual

/-- The number of levels of a value. -/
def Json.depth : Json → Nat
  | .array items => Json.depthOfItems items + 1
  | .object members => Json.depthOfMembers members + 1
  | _ => 1

def Json.depthOfItems : List Json → Nat
  | [] => 0
  | item :: rest => max item.depth (Json.depthOfItems rest)

def Json.depthOfMembers : List (String × Json) → Nat
  | [] => 0
  | (_, value) :: rest => max value.depth (Json.depthOfMembers rest)

end

/-- The expression that a value writes. -/
def Expr.ofJson (value : Json) : Expr := Expr.ofLevels value.depth value

/-! ### Statements -/

/-- The keys that name a form of statements, in the order in which they are looked for. -/
def statementForms : List String :=
  ["let", "print", "call", "if", "while", "set", "push", "return", "on", "ffi", "alloc",
    "memwrite", "memread", "free"]

/-- An argument of a foreign call. -/
def ForeignOperand.read (operand : Json → Expr) (value : Json) : ForeignOperand :=
  match value with
  | .object members =>
      .operand (strayKeys ["value", "type"] members) (textField members "type")
        ((members.lookup "value").map operand)
  | _ => .misshapen

/-- The handler of a subscription. -/
def HandlerTarget.ofMembers (members : List (String × Json)) : HandlerTarget where
  stray := strayKeys ["namespace", "function"] members
  space := optionalText members "namespace"
  function := textField members "function"

/-- A form whose value must be an object, read from the members of the value. -/
def objectForm (form : String) (value : Json) (read : List (String × Json) → Stmt) : Stmt :=
  match value with
  | .object members => read members
  | _ => .misshapen form

/-- The statement of a form with its value; `members` are those of the object around it. -/
def readStatementForm (operand : Json → Expr) (block : Json → Stmt)
    (members : List (String × Json)) (form : String) (value : Json) : Stmt :=
  match form with
  | "let" => objectForm form value fun body =>
      .assign (strayKeys ["name", "type", "value"] body) (textField body "name")
        (optionalText body "type") ((body.lookup "value").map operand)
  | "print" => .print (operand value)
  | "call" =>
      match value with
      | .object call =>
          let (place, arguments) := readArguments operand call (members.lookup "args")
          .call (.ofMembers call) place arguments
      | _ => .misshapenCall
  | "if" => objectForm form value fun body =>
      .branch (strayKeys ["condition", "then", "else"] body)
        ((body.lookup "condition").map operand) (listField block body "then")
        (listField block body "else")
  | "while" => objectForm form value fun body =>
      .loop (strayKeys ["condition", "body"] body) ((body.lookup "condition").map operand)
        (listField block body "body")
  | "set" => objectForm form value fun body =>
      .setElement (strayKeys ["array", "at", "value"] body) (textField body "array")
        ((body.lookup "at").map operand) ((body.lookup "value").map operand)
  | "push" => objectForm form value fun body =>
      .pushElement (strayKeys ["array", "value"] body) (textField body "array")
        ((body.lookup "value").map operand)
  | "return" => .giveBack (operand value)
  | "on" => objectForm form value fun body =>
      .subscribe (strayKeys ["event", "call"] body) (textField body "event")
        ((body.lookup "call").bind Json.object? |>.map HandlerTarget.ofMembers)
  | "ffi" => objectForm form value fun body =>
      .foreign (strayKeys ["lib", "symbol", "args", "returns", "into"] body)
        (textField body "lib") (textField body "symbol") (textField body "returns")
        (listField (ForeignOperand.read operand) body "args") (textField body "into")
  | "alloc" => objectForm form value fun body =>
      .allocate (strayKeys ["size", "into"] body) ((body.lookup "size").map operand)
        (textField body "into")
  | "memwrite" => objectForm form value fun body =>
      .writeMemory (strayKeys ["ptr", "offset", "value", "type"] body) (textField body "type")
        ((body.lookup "ptr").map operand) ((body.lookup "offset").map operand)
        ((body.lookup "value").map operand)
  | "memread" => objectForm form value fun body =>
      .readMemory (strayKeys ["ptr", "offset", "type", "into"] body) (textField body "type")
        ((body.lookup "ptr").map operand) ((body.lookup "offset").map operand)
        (textField body "into")
  | "free" => .release (operand value)
  | _ => .unknownForm form

/-- Reads one level of a statement. -/
def Stmt.readLevel (operand : Json → Expr) (block : Json → Stmt) : Json → Stmt
  | .object members =>
      match statementForms.findSome? fun form => (members.lookup form).map (form, ·) with
      | none => .unknownForm (firstKey members)
      | some (form, value) =>
          let body := readStatementForm operand block members form value
          match strayKeys (knownKeys form) members with
          | [] => body
          | stray => .overfull form stray body
  | _ => .notObject

/-- Reads the upper `depth` levels of a statement. -/
def Stmt.ofLevels : (depth : Nat) → Json → Stmt
  | 0 => fun _ => .notObject
  | depth + 1 => Stmt.readLevel (Expr.ofLevels depth) (Stmt.ofLevels depth)

/-- The statement that a value writes. -/
def Stmt.ofJson (value : Json) : Stmt := Stmt.ofLevels value.depth value

end DocScript
