import DocScript.Operator
import DocScript.Value.Scalar

/-!
# Statements and expressions

The program text of a function body as a tree. The tree keeps what is wrong with a document in its
place: a field that is absent or of the wrong shape, and fields that a form does not know. A
well-formed body is a tree in which every field is given and no form is overfull.
-/

namespace DocScript

/-- A field of a form that must have a certain shape. -/
inductive Field (α : Type) where
  | absent
  | misshapen
  | given (value : α)
  deriving DecidableEq, Inhabited, Repr

/-- The callee of a call, with the fields that a call does not know. -/
structure CallTarget where
  stray : List String
  space : Option String
  function : Option String
  deriving DecidableEq, Inhabited, Repr

/-- Where the arguments of a call are written. -/
inductive ArgumentPlace where
  /-- Inside the call, or nowhere. -/
  | within
  /-- Beside the call, in the object around it. -/
  | beside
  /-- In both places, which is an error. -/
  | both
  deriving DecidableEq, Inhabited, Repr

/-- An expression. -/
inductive Expr where
  | int (value : Int64)
  | float (value : Binary64)
  | bool (value : Bool)
  | null
  /-- The value of a local, written as a bare string. -/
  | reference (name : String)
  | array (items : List Expr)
  /-- An object with no key that names a form of expressions; `found` is its first key. -/
  | unknownForm (found : String)
  /-- A form with keys that it does not know. -/
  | overfull (form : String) (stray : List String) (body : Expr)
  | string (text : Option String)
  | named (name : Option String)
  | not (operand : Expr)
  | negate (operand : Expr)
  | length (operand : Expr)
  /-- The operands are missing if they are not written as a list and must be. -/
  | operator (operator : Operator) (operands : Option (List Expr))
  /-- An element access that is not an object. -/
  | misshapenGet
  | get (stray : List String) (array : Option String) (index : Option Expr)
  /-- A call that is not an object. -/
  | misshapenCall
  /-- A call; the arguments are missing if they are not an object. -/
  | call (target : CallTarget) (place : ArgumentPlace)
      (arguments : Option (List (String × Expr)))
  deriving Inhabited, Repr

/-- An argument of a foreign call: a type tag and a value. -/
inductive ForeignOperand where
  | misshapen
  | operand (stray : List String) (tag : Field String) (value : Option Expr)
  deriving Inhabited, Repr

/-- The handler of a subscription. -/
structure HandlerTarget where
  stray : List String
  space : Option String
  function : Field String
  deriving DecidableEq, Inhabited, Repr

/-- A statement. -/
inductive Stmt where
  | notObject
  /-- An object with no key that names a form of statements; `found` is its first key. -/
  | unknownForm (found : String)
  /-- A form with keys that it does not know. -/
  | overfull (form : String) (stray : List String) (body : Stmt)
  /-- A form that must be an object and is none. -/
  | misshapen (form : String)
  | assign (stray : List String) (name : Field String) (type : Option String)
      (value : Option Expr)
  | print (value : Expr)
  /-- A call that is not an object. -/
  | misshapenCall
  | call (target : CallTarget) (place : ArgumentPlace)
      (arguments : Option (List (String × Expr)))
  | branch (stray : List String) (condition : Option Expr) (whenTrue : Field (List Stmt))
      (whenFalse : Field (List Stmt))
  | loop (stray : List String) (condition : Option Expr) (body : Field (List Stmt))
  | setElement (stray : List String) (array : Field String) (index : Option Expr)
      (value : Option Expr)
  | pushElement (stray : List String) (array : Field String) (value : Option Expr)
  | giveBack (value : Expr)
  | subscribe (stray : List String) (event : Field String) (handler : Option HandlerTarget)
  | foreign (stray : List String) (lib : Field String) (symbol : Field String)
      (returns : Field String) (operands : Field (List ForeignOperand)) (into : Field String)
  | allocate (stray : List String) (size : Option Expr) (into : Field String)
  | writeMemory (stray : List String) (width : Field String) (pointer : Option Expr)
      (offset : Option Expr) (value : Option Expr)
  | readMemory (stray : List String) (width : Field String) (pointer : Option Expr)
      (offset : Option Expr) (into : Field String)
  | release (pointer : Expr)
  deriving Inhabited, Repr

end DocScript
