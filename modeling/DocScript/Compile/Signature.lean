import DocScript.Native
import DocScript.Value.Scalar

/-!
# Signatures

What a call needs to know of its callee: the parameters in order, with their defaults, and the type
of the result. The functions of the graphics namespace are known from the start.
-/

namespace DocScript

/-- A parameter; one with a default may be left out of a call. -/
structure Parameter where
  name : String
  type : StaticType
  default : Option Constant
  deriving Inhabited, Repr

/-- A function as its callers see it. A function without a result type returns nothing. -/
structure Signature where
  name : String
  params : List Parameter
  returns : Option StaticType
  deriving Inhabited, Repr

namespace Signature

/-- Whether the function returns nothing. -/
def isVoid (signature : Signature) : Bool := signature.returns.isNone

/-- The parameter of a name. -/
def param? (signature : Signature) (name : String) : Option Parameter :=
  signature.params.find? (·.name == name)

end Signature

/-- The signatures of all functions that can be called, each name once. -/
structure SignatureTable where
  signatures : List Signature := []
  deriving Inhabited, Repr

namespace SignatureTable

/-- The signature of a name. -/
def get? (table : SignatureTable) (name : String) : Option Signature :=
  table.signatures.find? (·.name == name)

def contains (table : SignatureTable) (name : String) : Bool :=
  table.signatures.any (·.name == name)

def size (table : SignatureTable) : Nat := table.signatures.length

def isEmpty (table : SignatureTable) : Bool := table.signatures.isEmpty

/-- Adds a signature unless its name is taken; the flag says whether it was added. -/
def register (table : SignatureTable) (signature : Signature) : Bool × SignatureTable :=
  if table.contains signature.name then (false, table)
  else (true, ⟨signature :: table.signatures⟩)

/-- The signature of a native function. -/
def native (function : Native) : Signature where
  name := nativeNamespace ++ "." ++ function.name
  params := function.params.map fun (name, type) => ⟨name, type, none⟩
  returns := function.returns

/-- The native functions. -/
def natives : SignatureTable := ⟨Native.all.map native⟩

end SignatureTable

end DocScript
