/-!
# Reserved words
-/

namespace DocScript

/-- The words that no parameter and no local may have as its name. -/
def reservedWords : List String :=
  ["let", "return", "print", "if", "else", "then", "while", "call", "push", "set", "get", "and",
    "or", "eq", "gt", "lt", "add", "subtract", "multiply", "divide", "length", "string", "name",
    "true", "false", "null", "namespace", "function", "params", "locals", "body", "args", "at",
    "value", "type", "condition", "array"]

def isReserved (name : String) : Bool := reservedWords.contains name

end DocScript
