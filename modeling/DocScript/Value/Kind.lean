/-!
# Kinds of values
-/

namespace DocScript

/-- The kind of a value, which every value shows when the program runs. -/
inductive ValueKind where
  | int
  | float
  | string
  | bool
  | array
  | pointer
  | null
  deriving DecidableEq, Inhabited, Repr

namespace ValueKind

def name : ValueKind → String
  | .int => "int"
  | .float => "float"
  | .string => "string"
  | .bool => "bool"
  | .array => "array"
  | .pointer => "pointer"
  | .null => "null"

/-- A kind fits itself, and the two kinds of numbers fit each other. -/
def fits : ValueKind → ValueKind → Bool
  | .int, .float => true
  | .float, .int => true
  | a, b => a == b

end ValueKind

end DocScript
