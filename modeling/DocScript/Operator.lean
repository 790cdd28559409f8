import DocScript.Bytecode.Opcode

/-!
# Operators

The operators with a list of operands: their names in a document and the operations of the machine
that stand for them.
-/

namespace DocScript

/-- An operator on numbers. -/
inductive Arithmetic where
  | add
  | subtract
  | multiply
  | divide
  | modulo
  deriving DecidableEq, Inhabited, Repr

namespace Arithmetic

def name : Arithmetic → String
  | .add => "add"
  | .subtract => "subtract"
  | .multiply => "multiply"
  | .divide => "divide"
  | .modulo => "modulo"

def opcode : Arithmetic → Opcode
  | .add => .add
  | .subtract => .sub
  | .multiply => .mul
  | .divide => .div
  | .modulo => .mod

end Arithmetic

/-- An operator with a list of operands. -/
inductive Operator where
  | and
  | or
  | arithmetic (op : Arithmetic)
  | eq
  | gt
  | lt
  deriving DecidableEq, Inhabited, Repr

namespace Operator

def name : Operator → String
  | .and => "and"
  | .or => "or"
  | .arithmetic op => op.name
  | .eq => "eq"
  | .gt => "gt"
  | .lt => "lt"

def opcode : Operator → Opcode
  | .and => .and
  | .or => .or
  | .arithmetic op => op.opcode
  | .eq => .eq
  | .gt => .gt
  | .lt => .lt

def isArithmetic : Operator → Bool
  | .arithmetic _ => true
  | _ => false

/-- The operators whose single operand must still be written as a list. -/
def isLogical : Operator → Bool
  | .and | .or => true
  | _ => false

end Operator

end DocScript
