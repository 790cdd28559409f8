import DocScript.Machine.Fault
import DocScript.Operator
import DocScript.Value.Heap

/-!
# Operations

An operator takes any number of operands, at least one. Arithmetic folds them from left to right, a
comparison holds if it holds for all neighbours, and a connective looks at all operands.
-/

namespace DocScript

namespace Arithmetic

/-- Integers stay integers and wrap around; only their quotient is a float. A remainder has the
sign of the dividend. -/
def onInts (op : Arithmetic) (a b : Int64) : Except FaultCause Value :=
  match op with
  | .add => .ok (.int (a + b))
  | .subtract => .ok (.int (a - b))
  | .multiply => .ok (.int (a * b))
  | .divide => .ok (.float (Binary64.div (.ofInt64 a) (.ofInt64 b)))
  | .modulo => if b = 0 then .error .moduloByZero else .ok (.int (a % b))

def onFloats (op : Arithmetic) (a b : Binary64) : Binary64 :=
  match op with
  | .add => a.add b
  | .subtract => a.sub b
  | .multiply => a.mul b
  | .divide => a.div b
  | .modulo => a.rem b

/-- Combines two values. A string next to any value is joined with its text. -/
def apply (op : Arithmetic) (heap : Heap) (left right : Value) : Except FaultCause Value :=
  if op = .add ∧ (left.kind = .string ∨ right.kind = .string) then
    match heap.text? left, heap.text? right with
    | some left, some right => .ok (.string (left ++ right))
    | _, _ => .error .endless
  else
    match left, right with
    | .int a, .int b => op.onInts a b
    | _, _ =>
        match left.float?, right.float? with
        | some a, some b => .ok (.float (op.onFloats a b))
        | _, _ => .error (.typeClash (.combination op.opcode left.kind right.kind))

/-- Combines operands from left to right. -/
def fold (op : Arithmetic) (heap : Heap) (first : Value) : List Value → Except FaultCause Value
  | [] => .ok first
  | operand :: rest =>
      match op.apply heap first operand with
      | .error cause => .error cause
      | .ok value => op.fold heap value rest

end Arithmetic

namespace Operator

/-- Whether a relation holds for all neighbours. -/
def chain (related : α → α → Bool) : List α → Bool
  | a :: b :: rest => related a b && chain related (b :: rest)
  | _ => true

/-- The operands as numbers; the first that is none is at fault. -/
def numbers (op : Opcode) : List Value → Except FaultCause (List Binary64)
  | [] => .ok []
  | value :: rest =>
      match value.float? with
      | none => .error (.typeClash (.numericOperand op value.kind))
      | some number =>
          match numbers op rest with
          | .error cause => .error cause
          | .ok others => .ok (number :: others)

/-- The operands as truth values; the first that is none is at fault. -/
def truths (op : Opcode) : List Value → Except FaultCause (List Bool)
  | [] => .ok []
  | .bool truth :: rest =>
      match truths op rest with
      | .error cause => .error cause
      | .ok others => .ok (truth :: others)
  | value :: _ => .error (.typeClash (.boolOperand op value.kind))

/-- Applies an operator to its operands. -/
def apply (operator : Operator) (heap : Heap) (operands : List Value) : Except FaultCause Value :=
  match operator with
  | .arithmetic op =>
      match operands with
      | [] => .ok .null
      | first :: rest => op.fold heap first rest
  | .eq => (FaultCause.ended (heap.allEqual? operands)).map Value.bool
  | .gt => (numbers .gt operands).map fun numbers =>
      .bool (chain (fun a b => Binary64.lt b a) numbers)
  | .lt => (numbers .lt operands).map fun numbers => .bool (chain Binary64.lt numbers)
  | .and => (truths .and operands).map fun truths => .bool (truths.all id)
  | .or => (truths .or operands).map fun truths => .bool (truths.any id)

theorem exists_of_map_ok {change : α → β} {result : Except ε α} {value : β}
    (h : result.map change = .ok value) : ∃ found, change found = value := by
  cases result with
  | ok found =>
      cases h
      exact ⟨found, rfl⟩
  | error => cases h

/-- What is not arithmetic gives a truth value. -/
theorem exists_truth_of_apply {operator : Operator} {heap : Heap} {operands : List Value}
    {value : Value} (hlogical : operator.isArithmetic = false)
    (h : operator.apply heap operands = .ok value) : ∃ truth, value = .bool truth := by
  unfold apply at h
  split at h
  next => cases hlogical
  all_goals
    obtain ⟨_, rfl⟩ := exists_of_map_ok h
    exact ⟨_, rfl⟩

end Operator

end DocScript
