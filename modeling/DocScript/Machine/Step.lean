import DocScript.Machine.ArrayAccess
import DocScript.Machine.Calls
import DocScript.Machine.MemoryAccess
import DocScript.Machine.Operation

/-!
# Steps

`Exec.step` runs one instruction of the innermost function. A function that comes to the end of its
code is left without a value.
-/

namespace DocScript

namespace Exec

def pushConst (function : CompiledFunction Value) (position : Nat) : Exec σ γ Unit :=
  match function.constants[position]? with
  | some value => push value
  | none => fault (.malformed (.invalidConstant position))

def loadLocal (slot : Nat) : Exec σ γ Unit := do
  match (← locals)[slot]? with
  | some value => push value
  | none => fault (.invalidLocal slot)

/-- Stores a value in a local. -/
def setLocal (slot : Nat) (value : Value) : Exec σ γ Unit := do
  if slot < (← locals).size then
    modifyFrame fun frame => { frame with locals := frame.locals.setIfInBounds slot value }
  else fault (.invalidLocal slot)

def storeLocal (slot : Nat) : Exec σ γ Unit := do setLocal slot (← pop (.top .storeLocal))

/-- Stores a number in a local for integers; a float loses its fraction. -/
def storeLocalInt (slot : Nat) : Exec σ γ Unit := do
  let value ← pop (.top .storeLocal)
  match value.int? with
  | some number => setLocal slot (.int number)
  | none => fault (.typeClash (.intLocal value.kind))

/-- Applies an operator to a number of operands. -/
def combine (operator : Operator) (count : Nat) : Exec σ γ Unit := do
  if count = 0 then fault (.malformed (.noOperands operator.opcode))
  let operands ← popMany count (.operands operator.opcode count)
  push (← ofExcept (operator.apply (← get).heap operands))

def neg : Exec σ γ Unit := do
  match ← pop (.operand .neg) with
  | .int number => push (.int (-number))
  | .float number => push (.float number.neg)
  | other => fault (.typeClash (.negated other.kind))

def not : Exec σ γ Unit := do
  match ← pop (.operand .not) with
  | .bool truth => push (.bool (!truth))
  | other => fault (.typeClash (.inverted other.kind))

/-- Goes on at a target, which may also be the end of the code. -/
def jump (function : CompiledFunction Value) (target : Nat) : Exec σ γ Unit :=
  if function.code.size < target then
    fault (.malformed (.jumpOutside target function.code.size))
  else goTo target

def jumpIfFalse (function : CompiledFunction Value) (target : Nat) : Exec σ γ Unit := do
  if (← pop .condition).holds then return else jump function target

/-- Prints the value on top of the stack. -/
def print (setup : Setup σ γ) (site : Site) : Exec σ γ Unit := do
  let value ← within site (pop (.value .print))
  let text ← ofExcept (FaultCause.ended ((← get).heap.text? value))
  outside (setup.capabilities.print text)

/-- Runs an instruction of a function. Only printing reports its own site: the fault of a host that
refuses a text belongs to no instruction. -/
def execute (setup : Setup σ γ) (site : Site) (function : CompiledFunction Value) (operand : Nat)
    (op : Opcode) : Exec σ γ (Signal γ) :=
  let within (action : Exec σ γ Unit) : Exec σ γ (Signal γ) := do
    within site action
    return .proceed
  match op with
  | .nop => return .proceed
  | .pushConst => within (pushConst function operand)
  | .loadLocal => within (loadLocal operand)
  | .storeLocal => within (storeLocal operand)
  | .storeLocalInt => within (storeLocalInt operand)
  | .add => within (combine (.arithmetic .add) operand)
  | .sub => within (combine (.arithmetic .subtract) operand)
  | .mul => within (combine (.arithmetic .multiply) operand)
  | .div => within (combine (.arithmetic .divide) operand)
  | .mod => within (combine (.arithmetic .modulo) operand)
  | .eq => within (combine .eq operand)
  | .gt => within (combine .gt operand)
  | .lt => within (combine .lt operand)
  | .and => within (combine .and operand)
  | .or => within (combine .or operand)
  | .neg => within neg
  | .not => within not
  | .jmp => within (jump function operand)
  | .jmpIfFalse => within (jumpIfFalse function operand)
  | .call => Exec.within site (call setup site operand)
  | .ret => within ret
  | .halt => within leave
  | .print => do
      print setup site
      return .proceed
  | .makeArray => within (makeArray operand)
  | .arrayGet => within arrayGet
  | .arraySet => within arraySet
  | .arrayPush => within arrayPush
  | .arrayLen => within arrayLen
  | .onEvent => within (onEvent setup)
  | .ffiCall => within (foreignCall setup operand)
  | .memAlloc => within (memAlloc setup)
  | .memRead => within (memRead setup)
  | .memWrite => within (memWrite setup)
  | .memFree => within (memFree setup)

/-- Runs the next instruction of the innermost function. -/
def step (setup : Setup σ γ) : Exec σ γ (Signal γ) := do
  match (← get).frames with
  | [] => return .proceed
  | frame :: _ =>
      let site : Site := ⟨frame.function.name, frame.offset⟩
      match Instruction.decode? frame.function.code frame.offset with
      | none =>
          leave
          return .proceed
      | some (.unknown byte) => within site (fault (.unknownOpcode byte))
      | some (.truncated op) => within site (fault (.malformed (.truncatedOperand op)))
      | some (.operation op operand) =>
          goTo (frame.offset + op.width)
          execute setup site frame.function operand op

end Exec

end DocScript
