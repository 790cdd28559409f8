import DocScript.Bytecode.Opcode
import DocScript.Text.Digits
import DocScript.Value.Kind
import DocScript.Value.MemoryWidth

/-!
# Faults

A fault ends a run. It has a cause, whose wording stands in one place, and the instructions in
which it arose: a fault of a handler that runs inside a loop arose in the handler's instruction and
in the one that entered the loop.

What an instruction computes may also have no end. That is passed on as faults are, but no run ends
with it, so it is never seen from outside.
-/

namespace DocScript

/-- The kinds of faults. -/
inductive FaultKind where
  | entryNotFound
  | unknownFunction
  | unknownOpcode
  | malformedBytecode
  | arityMismatch
  | stackUnderflow
  | stackOverflow
  | typeMismatch
  | invalidLocal
  | divisionByZero
  | indexOutOfBounds
  | capabilityMissing
  | memoryFault
  | hostError
  /-- No fault, but a computation that has no end. -/
  | endless
  deriving DecidableEq, Inhabited, Repr

/-- The code that reports show. There is none for what is never reported. -/
def FaultKind.code : FaultKind → String
  | .entryNotFound => "E-VM-ENTRY"
  | .unknownFunction => "E-VM-UNKNOWN-FUNCTION"
  | .unknownOpcode => "E-VM-UNKNOWN-OPCODE"
  | .malformedBytecode => "E-VM-MALFORMED"
  | .arityMismatch => "E-VM-ARITY"
  | .stackUnderflow => "E-VM-STACK-UNDERFLOW"
  | .stackOverflow => "E-VM-STACK-OVERFLOW"
  | .typeMismatch => "E-VM-TYPE"
  | .invalidLocal => "E-VM-INVALID-LOCAL"
  | .divisionByZero => "E-VM-DIV-ZERO"
  | .indexOutOfBounds => "E-VM-INDEX-OOB"
  | .capabilityMissing => "E-VM-CAPABILITY"
  | .memoryFault => "E-VM-MEMORY"
  | .hostError => "E-VM-HOST"
  | .endless => ""

/-- A number that a memory operation takes from the stack. -/
inductive MemoryNumber where
  | size
  | offset
  deriving DecidableEq, Repr

def MemoryNumber.name : MemoryNumber → String
  | .size => "size"
  | .offset => "offset"

/-- A function name that stands for nothing. -/
inductive UnresolvedName where
  | function (name : String)
  | native (name : String)
  | handler (name event : String)
  deriving DecidableEq, Repr

def UnresolvedName.message : UnresolvedName → String
  | .function name => s!"Unknown function '{name}'"
  | .native name => s!"Unknown native 'Gfx.{name}'"
  | .handler name event => s!"Unknown handler '{name}' for event '{event}'"

/-- What code cannot say. -/
inductive MalformedCode where
  | truncatedOperand (op : Opcode)
  | invalidConstant (position : Nat)
  | noOperands (op : Opcode)
  | jumpOutside (target size : Nat)
  deriving DecidableEq, Repr

def MalformedCode.message : MalformedCode → String
  | .truncatedOperand op => s!"Truncated operand for {op.mnemonic}"
  | .invalidConstant position => s!"Invalid constant index {position}"
  | .noOperands op => s!"{op.mnemonic} requires at least one operand"
  | .jumpOutside target size => s!"Jump target {target} is outside the function ({size} bytes)"

/-- A function that is entered with a wrong number of arguments. -/
inductive WrongArity where
  | function (name : String) (expected given : Nat)
  | native (name : String) (expected given : Nat)
  deriving DecidableEq, Repr

def WrongArity.message : WrongArity → String
  | .function name expected given =>
      s!"Function '{name}' arity mismatch: expected {expected}, got {given}"
  | .native name expected given => s!"'Gfx.{name}' expects {expected} arguments, got {given}"

/-- What an operation does not find on the stack. -/
inductive Shortage where
  | top (op : Opcode)
  | value (op : Opcode)
  | operand (op : Opcode)
  | condition
  | operands (op : Opcode) (count : Nat)
  | elements (count : Nat)
  | callee
  | arguments (callee : String) (count : Nat)
  | foreignArguments (symbol : String) (count : Nat)
  | number (op : Opcode) (what : MemoryNumber)
  | pointer (op : Opcode)
  deriving DecidableEq, Repr

def Shortage.message : Shortage → String
  | .top op => s!"Stack underflow on {op.mnemonic}"
  | .value op => s!"{op.mnemonic} expects a value"
  | .operand op => s!"{op.mnemonic} expects value"
  | .condition => "JMP_IF_FALSE expects a condition"
  | .operands op count => s!"{op.mnemonic} expects {count} operands"
  | .elements count => s!"MAKE_ARRAY expects {count} elements"
  | .callee => "CALL expects a function name"
  | .arguments name count => s!"CALL '{name}' expects {count} arguments"
  | .foreignArguments symbol count => s!"FFI_CALL '{symbol}' expects {count} arguments"
  | .number op what => s!"{op.mnemonic} expects a {what.name}"
  | .pointer op => s!"{op.mnemonic} expects a pointer"

/-- A value that an operation cannot take. -/
inductive TypeClash where
  | numericOperand (op : Opcode) (given : ValueKind)
  | boolOperand (op : Opcode) (given : ValueKind)
  | combination (op : Opcode) (left right : ValueKind)
  | negated (given : ValueKind)
  | inverted (given : ValueKind)
  | intLocal (given : ValueKind)
  | mixedArray (first given : ValueKind)
  | setElement (given element : ValueKind)
  | pushElement (given element : ValueKind)
  | measured (given : ValueKind)
  | index (op : Opcode) (given : ValueKind)
  | array (op : Opcode) (given : ValueKind)
  | callee (given : ValueKind)
  | text (op : Opcode) (given : ValueKind)
  | width (op : Opcode) (name : String)
  | number (op : Opcode) (what : MemoryNumber)
  | pointer (op : Opcode) (given : ValueKind)
  | window
  | rect (given : ValueKind)
  | stored (given : ValueKind) (width : MemoryWidth)
  deriving DecidableEq, Repr

def TypeClash.message : TypeClash → String
  | .numericOperand op given =>
      s!"{op.mnemonic} expects numeric operands, got '{given.name}'"
  | .boolOperand op given => s!"{op.mnemonic} expects bool operands, got '{given.name}'"
  | .combination op left right =>
      s!"{op.mnemonic} cannot combine '{left.name}' and '{right.name}'"
  | .negated given => s!"NEG expects int or float, got '{given.name}'"
  | .inverted given => s!"NOT expects bool, got '{given.name}'"
  | .intLocal given => s!"Cannot store '{given.name}' into an int local"
  | .mixedArray first given => s!"Array literal mixes '{first.name}' and '{given.name}'"
  | .setElement given element =>
      s!"Cannot set '{given.name}' into '{element.name}[]' array"
  | .pushElement given element =>
      s!"Cannot push '{given.name}' into '{element.name}[]' array"
  | .measured given => s!"ARRAY_LEN expects array or string, got '{given.name}'"
  | .index op given => s!"{op.mnemonic} index must be int, got '{given.name}'"
  | .array op given => s!"{op.mnemonic} expects array, got '{given.name}'"
  | .callee given => s!"CALL expects a function name, got '{given.name}'"
  | .text op given => s!"{op.mnemonic} expects a string operand, got '{given.name}'"
  | .width op name => s!"{op.mnemonic}: unknown memory type '{name}'"
  | .number op what => s!"{op.mnemonic} {what.name} must be numeric"
  | .pointer op given => s!"{op.mnemonic} expects a pointer, got '{given.name}'"
  | .window => "'Gfx.Init' expects (int, int, string)"
  | .rect given => s!"'Gfx.DrawRect' expects numbers, got '{given.name}'"
  | .stored given memory => s!"Cannot write '{given.name}' as {memory.name}"

/-- A capability that is not there, or not now. -/
inductive Unavailable where
  | graphics (native : String)
  | whileLooping (native : String)
  | memory (op : Opcode)
  | foreign (lib symbol : String)
  deriving DecidableEq, Repr

def Unavailable.message : Unavailable → String
  | .graphics native => s!"'Gfx.{native}' requires a graphics capability"
  | .whileLooping native =>
      s!"'Gfx.{native}' cannot be called while the render loop is running"
  | .memory op => s!"{op.mnemonic} requires the memory capability"
  | .foreign lib symbol =>
      s!"FFI call to '{lib}!{symbol}' but no FFI capability is installed"

/-- An access that memory refuses. -/
inductive MemoryFault where
  | nullPointer
  | invalidPointer (address : UInt64)
  | danglingPointer (address : UInt64)
  | overrun (width : MemoryWidth) (offset length : Nat)
  | limitExceeded (size limit : Nat)
  | slotsExhausted
  | negative (op : Opcode) (what : MemoryNumber) (value : Int64)
  deriving DecidableEq, Repr

def MemoryFault.message : MemoryFault → String
  | .nullPointer => "Null pointer dereference"
  | .invalidPointer address => s!"Invalid pointer 0x{Text.hex address.toNat}"
  | .danglingPointer address => s!"Dangling pointer 0x{Text.hex address.toNat}"
  | .overrun width offset length =>
      s!"{width.name} access at offset {offset} overruns a {length}-byte block"
  | .limitExceeded size limit =>
      s!"Allocation of {size} bytes exceeds the arena limit of {limit} bytes"
  | .slotsExhausted => "Arena slot space exhausted"
  | .negative op what value => s!"{op.mnemonic}: negative {what.name} {value.toInt}"

/-- Why a run ends early. -/
inductive FaultCause where
  | entryNotFound (entry : String)
  | unresolved (name : UnresolvedName)
  | unknownOpcode (byte : UInt8)
  | malformed (code : MalformedCode)
  | arity (wrong : WrongArity)
  | underflow (shortage : Shortage)
  | callDepth (limit : Nat) (function : String)
  | typeClash (clash : TypeClash)
  | invalidLocal (slot : Nat)
  | moduloByZero
  | outOfBounds (index : Int64) (length : Nat)
  | unavailable (capability : Unavailable)
  | memory (fault : MemoryFault)
  /-- A fault that a capability reports in its own words. -/
  | reported (kind : FaultKind) (message : String)
  /-- A computation that goes through an array has no end. -/
  | endless
  deriving DecidableEq, Repr

namespace FaultCause

def kind : FaultCause → FaultKind
  | .entryNotFound _ => .entryNotFound
  | .unresolved _ => .unknownFunction
  | .unknownOpcode _ => .unknownOpcode
  | .malformed _ => .malformedBytecode
  | .arity _ => .arityMismatch
  | .underflow _ => .stackUnderflow
  | .callDepth _ _ => .stackOverflow
  | .typeClash _ => .typeMismatch
  | .invalidLocal _ => .invalidLocal
  | .moduloByZero => .divisionByZero
  | .outOfBounds _ _ => .indexOutOfBounds
  | .unavailable _ => .capabilityMissing
  | .memory _ => .memoryFault
  | .reported kind _ => kind
  | .endless => .endless

def message : FaultCause → String
  | .entryNotFound entry => s!"Entry point '{entry}' not found"
  | .unresolved name => name.message
  | .unknownOpcode byte => s!"Unknown opcode 0x{Text.byteHex byte}"
  | .malformed code => code.message
  | .arity wrong => wrong.message
  | .underflow shortage => shortage.message
  | .callDepth limit function => s!"Call stack limit exceeded ({limit}) calling '{function}'"
  | .typeClash clash => clash.message
  | .invalidLocal slot => s!"Invalid local slot {slot}"
  | .moduloByZero => "Modulo by zero"
  | .outOfBounds index length =>
      s!"Array index {index.toInt} out of bounds (length {length})"
  | .unavailable capability => capability.message
  | .memory fault => fault.message
  | .reported _ message => message
  | .endless => ""

/-- What a computation comes to, if it has an end. -/
def ended : Option α → Except FaultCause α
  | some result => .ok result
  | none => .error .endless

end FaultCause

/-- An instruction of a function. -/
structure Site where
  function : String
  offset : Nat
  deriving DecidableEq, Inhabited, Repr

/-- A cause with the instructions in which it arose, the outermost first. -/
structure Fault where
  cause : FaultCause
  sites : List Site := []
  deriving DecidableEq, Repr

namespace Fault

instance : Inhabited Fault := ⟨{ cause := .moduloByZero }⟩

def kind (fault : Fault) : FaultKind := fault.cause.kind

/-- A fault that arose inside an instruction. -/
def within (fault : Fault) (site : Site) : Fault := { fault with sites := site :: fault.sites }

/-- The cause behind the instructions in which it arose. -/
def message (fault : Fault) : String :=
  String.join (fault.sites.map fun site => s!"{site.function}@{site.offset}: ") ++
    fault.cause.message

end Fault

end DocScript
