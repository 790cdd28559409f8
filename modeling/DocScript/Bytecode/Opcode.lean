/-!
# Operation codes

The instructions of the machine: the byte that stands for each, and what follows that byte.
-/

namespace DocScript

/-- What follows the byte of an operation. -/
inductive OperandKind where
  | none
  /-- Two bytes, the low one first: a constant, a local or a jump target. -/
  | word
  /-- One byte: a number of operands or arguments. -/
  | count
  deriving DecidableEq, Inhabited, Repr

/-- An operation of the machine. -/
inductive Opcode where
  | nop
  | pushConst
  | loadLocal
  | storeLocal
  | add
  | sub
  | mul
  | div
  | mod
  | neg
  | eq
  | gt
  | lt
  | jmp
  | jmpIfFalse
  | call
  | ret
  | print
  | and
  | or
  | storeLocalInt
  | makeArray
  | arrayGet
  | arraySet
  | arrayPush
  | arrayLen
  | not
  | onEvent
  | ffiCall
  | memAlloc
  | memRead
  | memWrite
  | memFree
  | halt
  deriving DecidableEq, Inhabited, Repr

namespace Opcode

/-- The byte that stands for an operation. -/
def byte : Opcode → UInt8
  | .nop => 0x00
  | .pushConst => 0x01
  | .loadLocal => 0x02
  | .storeLocal => 0x03
  | .add => 0x04
  | .sub => 0x05
  | .mul => 0x06
  | .div => 0x07
  | .mod => 0x08
  | .neg => 0x09
  | .eq => 0x0a
  | .gt => 0x0b
  | .lt => 0x0c
  | .jmp => 0x0d
  | .jmpIfFalse => 0x0e
  | .call => 0x0f
  | .ret => 0x10
  | .print => 0x11
  | .and => 0x12
  | .or => 0x13
  | .storeLocalInt => 0x14
  | .makeArray => 0x15
  | .arrayGet => 0x16
  | .arraySet => 0x17
  | .arrayPush => 0x18
  | .arrayLen => 0x19
  | .not => 0x1a
  | .onEvent => 0x1b
  | .ffiCall => 0x1c
  | .memAlloc => 0x1d
  | .memRead => 0x1e
  | .memWrite => 0x1f
  | .memFree => 0x20
  | .halt => 0xff

/-- The operation that a byte stands for. -/
def ofByte? (byte : UInt8) : Option Opcode :=
  match byte with
  | 0x00 => some .nop
  | 0x01 => some .pushConst
  | 0x02 => some .loadLocal
  | 0x03 => some .storeLocal
  | 0x04 => some .add
  | 0x05 => some .sub
  | 0x06 => some .mul
  | 0x07 => some .div
  | 0x08 => some .mod
  | 0x09 => some .neg
  | 0x0a => some .eq
  | 0x0b => some .gt
  | 0x0c => some .lt
  | 0x0d => some .jmp
  | 0x0e => some .jmpIfFalse
  | 0x0f => some .call
  | 0x10 => some .ret
  | 0x11 => some .print
  | 0x12 => some .and
  | 0x13 => some .or
  | 0x14 => some .storeLocalInt
  | 0x15 => some .makeArray
  | 0x16 => some .arrayGet
  | 0x17 => some .arraySet
  | 0x18 => some .arrayPush
  | 0x19 => some .arrayLen
  | 0x1a => some .not
  | 0x1b => some .onEvent
  | 0x1c => some .ffiCall
  | 0x1d => some .memAlloc
  | 0x1e => some .memRead
  | 0x1f => some .memWrite
  | 0x20 => some .memFree
  | 0xff => some .halt
  | _ => none

/-- What follows the byte of an operation. -/
def operand : Opcode → OperandKind
  | .pushConst | .loadLocal | .storeLocal | .storeLocalInt | .jmp | .jmpIfFalse => .word
  | .add | .sub | .mul | .div | .mod | .eq | .gt | .lt | .and | .or | .call | .makeArray
  | .ffiCall => .count
  | _ => .none

/-- The number of bytes of an instruction, its own byte included. -/
def width (op : Opcode) : Nat :=
  match op.operand with
  | .none => 1
  | .count => 2
  | .word => 3

/-- The name in listings and messages. -/
def mnemonic : Opcode → String
  | .nop => "NOP"
  | .pushConst => "PUSH_CONST"
  | .loadLocal => "LOAD_LOCAL"
  | .storeLocal => "STORE_LOCAL"
  | .add => "ADD"
  | .sub => "SUB"
  | .mul => "MUL"
  | .div => "DIV"
  | .mod => "MOD"
  | .neg => "NEG"
  | .eq => "EQ"
  | .gt => "GT"
  | .lt => "LT"
  | .jmp => "JMP"
  | .jmpIfFalse => "JMP_IF_FALSE"
  | .call => "CALL"
  | .ret => "RET"
  | .print => "PRINT"
  | .and => "AND"
  | .or => "OR"
  | .storeLocalInt => "STORE_LOCAL_INT"
  | .makeArray => "MAKE_ARRAY"
  | .arrayGet => "ARRAY_GET"
  | .arraySet => "ARRAY_SET"
  | .arrayPush => "ARRAY_PUSH"
  | .arrayLen => "ARRAY_LEN"
  | .not => "NOT"
  | .onEvent => "ON_EVENT"
  | .ffiCall => "FFI_CALL"
  | .memAlloc => "MEM_ALLOC"
  | .memRead => "MEM_READ"
  | .memWrite => "MEM_WRITE"
  | .memFree => "MEM_FREE"
  | .halt => "HALT"

/-- Every operation can be read back from its byte. -/
@[simp] theorem ofByte?_byte (op : Opcode) : ofByte? op.byte = some op := by
  cases op <;> rfl

end Opcode

end DocScript
