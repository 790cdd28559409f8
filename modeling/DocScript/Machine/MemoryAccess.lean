import DocScript.Machine.State
import DocScript.Value.StaticType

/-!
# Memory instructions

The operands of a memory instruction are taken and checked from the top of the stack downwards;
only then does it matter whether there is memory at all.
-/

namespace DocScript

namespace Exec

/-- The memory that an operation works on. -/
def memory (setup : Setup σ γ) (op : Opcode) : Exec σ γ (MemoryInterface σ) :=
  match setup.capabilities.memory with
  | some memory => return memory
  | none => fault (.unavailable (.memory op))

/-- Takes a size or an offset; a float loses its fraction. -/
def popNumber (op : Opcode) (what : MemoryNumber) : Exec σ γ Nat := do
  let value ← pop (.number op what)
  match value.int? with
  | none => fault (.typeClash (.number op what))
  | some number =>
      if number < 0 then fault (.memory (.negative op what number))
      else return number.toInt.toNat

/-- Takes an address; null stands for address zero. -/
def popAddress (op : Opcode) : Exec σ γ UInt64 := do
  match ← pop (.pointer op) with
  | .pointer address _ => return address
  | .null => return 0
  | other => fault (.typeClash (.pointer op other.kind))

/-- Takes the name of a width. -/
def popWidth (op : Opcode) : Exec σ γ MemoryWidth := do
  let name ← popText op
  match MemoryWidth.ofName? name with
  | some width => return width
  | none => fault (.typeClash (.width op name))

/-- Allocates a block; the pointer to it points to nothing known. -/
def memAlloc (setup : Setup σ γ) : Exec σ γ Unit := do
  let size ← popNumber .memAlloc .size
  let memory ← memory setup .memAlloc
  push (.pointer (← outside (memory.allocate size)) StaticType.voidPointee)

def memRead (setup : Setup σ γ) : Exec σ γ Unit := do
  let width ← popWidth .memRead
  let offset ← popNumber .memRead .offset
  let address ← popAddress .memRead
  let memory ← memory setup .memRead
  push (← outside (memory.read address offset width))

def memWrite (setup : Setup σ γ) : Exec σ γ Unit := do
  let width ← popWidth .memWrite
  let value ← pop (.value .memWrite)
  let offset ← popNumber .memWrite .offset
  let address ← popAddress .memWrite
  let memory ← memory setup .memWrite
  outside (memory.write address offset width value)

def memFree (setup : Setup σ γ) : Exec σ γ Unit := do
  let address ← popAddress .memFree
  let memory ← memory setup .memFree
  outside (memory.free address)

end Exec

end DocScript
