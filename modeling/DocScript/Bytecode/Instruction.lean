import DocScript.Bytecode.Opcode

/-!
# Instructions in code

Code is a sequence of bytes. `Instruction.decode` reads what begins at an offset.
-/

namespace DocScript

/-- What begins at an offset of code. -/
inductive Instruction where
  /-- An operation with its operand; an operation without one has operand zero. -/
  | operation (op : Opcode) (operand : Nat)
  /-- An operation whose operand does not fit in the rest of the code. -/
  | truncated (op : Opcode)
  /-- A byte that stands for no operation. -/
  | unknown (byte : UInt8)
  deriving DecidableEq, Inhabited, Repr

namespace Instruction

/-- The two-byte number at an offset, low byte first. -/
def word? (code : Array UInt8) (offset : Nat) : Option Nat :=
  match code[offset]?, code[offset + 1]? with
  | some low, some high => some (low.toNat + 256 * high.toNat)
  | _, _ => none

/-- The operand behind an operation at an offset. -/
def operand? (code : Array UInt8) (op : Opcode) (offset : Nat) : Option Nat :=
  match op.operand with
  | .none => some 0
  | .word => word? code (offset + 1)
  | .count => code[offset + 1]?.map UInt8.toNat

/-- Reads the instruction that begins at an offset, if the offset lies in the code. -/
def decode? (code : Array UInt8) (offset : Nat) : Option Instruction :=
  code[offset]?.map fun byte =>
    match Opcode.ofByte? byte with
    | none => .unknown byte
    | some op =>
        match operand? code op offset with
        | some operand => .operation op operand
        | none => .truncated op

/-- The number of bytes up to the next instruction. -/
def width : Instruction → Nat
  | .operation op _ => op.width
  | .truncated op => op.width
  | .unknown _ => 1

/-- An operand lies in the code, right behind the byte of its operation. -/
theorem behind_le_of_operand? {code : Array UInt8} {op : Opcode} {offset operand : Nat}
    (hlt : offset < code.size) (h : operand? code op offset = some operand) :
    offset + op.width ≤ code.size := by
  unfold Opcode.width
  unfold operand? at h
  cases hkind : op.operand with
  | none => exact hlt
  | count =>
      simp only [hkind, Option.map_eq_some_iff] at h
      obtain ⟨byte, hbyte, -⟩ := h
      exact (Array.getElem?_eq_some_iff.1 hbyte).1
  | word =>
      simp only [hkind, word?] at h
      split at h
      next low high _ hhigh => exact (Array.getElem?_eq_some_iff.1 hhigh).1
      next => cases h

/-- An operation that can be read ends within the code. -/
theorem behind_le_of_decode? {code : Array UInt8} {offset operand : Nat} {op : Opcode}
    (h : decode? code offset = some (.operation op operand)) : offset + op.width ≤ code.size := by
  obtain ⟨byte, hbyte, hread⟩ := Option.map_eq_some_iff.1 h
  have hlt := (Array.getElem?_eq_some_iff.1 hbyte).1
  split at hread
  next => cases hread
  next found _ =>
    split at hread
    next operand hoperand =>
      obtain ⟨rfl, rfl⟩ := Instruction.operation.inj hread
      exact behind_le_of_operand? hlt hoperand
    next => cases hread

theorem width_pos (instruction : Instruction) : 0 < instruction.width := by
  unfold width Opcode.width
  split <;> (try split) <;> decide

end Instruction

end DocScript
