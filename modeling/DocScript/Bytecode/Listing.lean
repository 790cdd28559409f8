import DocScript.Bytecode.Function

/-!
# Listings

A listing reads code from its first byte on, each entry beginning where the one before it ends. A
byte that stands for no operation is an entry of its own.
-/

namespace DocScript

theorem Instruction.lt_size_of_decode? {code : Array UInt8} {offset : Nat}
    {instruction : Instruction} (h : decode? code offset = some instruction) :
    offset < code.size := by
  obtain ⟨byte, hbyte, _⟩ := Option.map_eq_some_iff.1 h
  exact (Array.getElem?_eq_some_iff.1 hbyte).1

/-- The instructions of code from an offset on, each with the offset at which it begins. -/
def Instruction.sweep (code : Array UInt8) (offset : Nat) : List (Nat × Instruction) :=
  match _h : Instruction.decode? code offset with
  | none => []
  | some instruction => (offset, instruction) :: sweep code (offset + instruction.width)
termination_by code.size - offset
decreasing_by
  have hlt := Instruction.lt_size_of_decode? _h
  have hpos := instruction.width_pos
  omega

/-- An instruction as a listing shows it; a constant is shown next to its position. -/
def Instruction.describe (constants : Array Constant) : Instruction → String
  | .unknown byte => ".byte 0x" ++ Text.byteHex byte
  | .truncated op => op.mnemonic ++ " <truncated>"
  | .operation op operand =>
      match op.operand with
      | .none => op.mnemonic
      | .count => s!"{op.mnemonic} {operand}"
      | .word =>
          if op = .pushConst then
            let constant :=
              match constants[operand]? with
              | some constant => constant.describe
              | none => "<missing>"
            s!"{op.mnemonic} {operand} ; {constant}"
          else s!"{op.mnemonic} {operand}"

namespace CompiledFunction

/-- The entries of the listing of a function. -/
def entries (function : CompiledFunction κ) : List (Nat × Instruction) :=
  Instruction.sweep function.code 0

/-- The line above the entries. -/
def heading (function : CompiledFunction κ) : String :=
  s!"fn {function.name} (params={function.paramCount}, locals={function.localCount}, " ++
    s!"constants={function.constants.size})\n"

/-- The line of an entry. -/
def line (function : CompiledFunction Constant) (offset : Nat) (instruction : Instruction) :
    String :=
  s!"  {Text.padZeros 4 (toString offset)} {instruction.describe function.constants}\n"

/-- The lines of entries, one below the other. -/
def lines (function : CompiledFunction Constant) (entries : List (Nat × Instruction)) : String :=
  String.join (entries.map fun (offset, instruction) => function.line offset instruction)

/-- The listing of a function. -/
def listing (function : CompiledFunction Constant) : String :=
  function.heading ++ function.lines function.entries

end CompiledFunction

/-- The listings of all functions by name. -/
def FunctionTable.listing (table : FunctionTable Constant) : String :=
  String.join (table.functions.map CompiledFunction.listing)

end DocScript
