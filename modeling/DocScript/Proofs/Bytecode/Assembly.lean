import DocScript.Bytecode.Listing
import DocScript.Compile.FunctionBuilder

/-! # Assembled code

A command is an operation with its operand. Code that is assembled from commands
reads back as exactly those commands, each beginning where the one before it ends,
whatever stands before and behind it.
-/

namespace DocScript

theorem Opcode.width_pos (op : Opcode) : 0 < op.width := by
  cases op <;> decide

/-- An operation together with its operand. An operation that takes none has operand zero. -/
structure Command where
  op : Opcode
  operand : Nat := 0
  deriving DecidableEq, Inhabited, Repr

namespace Command

/-- The bytes of a command. -/
def bytes (command : Command) : List UInt8 :=
  command.op.byte ::
    match command.op.operand with
    | .none => []
    | .word => [(command.operand % 256).toUInt8, (command.operand / 256).toUInt8]
    | .count => [command.operand.toUInt8]

/-- The operand can be written in the bytes that the operation has for it. -/
def Fits (command : Command) : Prop :=
  match command.op.operand with
  | .none => command.operand = 0
  | .word => command.operand ≤ FunctionBuilder.largestWord
  | .count => command.operand ≤ FunctionBuilder.largestCount

/-- What a command reads back as. -/
def instruction (command : Command) : Instruction := .operation command.op command.operand

@[simp] theorem length_bytes (command : Command) : command.bytes.length = command.op.width := by
  unfold bytes Opcode.width
  cases command.op.operand <;> rfl

/-- The bytes of commands that follow each other. -/
def assemble (commands : List Command) : List UInt8 := commands.flatMap bytes

/-- The number of bytes of commands that follow each other. -/
def size (commands : List Command) : Nat := (assemble commands).length

@[simp] theorem assemble_nil : assemble [] = [] := rfl

@[simp] theorem assemble_cons (command : Command) (rest : List Command) :
    assemble (command :: rest) = command.bytes ++ assemble rest := rfl

@[simp] theorem assemble_append (first second : List Command) :
    assemble (first ++ second) = assemble first ++ assemble second := by
  simp [assemble]

@[simp] theorem size_nil : size [] = 0 := rfl

@[simp] theorem size_cons (command : Command) (rest : List Command) :
    size (command :: rest) = command.op.width + size rest := by
  simp [size]

@[simp] theorem size_append (first second : List Command) :
    size (first ++ second) = size first + size second := by
  simp [size]

/-- The commands with the offsets at which they begin, the first at the given one. -/
def placed : List Command → (offset : Nat) → List (Nat × Command)
  | [], _ => []
  | command :: rest, offset => (offset, command) :: placed rest (offset + command.op.width)

@[simp] theorem placed_append (first second : List Command) (offset : Nat) :
    placed (first ++ second) offset =
      placed first offset ++ placed second (offset + size first) := by
  induction first generalizing offset with
  | nil => rfl
  | cons command rest ih => simp [placed, ih, Nat.add_assoc]

/-- Each command lies inside the bytes that are taken up. -/
theorem bounds_of_mem_placed {commands : List Command} {offset place : Nat} {command : Command}
    (hmem : (place, command) ∈ placed commands offset) :
    offset ≤ place ∧ place + command.op.width ≤ offset + size commands := by
  induction commands generalizing offset with
  | nil => simp [placed] at hmem
  | cons first rest ih =>
      simp only [placed, List.mem_cons, Prod.mk.injEq] at hmem
      rw [size_cons]
      rcases hmem with ⟨rfl, rfl⟩ | hmem
      · omega
      · have hbounds := ih hmem
        omega

/-! ### Commands in code -/

/-- The commands stand in code, the first one at the given offset. -/
def StandAt (code : Array UInt8) (offset : Nat) (commands : List Command) : Prop :=
  ∃ before after, code.toList = before ++ assemble commands ++ after ∧ before.length = offset

namespace StandAt

variable {code : Array UInt8} {offset : Nat} {first second : List Command}

theorem left (h : StandAt code offset (first ++ second)) : StandAt code offset first := by
  obtain ⟨before, after, hcode, hlength⟩ := h
  exact ⟨before, assemble second ++ after, by simpa using hcode, hlength⟩

theorem right (h : StandAt code offset (first ++ second)) :
    StandAt code (offset + size first) second := by
  obtain ⟨before, after, hcode, hlength⟩ := h
  exact ⟨before ++ assemble first, after, by simpa using hcode, by simp [size, hlength]⟩

theorem tail {command : Command} {rest : List Command}
    (h : StandAt code offset (command :: rest)) :
    StandAt code (offset + command.op.width) rest := by
  rw [← List.singleton_append] at h
  simpa using h.right

/-- Code that consists of commands holds them from its first byte on. -/
theorem whole {commands : List Command} (h : code.toList = assemble commands) :
    StandAt code 0 commands :=
  ⟨[], [], by simpa using h, rfl⟩

theorem size_le (h : StandAt code offset first) : offset + size first ≤ code.size := by
  obtain ⟨before, after, hcode, hlength⟩ := h
  have hsize := congrArg List.length hcode
  simp only [Array.length_toList, List.length_append] at hsize
  rw [size]
  omega

end StandAt

private theorem toNat_low (operand : Nat) : (operand % 256).toUInt8.toNat = operand % 256 := by
  simp [Nat.toUInt8, UInt8.toNat_ofNat']

private theorem toNat_high {operand : Nat} (h : operand ≤ FunctionBuilder.largestWord) :
    (operand / 256).toUInt8.toNat = operand / 256 := by
  unfold FunctionBuilder.largestWord at h
  simp only [Nat.toUInt8, UInt8.toNat_ofNat']
  omega

/-- A command whose operand fits reads back as it was written. -/
theorem decode?_of_standAt {code : Array UInt8} {offset : Nat} {command : Command}
    {rest : List Command} (h : StandAt code offset (command :: rest)) (hfits : command.Fits) :
    Instruction.decode? code offset = some command.instruction := by
  obtain ⟨before, after, hcode, rfl⟩ := h
  have hread (index : Nat) : code[before.length + index]? =
      (command.bytes ++ (assemble rest ++ after))[index]? := by
    rw [← Array.getElem?_toList, hcode, assemble_cons, List.append_assoc, List.append_assoc,
      List.getElem?_append_right (Nat.le_add_right _ _), Nat.add_sub_cancel_left]
  have hbyte : code[before.length]? = some command.op.byte := hread 0
  unfold Instruction.decode?
  rw [hbyte]
  simp only [Option.map_some, Opcode.ofByte?_byte, instruction]
  unfold Fits at hfits
  unfold Instruction.operand?
  cases hkind : command.op.operand with
  | none =>
      rw [hkind] at hfits
      simp [hfits]
  | word =>
      rw [hkind] at hfits
      have hlow : code[before.length + 1]? = some (command.operand % 256).toUInt8 :=
        (hread 1).trans (by rw [bytes, hkind]; rfl)
      have hhigh : code[before.length + 1 + 1]? = some (command.operand / 256).toUInt8 :=
        (hread 2).trans (by rw [bytes, hkind]; rfl)
      simp only [Instruction.word?, hlow, hhigh, toNat_low, toNat_high hfits]
      rw [Nat.mod_add_div]
  | count =>
      rw [hkind] at hfits
      have hcount : code[before.length + 1]? = some command.operand.toUInt8 :=
        (hread 1).trans (by rw [bytes, hkind]; rfl)
      have hsmall : command.operand < 256 := by
        have : FunctionBuilder.largestCount = 255 := rfl
        omega
      simp [hcount, Nat.toUInt8, UInt8.toNat_ofNat', Nat.mod_eq_of_lt hsmall]

/-- The commands stand in code and can be read there. -/
structure Loaded (code : Array UInt8) (start : Nat) (commands : List Command) : Prop where
  stands : StandAt code start commands
  fits : ∀ command ∈ commands, command.Fits

namespace Loaded

variable {code : Array UInt8} {start : Nat} {first second : List Command}

theorem left (h : Loaded code start (first ++ second)) : Loaded code start first where
  stands := h.stands.left
  fits command hmem := h.fits command (List.mem_append_left _ hmem)

theorem right (h : Loaded code start (first ++ second)) :
    Loaded code (start + size first) second where
  stands := h.stands.right
  fits command hmem := h.fits command (List.mem_append_right _ hmem)

theorem head {command : Command} {rest : List Command}
    (h : Loaded code start (command :: rest)) : Loaded code start [command] := by
  rw [← List.singleton_append] at h
  exact h.left

theorem tail {command : Command} {rest : List Command}
    (h : Loaded code start (command :: rest)) : Loaded code (start + command.op.width) rest := by
  rw [← List.singleton_append] at h
  simpa using h.right

theorem decode {command : Command} {rest : List Command}
    (h : Loaded code start (command :: rest)) :
    Instruction.decode? code start = some command.instruction :=
  decode?_of_standAt h.stands (h.fits command List.mem_cons_self)

end Loaded

/-- Any command among several reads back at its place. -/
theorem decode?_of_mem_placed {code : Array UInt8} {commands : List Command} {offset place : Nat}
    {command : Command} (h : StandAt code offset commands) (hfits : ∀ c ∈ commands, c.Fits)
    (hmem : (place, command) ∈ placed commands offset) :
    Instruction.decode? code place = some command.instruction := by
  induction commands generalizing offset with
  | nil => simp [placed] at hmem
  | cons first rest ih =>
      simp only [placed, List.mem_cons, Prod.mk.injEq] at hmem
      rcases hmem with ⟨rfl, rfl⟩ | hmem
      · exact decode?_of_standAt h (hfits _ List.mem_cons_self)
      · exact ih h.tail (fun c hc => hfits c (List.mem_cons_of_mem _ hc)) hmem

/-- The listing of code that ends with given commands shows them and nothing else. -/
theorem sweep_of_suffix {code : Array UInt8} {before : List UInt8} {commands : List Command}
    (hcode : code.toList = before ++ assemble commands) (hfits : ∀ c ∈ commands, c.Fits) :
    Instruction.sweep code before.length =
      (placed commands before.length).map fun entry => (entry.1, entry.2.instruction) := by
  -- What is swept already grows by one command a step.
  induction commands generalizing before with
  | nil =>
      have hnone : Instruction.decode? code before.length = none := by
        have hsize : code[before.length]? = none := by
          rw [← Array.getElem?_toList, hcode]
          simp
        simp [Instruction.decode?, hsize]
      rw [Instruction.sweep]
      split
      next => rfl
      next instruction hsome =>
        rw [hnone] at hsome
        cases hsome
  | cons command rest ih =>
      have hstand : StandAt code before.length (command :: rest) :=
        ⟨before, [], by simpa using hcode, rfl⟩
      have hdecode := decode?_of_standAt hstand (hfits command List.mem_cons_self)
      have hbehind : code.toList = (before ++ command.bytes) ++ assemble rest := by
        simpa using hcode
      have hrest := ih hbehind (fun c hc => hfits c (List.mem_cons_of_mem _ hc))
      rw [List.length_append, length_bytes] at hrest
      rw [Instruction.sweep]
      split
      next hnone =>
        rw [hdecode] at hnone
        cases hnone
      next instruction hsome =>
        rw [hdecode] at hsome
        cases hsome
        simp only [placed, List.map_cons]
        rw [← hrest]
        rfl

end Command

end DocScript
