import Mathlib.Algebra.GroupWithZero.Nat
import DocScript.Proofs.Compile.Orderly
import DocScript.Proofs.Compile.Translation

/-! # Compiled functions are well formed

A well-formed function has code that reads back without a rest, ends with a halt, and
names only constants, locals, functions and offsets that are there. Every function of a
compiled program is well formed.
-/

namespace DocScript

open Command FunctionBuilder Opcode

/-- What a machine may rely on when it runs a function. -/
structure CompiledFunction.WellFormed (signatures : SignatureTable)
    (function : CompiledFunction Constant) : Prop where
  /-- No byte is unknown and no operand cut off. -/
  decoded : ∀ offset instruction, (offset, instruction) ∈ function.entries →
    ∃ op operand, instruction = .operation op operand
  covered : (function.entries.map fun entry => entry.2.width).sum = function.code.size
  halted : ∃ earlier, function.entries =
    earlier ++ [(function.code.size - 1, .operation .halt 0)]
  constant : ∀ offset position, (offset, .operation .pushConst position) ∈ function.entries →
    position < function.constants.size
  slot : ∀ offset op slot, (offset, .operation op slot) ∈ function.entries →
    op.usesLocal = true → slot < function.localCount
  written : ∀ offset op slot, (offset, .operation op slot) ∈ function.entries →
    op.stores = true → function.paramCount ≤ slot
  landed : ∀ offset op target, (offset, .operation op target) ∈ function.entries →
    op.isJump = true → ∃ instruction, (target, instruction) ∈ function.entries
  counted : ∀ offset op count, (offset, .operation op count) ∈ function.entries →
    op.isOperator = true → 1 ≤ count
  /-- What takes a name has the push of the name of a known function right before it. -/
  named : ∀ offset op operand, (offset, .operation op operand) ∈ function.entries →
    op.takesName = true → ∃ place position name,
      (place, .operation .pushConst position) ∈ function.entries ∧
        place + Opcode.pushConst.width = offset ∧
        function.constants[position]? = some (.scalar (.string name)) ∧
        signatures.contains name = true
  /-- No jump comes between a name and what takes it. -/
  undivided : ∀ offset op operand, (offset, .operation op operand) ∈ function.entries →
    op.takesName = true → ∀ place jump, (place, .operation jump offset) ∈ function.entries →
      jump.isJump = false
  scalar : ∀ constant ∈ function.constants, ∃ value, constant = .scalar value

namespace Command

variable {commands : List Command} {start place : Nat} {command : Command}

theorem mem_of_mem_placed (hmem : (place, command) ∈ placed commands start) :
    command ∈ commands := by
  induction commands generalizing start with
  | nil => cases hmem
  | cons first rest ih =>
      simp only [placed, List.mem_cons, Prod.mk.injEq] at hmem
      rcases hmem with ⟨-, rfl⟩ | hmem
      · exact List.mem_cons_self
      · exact List.mem_cons_of_mem _ (ih hmem)

/-- A command at a place has the commands before it up to that place. -/
theorem split_of_mem_placed (hmem : (place, command) ∈ placed commands start) :
    ∃ before after, commands = before ++ command :: after ∧ place = start + size before := by
  induction commands generalizing start with
  | nil => cases hmem
  | cons first rest ih =>
      simp only [placed, List.mem_cons, Prod.mk.injEq] at hmem
      rcases hmem with ⟨rfl, rfl⟩ | hmem
      · exact ⟨[], rest, rfl, rfl⟩
      · obtain ⟨before, after, rfl, rfl⟩ := ih hmem
        exact ⟨first :: before, after, rfl, by rw [size_cons, Nat.add_assoc]⟩

theorem sum_width_placed (commands : List Command) (start : Nat) :
    ((placed commands start).map fun entry => entry.2.instruction.width).sum = size commands := by
  induction commands generalizing start with
  | nil => rfl
  | cons command rest ih =>
      rw [placed, List.map_cons, List.sum_cons, ih, size_cons]
      rfl

end Command

namespace Translation

variable {signatures : SignatureTable} {space : String} {declaration : Json}
  {function : CompiledFunction Constant}

/-- What the code of the function may refer to. -/
def limits (signatures : SignatureTable) (function : CompiledFunction Constant) : CodeLimits where
  signatures
  pool := function.constants.toList
  paramCount := function.paramCount
  localCount := function.localCount
  valued := (signatures.get? function.name).any (!·.isVoid)

/-- All commands of the function. -/
def whole (made : Translation signatures space declaration function) : List Command :=
  made.commands ++ [⟨.halt, 0⟩]

variable (made : Translation signatures space declaration function)

include made

/-- The names of a body stand for the locals of its function. -/
theorem covers : (limits signatures function).Covers ⟨signatures, made.names⟩ where
  signatures := rfl
  valued := by
    rw [made.returns]
    simp [limits, made.known, Signature.isVoid]
  slot := by
    intro name target htarget
    have hslot := (made.laidOut.slot name target).1 htarget
    have hlt := (List.getElem?_eq_some_iff.1 hslot).1
    rw [← made.localCount] at hlt
    exact hlt
  written := by
    intro name target hwrite
    obtain ⟨hparam, htarget⟩ := hwrite
    have hslot := (made.laidOut.slot name target).1 htarget
    apply Nat.le_of_not_lt
    intro hlow
    have hlength : made.signature.slots.length = function.paramCount := by
      rw [made.paramCount, Signature.slots, List.length_map]
    rw [List.getElem?_append_left (hlength.symm ▸ hlow)] at hslot
    -- The slot is that of a parameter, so the name is the name of one.
    obtain ⟨param, hmem, heq⟩ := List.mem_map.1 (List.mem_of_getElem? hslot)
    obtain ⟨rfl, -⟩ := Prod.mk.inj heq
    have hnames : param.name ∈ made.names.params := by
      rw [made.params, List.mem_reverse]
      exact List.mem_map_of_mem hmem
    have hcontains : made.names.isParam param.name = true := by simpa [isParam] using hnames
    cases hcontains.symm.trans hparam
  few := by
    have hfew := made.fits
    rw [← made.localCount] at hfew
    exact hfew

/-- The code of the body is orderly, and no jump leaves it except to the closing halt. -/
theorem orderly : Orderly (limits signatures function) (fun _ => False) made.commands 0 :=
  made.block.orderly made.covers _

theorem orderly_whole : Orderly (limits signatures function) (fun _ => False) made.whole 0 :=
  made.orderly.append (.bare rfl rfl fun hreturn => by cases hreturn)

theorem entries_eq :
    function.entries = (placed made.whole 0).map fun entry => (entry.1, entry.2.instruction) := by
  have hfits : ∀ command ∈ made.whole, command.Fits := fun command hmem =>
    (made.orderly_whole.allows command hmem).fits
  have hcode : function.code.toList = [] ++ assemble made.whole := made.code
  exact sweep_of_suffix hcode hfits

theorem size_code : function.code.size = size made.commands + 1 := by
  have hlength := congrArg List.length made.code
  rw [assemble_append, List.length_append, Array.length_toList] at hlength
  exact hlength

/-- An operation in the listing is a command of the function. -/
theorem mem_entries {offset operand : Nat} {op : Opcode} :
    (offset, .operation op operand) ∈ function.entries ↔
      (offset, ⟨op, operand⟩) ∈ placed made.whole 0 := by
  rw [made.entries_eq, List.mem_map]
  constructor
  · intro h
    obtain ⟨⟨_, _, _⟩, hmem, heq⟩ := h
    cases heq
    exact hmem
  · exact fun h => ⟨_, h, rfl⟩

theorem allows {offset operand : Nat} {op : Opcode}
    (hmem : (offset, .operation op operand) ∈ function.entries) :
    (limits signatures function).Allows ⟨op, operand⟩ :=
  made.orderly_whole.allows _ (mem_of_mem_placed (made.mem_entries.1 hmem))

/-- Where a jump lands, there begins an operation that takes no name. -/
theorem landing {offset target : Nat} {op : Opcode}
    (hmem : (offset, .operation op target) ∈ function.entries) (hjump : op.isJump = true) :
    ∃ command : Command, (target, command) ∈ placed made.whole 0 ∧
      command.op.takesName = false := by
  have hplaced := made.mem_entries.1 hmem
  rw [whole, placed_append, List.mem_append] at hplaced
  rcases hplaced with hbody | hlast
  · rcases made.orderly.closed offset _ hbody hjump with hland | hexit
    · rcases hland with ⟨command, hland, htakes⟩ | hend
      · refine ⟨command, ?_, htakes⟩
        rw [whole, placed_append]
        exact List.mem_append_left _ hland
      · -- Behind the body stands the closing halt.
        refine ⟨⟨.halt, 0⟩, ?_, rfl⟩
        rw [whole, placed_append, ← hend]
        exact List.mem_append_right _ List.mem_cons_self
    · exact hexit.elim
  · simp only [placed, List.mem_singleton, Prod.mk.injEq, Command.mk.injEq] at hlast
    rw [hlast.2.1] at hjump
    cases hjump

/-- A function that translates a declaration is well formed. -/
theorem wellFormed : function.WellFormed signatures where
  decoded := by
    intro offset instruction hmem
    rw [made.entries_eq, List.mem_map] at hmem
    obtain ⟨⟨_, command⟩, -, heq⟩ := hmem
    cases heq
    exact ⟨command.op, command.operand, rfl⟩
  covered := by
    rw [made.entries_eq, List.map_map, made.size_code]
    have hsum := sum_width_placed made.whole 0
    rw [whole, size_append] at hsum
    exact hsum
  halted := by
    rw [made.entries_eq, whole, placed_append, List.map_append, made.size_code]
    refine ⟨_, congrArg _ ?_⟩
    simp [placed, instruction]
  constant := by
    intro offset position hmem
    obtain ⟨value, hvalue, -⟩ := (made.allows hmem).constant rfl
    simpa [limits] using (List.getElem?_eq_some_iff.1 hvalue).1
  slot offset op slot hmem huses := (made.allows hmem).slot huses
  written offset op slot hmem hstores := (made.allows hmem).written hstores
  landed := by
    intro offset op target hmem hjump
    obtain ⟨command, hland, -⟩ := made.landing hmem hjump
    exact ⟨_, made.mem_entries.2 hland⟩
  counted offset op count hmem hop := (made.allows hmem).counted hop
  named := by
    intro offset op operand hmem htakes
    obtain ⟨before, after, hsplit, hplace⟩ := split_of_mem_placed (made.mem_entries.1 hmem)
    obtain ⟨earlier, position, name, signature, hbefore, hname, hknown, -⟩ :=
      made.orderly_whole.named before ⟨op, operand⟩ after hsplit htakes
    refine ⟨size earlier, position, name, made.mem_entries.2 ?_, ?_, ?_,
      (SignatureTable.contains_iff _ _).2 ⟨signature, hknown⟩⟩
    · rw [hsplit, hbefore, placed_append, placed_append, Nat.zero_add]
      exact List.mem_append_left _ (List.mem_append_right _ List.mem_cons_self)
    · rw [hplace, hbefore, size_append, size_cons, size_nil, Nat.zero_add]
      rfl
    · simpa [limits] using hname.1
  undivided := by
    intro offset op operand hmem htakes place jump hjump
    cases hop : jump.isJump with
    | false => rfl
    | true =>
        obtain ⟨command, hland, hother⟩ := made.landing hjump hop
        have hstand : StandAt function.code 0 made.whole := .whole made.code
        have hfits : ∀ command ∈ made.whole, command.Fits := fun command hmem =>
          (made.orderly_whole.allows command hmem).fits
        have hfound := decode?_of_mem_placed hstand hfits (made.mem_entries.1 hmem)
        rw [decode?_of_mem_placed hstand hfits hland, Option.some.injEq] at hfound
        obtain ⟨rfl, -⟩ := Instruction.operation.inj hfound
        cases hother.symm.trans htakes
  scalar := by
    intro constant hconstant
    obtain ⟨position, hpush, hposition⟩ := made.pushed constant (Array.mem_toList_iff.2 hconstant)
    obtain ⟨value, hvalue, -⟩ := (made.orderly.allows _ hpush).constant rfl
    exact ⟨value, Option.some.inj (hposition.symm.trans hvalue)⟩

end Translation

/-- Every function of a compiled program is well formed. -/
theorem compileUnits_wellFormed {units : List SourceUnit} {compilation : Compilation}
    (hcompile : compileUnits units = .ok compilation) :
    ∀ function ∈ compilation.functions.functions,
      function.WellFormed (programSignatures units) := by
  intro function hmem
  obtain ⟨space, declaration, -, ⟨made⟩⟩ := translation_of_mem hcompile hmem
  exact made.wellFormed

/-- A program that counts down and prints each number. -/
def countdown : SourceUnit where
  id := "countdown.json"
  text := "\x7b\"namespace\": \"M\", \"functions\": [\x7b\"name\": \"before\", \"params\":
    [\x7b\"name\": \"n\"\x7d], \"type\": \"int\", \"body\": [\x7b\"return\":
    \x7b\"subtract\": [\"n\", 1]\x7d\x7d]\x7d, \x7b\"name\": \"main\", \"locals\":
    [\x7b\"name\": \"i\", \"type\": \"int\"\x7d], \"body\": [\x7b\"let\": \x7b\"name\":
    \"i\", \"value\": 3\x7d\x7d, \x7b\"while\": \x7b\"condition\": \x7b\"gt\": [\"i\",
    0]\x7d, \"body\": [\x7b\"print\": \"i\"\x7d, \x7b\"let\": \x7b\"name\": \"i\",
    \"value\": \x7b\"call\": \x7b\"function\": \"before\", \"args\": \x7b\"n\":
    \"i\"\x7d\x7d\x7d\x7d\x7d]\x7d\x7d]\x7d]\x7d"

set_option maxRecDepth 100000 in
theorem countdown_wellFormed : ∃ compilation function,
    compileUnits [countdown] = .ok compilation ∧
      compilation.functions.get? "M.main" = some function ∧
      function.WellFormed (programSignatures [countdown]) := by
  obtain ⟨compilation, -, hcompile, -, hcontains⟩ := exists_of_compilesTo countdown
    (fun _ _ compilation => compilation.functions.contains "M.main") rfl (by decide +kernel)
  rw [FunctionTable.contains_eq, Option.isSome_iff_exists] at hcontains
  obtain ⟨function, hfunction⟩ := hcontains
  exact ⟨compilation, function, hcompile, hfunction,
    compileUnits_wellFormed hcompile function (FunctionTable.mem_of_get? hfunction).1⟩

end DocScript
