import DocScript.Proofs.Machine.Linking

/-! # Where instructions begin

What a machine relies on when it stands where an instruction of a function begins: what
the instruction names is there, and where it goes on an instruction begins again. A
call stands behind the push of the name of a function that takes as many arguments.
-/

namespace DocScript

open Command Opcode

/-- An instruction of the function begins at the offset. -/
def CompiledFunction.HasEntry (function : CompiledFunction κ) (offset : Nat) : Prop :=
  ∃ instruction, (offset, instruction) ∈ function.entries

/-- The operation stands at the offset of the function, with its operand. -/
def CompiledFunction.At (function : CompiledFunction κ) (offset : Nat) (op : Opcode)
    (operand : Nat) : Prop :=
  function.HasEntry offset ∧
    Instruction.decode? function.code offset = some (.operation op operand)

/-- What takes the name of a function stands right behind the push of the name of a known one, and
is come to in no other way. -/
structure CompiledFunction.Naming (signatures : SignatureTable)
    (function : CompiledFunction Value) : Prop where
  begun : ∀ op operand, function.At 0 op operand → op.takesName = false
  landed : ∀ offset op operand place jump, function.At offset op operand →
    function.At place jump offset → jump.isJump = true → op.takesName = false
  pushed : ∀ offset op operand taker count, function.At offset op operand →
    function.At (offset + op.width) taker count → taker.takesName = true →
    op = .pushConst ∧ ∃ name signature,
      function.constants[operand]? = some (.scalar (.string name)) ∧
        signatures.get? name = some signature ∧
        (taker = .call → count = signature.params.length) ∧
        (taker = .onEvent → ∀ native, name ≠ (SignatureTable.native native).name)

/-- What a machine relies on when it runs a function. -/
structure CompiledFunction.Sturdy (signatures : SignatureTable)
    (function : CompiledFunction Value) : Prop where
  begins : function.HasEntry 0
  decodes : ∀ offset, function.HasEntry offset → ∃ op operand, function.At offset op operand
  behind : ∀ offset op operand, function.At offset op operand →
    op ≠ .jmp ∧ op ≠ .ret ∧ op ≠ .halt → function.HasEntry (offset + op.width)
  target : ∀ offset op target, function.At offset op target → op.isJump = true →
    function.HasEntry target ∧ target ≤ function.code.size
  constant : ∀ offset position, function.At offset .pushConst position →
    ∃ value, function.constants[position]? = some value
  slot : ∀ offset op slot, function.At offset op slot → op.usesLocal = true →
    slot < function.localCount
  counted : ∀ offset op count, function.At offset op count → op.isOperator = true → 1 ≤ count
  /-- The function does not begin with a call, and no jump lands at one. -/
  guarded : ∀ offset count, function.At offset .call count → offset ≠ 0 ∧
    ∀ place jump, function.At place jump offset → jump.isJump = false
  /-- What stands right before a call is the push of the name of a known function. -/
  called : ∀ offset op operand count, function.At offset op operand →
    function.At (offset + op.width) .call count → op = .pushConst ∧ ∃ name signature,
      function.constants[operand]? = some (.scalar (.string name)) ∧
        signatures.get? name = some signature ∧ count = signature.params.length
  params : function.paramCount ≤ function.localCount
  known : ∃ signature, signatures.get? function.name = some signature ∧
    function.paramCount = signature.params.length

/-- What stands in front of the command behind a command is what stands in front of that one, and
the command itself. -/
theorem Command.eq_append_of_place {before after front behind : List Command}
    {command next : Command} (h : before ++ command :: after = front ++ next :: behind)
    (hplace : size front = size before + command.op.width) : front = before ++ [command] := by
  rcases List.append_eq_append_iff.1 h with ⟨inner, rfl, hinner⟩ | ⟨inner, rfl, -⟩
  · cases inner with
    | nil =>
        rw [List.append_nil] at hplace
        have := command.op.width_pos
        omega
    | cons first others =>
        obtain ⟨rfl, -⟩ := List.cons.inj hinner
        rw [size_append, size_cons] at hplace
        cases others with
        | nil => rfl
        | cons second rest =>
            rw [size_cons] at hplace
            have := second.op.width_pos
            omega
  · rw [size_append] at hplace
    have := command.op.width_pos
    omega

namespace Translation

variable {signatures : SignatureTable} {space : String} {declaration : Json}
  {compiled : CompiledFunction Constant} {function : CompiledFunction Value}
  {offset operand : Nat} {op : Opcode}
  (made : Translation signatures space declaration compiled) (hlinks : compiled.Links function)

include made hlinks

theorem loaded_whole : Loaded function.code 0 made.whole where
  stands := .whole (hlinks.code ▸ made.code)
  fits command hmem := (made.orderly_whole.allows command hmem).fits

theorem hasEntry_iff : function.HasEntry offset ↔
    ∃ command : Command, (offset, command) ∈ placed made.whole 0 := by
  have hentries : function.entries = compiled.entries := by
    rw [CompiledFunction.entries, hlinks.code]
    rfl
  rw [CompiledFunction.HasEntry, hentries, made.entries_eq]
  constructor
  · rintro ⟨instruction, hmem⟩
    obtain ⟨⟨_, command⟩, hplaced, heq⟩ := List.mem_map.1 hmem
    cases heq
    exact ⟨command, hplaced⟩
  · rintro ⟨command, hplaced⟩
    exact ⟨command.instruction, List.mem_map.2 ⟨(offset, command), hplaced, rfl⟩⟩

/-- The operations of the function are its commands. -/
theorem at_iff : function.At offset op operand ↔ (offset, ⟨op, operand⟩) ∈ placed made.whole 0 := by
  have hloaded := made.loaded_whole hlinks
  rw [CompiledFunction.At, made.hasEntry_iff hlinks]
  constructor
  · rintro ⟨⟨⟨found, operand'⟩, hmem⟩, hdecode⟩
    rw [decode?_of_mem_placed hloaded.stands hloaded.fits hmem] at hdecode
    cases hdecode
    exact hmem
  · exact fun hmem => ⟨⟨_, hmem⟩, decode?_of_mem_placed hloaded.stands hloaded.fits hmem⟩

theorem mem_entries_iff :
    (offset, .operation op operand) ∈ compiled.entries ↔ function.At offset op operand := by
  rw [made.at_iff hlinks, made.mem_entries]

/-- Behind an operation stands another one, unless it is the halt that closes the function. -/
theorem split_at (h : function.At offset op operand) :
    ∃ before after, made.whole = before ++ ⟨op, operand⟩ :: after ∧ offset = size before ∧
      (op ≠ .halt → ∃ command rest, after = command :: rest) := by
  obtain ⟨before, after, hsplit, hplace⟩ := split_of_mem_placed ((made.at_iff hlinks).1 h)
  refine ⟨before, after, hsplit, by rw [hplace, Nat.zero_add], fun hgoes => ?_⟩
  cases after with
  | cons command rest => exact ⟨command, rest, rfl⟩
  | nil =>
      obtain ⟨-, hlast⟩ := List.append_inj' hsplit rfl
      cases hlast
      exact absurd rfl hgoes

theorem naming : function.Naming signatures where
  begun := by
    intro op operand hat
    obtain ⟨before, after, hsplit, hplace, -⟩ := made.split_at hlinks hat
    cases htakes : op.takesName with
    | false => rfl
    | true =>
        obtain ⟨earlier, position, name, signature, rfl, -⟩ :=
          made.orderly_whole.named before ⟨op, operand⟩ after hsplit htakes
        simp [Opcode.width, Opcode.operand] at hplace
  landed := by
    intro offset op operand place jump hat hjump hjumps
    cases htakes : op.takesName with
    | false => rfl
    | true =>
        have hnone := made.wellFormed.undivided _ _ _ ((made.mem_entries_iff hlinks).2 hat) htakes
          place jump ((made.mem_entries_iff hlinks).2 hjump)
        exact absurd (hnone.symm.trans hjumps) Bool.false_ne_true
  pushed := by
    intro offset op operand taker count hat htaker htakes
    obtain ⟨before, after, hsplit, rfl, -⟩ := made.split_at hlinks hat
    obtain ⟨front, behind, htaken, hplace, -⟩ := made.split_at hlinks htaker
    obtain ⟨earlier, position, name, signature, hfront, hname, hknown, hfits⟩ :=
      made.orderly_whole.named front ⟨taker, count⟩ behind htaken htakes
    -- The instruction in front of one that takes a name is the one that pushes it.
    have hlast : before ++ [⟨op, operand⟩] = earlier ++ [⟨.pushConst, position⟩] :=
      (eq_append_of_place (hsplit.symm.trans htaken) hplace.symm).symm.trans hfront
    obtain ⟨-, hsame⟩ := List.append_inj' hlast rfl
    cases hsame
    exact ⟨rfl, name, signature, hlinks.constant operand _ hname.1, hknown, hfits⟩

/-- A function that translates a declaration can be relied on. -/
theorem sturdy : function.Sturdy signatures where
  begins := by
    rw [made.hasEntry_iff hlinks]
    have hwhole : made.whole ≠ [] := by simp [whole]
    obtain ⟨first, rest, hfirst⟩ := List.exists_cons_of_ne_nil hwhole
    exact ⟨first, hfirst ▸ List.mem_cons_self⟩
  decodes := by
    intro offset hentry
    obtain ⟨⟨op, operand⟩, hmem⟩ := (made.hasEntry_iff hlinks).1 hentry
    exact ⟨op, operand, (made.at_iff hlinks).2 hmem⟩
  behind := by
    intro offset op operand hat hgoes
    obtain ⟨before, after, hsplit, rfl, hnext⟩ := made.split_at hlinks hat
    obtain ⟨command, rest, rfl⟩ := hnext hgoes.2.2
    rw [made.hasEntry_iff hlinks, hsplit, placed_append, Nat.zero_add]
    exact ⟨command, List.mem_append_right _ (List.mem_cons_of_mem _ List.mem_cons_self)⟩
  target := by
    intro offset op target hat hjump
    obtain ⟨command, hland, -⟩ := made.landing ((made.mem_entries_iff hlinks).2 hat) hjump
    refine ⟨(made.hasEntry_iff hlinks).2 ⟨command, hland⟩, ?_⟩
    have hbounds := bounds_of_mem_placed hland
    have hsize := (made.loaded_whole hlinks).stands.size_le
    omega
  constant := by
    intro offset position hat
    obtain ⟨value, hvalue, -⟩ := (made.allows ((made.mem_entries_iff hlinks).2 hat)).constant rfl
    exact ⟨.scalar value, hlinks.constant position value hvalue⟩
  slot := by
    intro offset op slot hat huses
    rw [hlinks.localCount]
    exact (made.allows ((made.mem_entries_iff hlinks).2 hat)).slot huses
  counted := by
    intro offset op count hat hop
    exact (made.allows ((made.mem_entries_iff hlinks).2 hat)).counted hop
  guarded := by
    intro offset count hat
    refine ⟨?_, fun place jump hjump => ?_⟩
    · rintro rfl
      exact absurd ((made.naming hlinks).begun _ _ hat) Bool.noConfusion
    · cases hjumps : jump.isJump with
      | false => rfl
      | true =>
          exact absurd ((made.naming hlinks).landed _ _ _ _ _ hat hjump hjumps) Bool.noConfusion
  called := by
    intro offset op operand count hat hcall
    obtain ⟨hpush, name, signature, hname, hknown, hcount, -⟩ :=
      (made.naming hlinks).pushed _ _ _ _ _ hat hcall rfl
    exact ⟨hpush, name, signature, hname, hknown, hcount rfl⟩
  params := by
    rw [hlinks.paramCount, hlinks.localCount, made.paramCount, made.localCount, Signature.slots,
      List.length_append, List.length_map]
    exact Nat.le_add_right _ _
  known := ⟨made.signature, hlinks.name ▸ made.known, hlinks.paramCount.trans made.paramCount⟩

end Translation

/-- Every function of a program can be relied on. -/
theorem sturdy_of_get? {units : List SourceUnit} {compilation : Compilation} {heap : Heap}
    {name : String} {function : CompiledFunction Value}
    (hcompile : compileUnits units = .ok compilation)
    (hget : (compilation.functions.link heap).1.get? name = some function) :
    function.Sturdy (programSignatures units) := by
  obtain ⟨_, _, _, -, hlinks, ⟨made⟩⟩ := translation_of_get? hcompile hget
  exact made.sturdy hlinks

theorem naming_of_get? {units : List SourceUnit} {compilation : Compilation} {heap : Heap}
    {name : String} {function : CompiledFunction Value}
    (hcompile : compileUnits units = .ok compilation)
    (hget : (compilation.functions.link heap).1.get? name = some function) :
    function.Naming (programSignatures units) := by
  obtain ⟨_, _, _, -, hlinks, ⟨made⟩⟩ := translation_of_get? hcompile hget
  exact made.naming hlinks

end DocScript
