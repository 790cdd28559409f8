import DocScript.Proofs.Machine.Entries
import DocScript.Proofs.Machine.Reach

/-! # Names on top of the stack

What takes the name of a function, a call or the registration of a handler, stands
right behind the push of that name, and no run comes to it in another way. So in every
state that is reached the name that was compiled in lies on top of the stack.
-/

namespace DocScript

open Machine

/-- The push of the name stands right in front of the offset. -/
def CompiledFunction.Names (function : CompiledFunction Value) (offset : Nat) (name : String) :
    Prop :=
  ∃ place position, function.At place .pushConst position ∧
    offset = place + Opcode.pushConst.width ∧
    function.constants[position]? = some (.scalar (.string name))

/-! ### Places -/

/-- The function belongs to the program, and an instruction begins there. -/
structure Located (program : Program) (place : CompiledFunction Value × Nat) : Prop where
  member : ∃ name, program.get? name = some place.1
  entry : place.1.HasEntry place.2

/-- The instruction there takes no name. -/
structure Quiet (program : Program) (place : CompiledFunction Value × Nat) : Prop
    extends Located program place where
  untaken : ∀ op operand, place.1.At place.2 op operand → op.takesName = false

/-- If the instruction there takes a name, then that name lies on top of the stack. It is the name
of a known function, and a call takes as many arguments as that function has parameters. -/
structure Supplied (signatures : SignatureTable) (program : Program) (stack : List Value)
    (place : CompiledFunction Value × Nat) : Prop extends Located program place where
  named : ∀ op operand, place.1.At place.2 op operand → op.takesName = true →
    ∃ name signature below, place.1.Names place.2 name ∧ stack = .string name :: below ∧
      signatures.get? name = some signature ∧
      (op = .call → operand = signature.params.length) ∧
      (op = .onEvent → ∀ native, name ≠ (SignatureTable.native native).name)

theorem Quiet.supplied {program : Program} {place : CompiledFunction Value × Nat}
    (h : Quiet program place) (signatures : SignatureTable) (stack : List Value) :
    Supplied signatures program stack place :=
  ⟨h.toLocated, fun op operand hat htakes =>
    absurd ((h.untaken op operand hat).symm.trans htakes) nofun⟩

/-- The innermost frame of a run may take a name, and the frames around it do not. -/
def RunSupplied (signatures : SignatureTable) (program : Program) (stack : List Value) :
    List (CompiledFunction Value × Nat) → Prop
  | [] => True
  | first :: others =>
      Supplied signatures program stack first ∧ ∀ other ∈ others, Quiet program other

theorem runSupplied_of_quiet {program : Program} {places : List (CompiledFunction Value × Nat)}
    (h : ∀ place ∈ places, Quiet program place) (signatures : SignatureTable)
    (stack : List Value) : RunSupplied signatures program stack places := by
  cases places with
  | nil => trivial
  | cons first others =>
      exact ⟨(h first List.mem_cons_self).supplied signatures stack,
        fun other hmem => h other (List.mem_cons_of_mem _ hmem)⟩

/-! ### Steps -/

/-- All functions of the program can be relied on where they run and where they take names. -/
def Setup.Names (setup : Setup σ γ) (signatures : SignatureTable) : Prop :=
  ∀ name function, setup.program.get? name = some function →
    function.Sturdy signatures ∧ function.Naming signatures

section Steps

variable {signatures : SignatureTable} {setup : Setup σ γ} {frame : Frame} {op : Opcode}
  {operand : Nat} (hnames : setup.Names signatures)

include hnames

theorem quiet_begin {name : String} {function : CompiledFunction Value}
    (hget : setup.program.get? name = some function) : Quiet setup.program (function, 0) :=
  ⟨⟨⟨name, hget⟩, (hnames name function hget).1.begins⟩, (hnames name function hget).2.begun⟩

/-- Where an instruction that pushes nothing goes on, no name is taken. -/
theorem quiet_shift (h : Located setup.program frame.place)
    (hat : frame.function.At frame.offset op operand) (hpush : op ≠ .pushConst)
    {moved : List (CompiledFunction Value × Nat)}
    (hshift : Exec.Shift setup frame op operand moved) :
    ∀ place ∈ moved, Quiet setup.program place := by
  obtain ⟨name, hget⟩ := h.member
  obtain ⟨hsturdy, hnaming⟩ := hnames name _ hget
  have hbehind (hgoes : op ≠ .jmp ∧ op ≠ .ret ∧ op ≠ .halt) :
      Quiet setup.program (frame.function, frame.offset + op.width) := by
    -- Only a push leads to an instruction that takes a name.
    refine ⟨⟨⟨name, hget⟩, hsturdy.behind _ _ _ hat hgoes⟩, fun taker count htaker => ?_⟩
    cases htakes : taker.takesName with
    | false => rfl
    | true => exact absurd (hnaming.pushed _ _ _ _ _ hat htaker htakes).1 hpush
  intro place hmem
  cases hshift with
  | behind hgoes => exact List.mem_singleton.1 hmem ▸ hbehind hgoes
  | target hjump =>
      have hjumps : op.isJump = true := by
        rcases hjump with rfl | rfl <;> rfl
      rw [List.mem_singleton] at hmem
      subst hmem
      exact ⟨⟨⟨name, hget⟩, (hsturdy.target _ _ _ hat hjumps).1⟩, fun taker count htaker =>
        hnaming.landed _ _ _ _ _ htaker hat hjumps⟩
  | entered hcall hcallee =>
      rw [List.mem_cons, List.mem_singleton] at hmem
      rcases hmem with rfl | rfl
      · exact quiet_begin hnames hcallee
      · exact hbehind (by rw [hcall]; decide)
  | left => cases hmem

/-- Behind the push of a constant a name is taken only if that constant is the name. -/
theorem supplied_push (h : Located setup.program frame.place)
    (hat : frame.function.At frame.offset .pushConst operand) {value : Value}
    (hvalue : frame.function.constants[operand]? = some value) (stack : List Value) :
    Supplied signatures setup.program (value :: stack)
      (frame.function, frame.offset + Opcode.pushConst.width) := by
  obtain ⟨name, hget⟩ := h.member
  obtain ⟨hsturdy, hnaming⟩ := hnames name _ hget
  refine ⟨⟨⟨name, hget⟩, hsturdy.behind _ _ _ hat (by decide)⟩,
    fun taker count htaker htakes => ?_⟩
  obtain ⟨-, callee, signature, hconstant, hknown, hfits⟩ :=
    hnaming.pushed _ _ _ _ _ hat htaker htakes
  cases hvalue.symm.trans hconstant
  exact ⟨callee, signature, stack, ⟨_, operand, hat, rfl, hconstant⟩, rfl, hknown, hfits⟩

/-- A step leaves the frames of a run supplied, and quiet if it enters the loop of a backend. -/
theorem step_supplied {machine after : Machine σ γ}
    {inner outer : List (CompiledFunction Value × Nat)} {signal : Signal γ}
    (hgoes : machine.hasFramesAbove outer.length = true)
    (hplaces : machine.frames.map Frame.place = inner ++ outer)
    (hsupplied : RunSupplied signatures setup.program machine.stack inner)
    (hstep : Exec.step setup machine = .ok signal after) :
    ∃ moved, after.frames.map Frame.place = moved ++ outer ∧
      ((signal = .proceed ∧ RunSupplied signatures setup.program after.stack moved) ∨
        ∀ place ∈ moved, Quiet setup.program place) := by
  obtain ⟨frame, rest, others, hframes, rfl, hrest⟩ := frames_of_goes hgoes hplaces
  obtain ⟨hfirst, hothers⟩ := hsupplied
  obtain ⟨name, hget⟩ := hfirst.member
  obtain ⟨hsturdy, -⟩ := hnames name _ hget
  obtain ⟨op, operand, hplace⟩ := hsturdy.decodes _ hfirst.entry
  have hat : frame.function.At frame.offset op operand := hplace
  by_cases hpush : op = .pushConst
  · subst hpush
    obtain ⟨value, hconstant⟩ := hsturdy.constant _ _ hat
    have hvalue : frame.function.constants[operand]? = some value := hconstant
    rw [Exec.step_eq hframes hat.2, Exec.execute_pushConst hvalue] at hstep
    cases hstep
    refine ⟨_ :: others, congrArg (List.cons _) hrest, .inl ⟨rfl, ?_, hothers⟩⟩
    exact supplied_push hnames hfirst.toLocated hat hvalue _
  · have hshifts := Exec.step_shifts setup hframes hat.2
    rw [hstep] at hshifts
    obtain ⟨-, moved, hshift, hmoved⟩ := hshifts
    rw [hrest, ← List.append_assoc] at hmoved
    -- Behind any other step no name is waited for, whatever is on the stack.
    refine ⟨moved ++ others, hmoved, .inr fun place hmem => ?_⟩
    rcases List.mem_append.1 hmem with hinner | hother
    · exact quiet_shift hnames hfirst.toLocated hat hpush hshift place hinner
    · exact hothers place hother

/-- The frames of a run are supplied throughout. -/
theorem supplied_invariant :
    RunInvariant setup Frame.place (RunSupplied signatures setup.program) where
  begins hget _ stack := ⟨(quiet_begin hnames hget).supplied signatures stack, nofun⟩
  proceeds hgoes hplaces hsupplied hstep := by
    obtain ⟨moved, hmoved, ⟨-, hnext⟩ | hquiet⟩ :=
      step_supplied hnames hgoes hplaces hsupplied hstep
    · exact ⟨moved, hmoved, hnext⟩
    · exact ⟨moved, hmoved, runSupplied_of_quiet hquiet signatures _⟩
  loops hgoes hplaces hsupplied hstep hloop := by
    obtain ⟨moved, hmoved, ⟨hproceeds, -⟩ | hquiet⟩ :=
      step_supplied hnames hgoes hplaces hsupplied hstep
    · cases hproceeds
    · exact ⟨moved, (places_of_followLoop hloop).trans hmoved,
        runSupplied_of_quiet hquiet signatures _⟩

end Steps

/-- The innermost frame is supplied. -/
def Machine.IsSupplied (signatures : SignatureTable) (program : Program) (machine : Machine σ γ) :
    Prop :=
  ∃ frame rest, machine.frames = frame :: rest ∧
    Supplied signatures program machine.stack frame.place

/-- In every state that is reached, the names that are taken are those that were compiled in. -/
theorem Reached.supplied {signatures : SignatureTable} {setup : Setup σ γ}
    {machine found : Machine σ γ} (hnames : setup.Names signatures)
    (h : Reached setup machine found) : found.IsSupplied signatures setup.program := by
  obtain ⟨frame, rest, others, hframes, hsupplied, -⟩ := h.obeys (supplied_invariant hnames)
  exact ⟨frame, rest, hframes, hsupplied⟩

/-- The functions of a program that compiles name what was compiled in. -/
theorem names_of_compileUnits {units : List SourceUnit} {compilation : Compilation} {heap : Heap}
    {setup : Setup σ γ} (hcompile : compileUnits units = .ok compilation)
    (hprogram : setup.program = (compilation.functions.link heap).1) :
    setup.Names (programSignatures units) := fun _ _ hget =>
  ⟨sturdy_of_get? hcompile (hprogram ▸ hget), naming_of_get? hcompile (hprogram ▸ hget)⟩

end DocScript
