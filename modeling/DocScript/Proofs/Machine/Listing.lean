import DocScript.Proofs.Bytecode.Listing
import DocScript.Proofs.Machine.DefiniteAssignment

/-! # Listings show what is executed

The machine reads code where it stands, a listing from the first byte on. In the functions of a
program that compiles the two agree: whatever a run executes is an entry of the listing.
-/

namespace DocScript

/-- The step from the state reads and executes an operation that the listing of the function has at
the offset, where its line describes just this operation, and goes on behind it. -/
structure Exec.Shows (setup : Setup σ γ) (machine : Machine σ γ) (frame : Frame)
    (outer : List Frame) (function : CompiledFunction Constant) (op : Opcode) (operand : Nat) :
    Prop where
  entry : (frame.offset, .operation op operand) ∈ function.entries
  line : function.Describes frame.offset (.operation op operand)
  read : Instruction.decode? frame.function.code frame.offset = some (.operation op operand)
  step : Exec.step setup machine =
    Exec.execute setup ⟨frame.function.name, frame.offset⟩ frame.function operand op
      (machine.moved frame outer (frame.offset + op.width))

theorem Request.Visits.innermost {setup : Setup σ γ} {machine found : Machine σ γ}
    {request : Request} (h : request.Visits setup machine found) :
    ∃ frame outer, found.frames = frame :: outer ∧ machine.frames.length ≤ outer.length := by
  have hgoes : machine.frames.length < found.frames.length := by
    cases h with
    | run _ _ hvisits => exact hvisits.found_goes
    | fire hvisits => exact hvisits.found_goes
  cases hframes : found.frames with
  | nil => simp [hframes] at hgoes
  | cons frame outer =>
      rw [hframes, List.length_cons] at hgoes
      exact ⟨frame, outer, rfl, Nat.le_of_lt_succ hgoes⟩

section Programs

variable {units : List SourceUnit} {compilation : Compilation}
  (hcompile : compileUnits units = .ok compilation)
  {setup : Setup σ γ} {heap : Heap} {machine found : Machine σ γ} {request : Request}

include hcompile

/-- A function of a running program has the listing that it was compiled with. -/
theorem entries_of_get? {name : String} {function : CompiledFunction Value}
    (hget : (compilation.functions.link heap).1.get? name = some function) :
    ∃ compiled, compilation.functions.get? function.name = some compiled ∧
      compiled.entries = function.entries := by
  rw [link_get? hcompile, Option.map_eq_some_iff] at hget
  obtain ⟨compiled, hcompiled, rfl⟩ := hget
  have hname : compiled.name = name := (FunctionTable.mem_of_get? hcompiled).2
  exact ⟨compiled, hname ▸ hcompiled, rfl⟩

/-- Wherever a run stands, it executes an entry of the listing of the function. -/
theorem Request.Visits.shows (hprogram : setup.program = (compilation.functions.link heap).1)
    (hvisits : request.Visits setup machine found) :
    ∃ frame outer compiled op operand, found.frames = frame :: outer ∧
      compilation.functions.get? frame.function.name = some compiled ∧
        Exec.Shows setup found frame outer compiled op operand := by
  obtain ⟨frame, outer, hframes, hbelow⟩ := hvisits.innermost
  have hdepth : outer.length < found.frames.length := by
    rw [hframes, List.length_cons]
    exact Nat.lt_succ_self _
  obtain ⟨function, arguments, entered, hbegins, hlives⟩ := hvisits.origin hbelow hdepth
  obtain ⟨⟨name, hget⟩, -⟩ := hbegins.starts
  rw [hprogram] at hget
  have hsturdy := sturdy_of_get? hcompile hget
  have hinner : found.frames = [] ++ frame :: outer := hframes
  -- The frame has only gone where instructions begin.
  have hruns := (hlives.stands hsturdy).holds_of_frames hinner rfl
  obtain rfl := hruns.same
  obtain ⟨op, operand, ⟨instruction, hmem⟩, hdecode⟩ := hsturdy.decodes _ hruns.entry
  have hread := Instruction.decode?_of_mem_sweep hmem
  cases hread.symm.trans hdecode
  obtain ⟨compiled, hcompiled, hentries⟩ := entries_of_get? hcompile hget
  have hlisted : (frame.offset, .operation op operand) ∈ compiled.entries := hentries ▸ hmem
  exact ⟨frame, outer, compiled, op, operand, hframes, hcompiled, hlisted,
    CompiledFunction.describes_of_mem hlisted, hdecode, Exec.step_eq hframes hdecode⟩

end Programs

end DocScript
