import DocScript.Proofs.Bytecode.Assembly
import DocScript.Proofs.Machine.Visits

/-! # Commands that are carried out

A machine carries out commands when it takes one step for each of them, in their order: the command
is the next instruction of the innermost function, and the step leaves the frame right behind it.
-/

namespace DocScript

/-- The next instruction of the innermost function is the command. -/
structure Machine.Faces (machine : Machine σ γ) (command : Command) (frame : Frame)
    (outer : List Frame) : Prop where
  frames : machine.frames = frame :: outer
  decodes : Instruction.decode? frame.function.code frame.offset = some command.instruction

/-- The machine carries out the commands, each once, and is then the last one. Each step goes on
right behind its command, within the same frames. -/
inductive Machine.CarriesOut (setup : Setup σ γ) :
    List Command → Machine σ γ → Machine σ γ → Prop where
  | done (machine : Machine σ γ) : CarriesOut setup [] machine machine
  | next {command : Command} {rest : List Command} {frame : Frame} {outer : List Frame}
      {locals : Array Value} {machine middle after : Machine σ γ}
      (hfaces : machine.Faces command frame outer)
      (hstep : Exec.step setup machine = .ok .proceed middle)
      (hbehind : middle.frames =
        ⟨frame.function, frame.offset + command.op.width, locals⟩ :: outer)
      (h : CarriesOut setup rest middle after) : CarriesOut setup (command :: rest) machine after

/-- The machine carries out the first of the commands and fails at the next one, and is then the
last one. -/
inductive Machine.Breaks (setup : Setup σ γ) :
    List Command → Machine σ γ → Fault → Machine σ γ → Prop where
  | here {command : Command} {rest : List Command} {frame : Frame} {outer : List Frame}
      {machine stopped : Machine σ γ} {fault : Fault}
      (hfaces : machine.Faces command frame outer)
      (hstep : Exec.step setup machine = .error fault stopped) :
      Breaks setup (command :: rest) machine fault stopped
  | later {command : Command} {rest : List Command} {frame : Frame} {outer : List Frame}
      {locals : Array Value} {machine middle stopped : Machine σ γ} {fault : Fault}
      (hfaces : machine.Faces command frame outer)
      (hstep : Exec.step setup machine = .ok .proceed middle)
      (hbehind : middle.frames =
        ⟨frame.function, frame.offset + command.op.width, locals⟩ :: outer)
      (h : Breaks setup rest middle fault stopped) :
      Breaks setup (command :: rest) machine fault stopped

namespace Machine

variable {setup : Setup σ γ} {first second commands : List Command} {fault : Fault} {base : Nat}
  {machine middle after stopped : Machine σ γ}

theorem hasFramesAbove_cons {frame other : Frame} {outer : List Frame}
    (hframes : machine.frames = frame :: outer) (hmiddle : middle.frames = other :: outer)
    (hgoes : machine.hasFramesAbove base = true) : middle.hasFramesAbove base = true := by
  rw [hasFramesAbove_iff, hframes] at hgoes
  rw [hasFramesAbove_iff, hmiddle]
  exact hgoes

namespace CarriesOut

theorem trans (h : CarriesOut setup first machine middle)
    (hrest : CarriesOut setup second middle after) :
    CarriesOut setup (first ++ second) machine after := by
  induction h with
  | done machine => exact hrest
  | next hfaces hstep hbehind _ ih => exact .next hfaces hstep hbehind (ih hrest)

theorem breaks (h : CarriesOut setup first machine middle)
    (hrest : Breaks setup second middle fault stopped) :
    Breaks setup (first ++ second) machine fault stopped := by
  induction h with
  | done machine => exact hrest
  | next hfaces hstep hbehind _ ih => exact .later hfaces hstep hbehind (ih hrest)

/-- As many steps are taken as there are commands. -/
theorem advance (h : CarriesOut setup commands machine after)
    (hgoes : machine.hasFramesAbove base = true) :
    machine.advance setup base commands.length = some after := by
  induction h with
  | done machine => exact if_pos hgoes
  | next hfaces hstep hbehind _ ih =>
      exact (advance_succ hgoes hstep _).trans
        (ih (hasFramesAbove_cons hfaces.frames hbehind hgoes))

end CarriesOut

namespace Breaks

theorem append (h : Breaks setup first machine fault stopped) (second : List Command) :
    Breaks setup (first ++ second) machine fault stopped := by
  induction h with
  | here hfaces hstep => exact .here hfaces hstep
  | later hfaces hstep hbehind _ ih => exact .later hfaces hstep hbehind ih

/-- The last step is the one that fails. -/
theorem advance (h : Breaks setup commands machine fault stopped)
    (hgoes : machine.hasFramesAbove base = true) :
    ∃ count last, machine.advance setup base count = some last ∧
      Exec.step setup last = .error fault stopped := by
  induction h with
  | here hfaces hstep => exact ⟨0, _, if_pos hgoes, hstep⟩
  | later hfaces hstep hbehind _ ih =>
      obtain ⟨count, last, hlast, hfault⟩ :=
        ih (hasFramesAbove_cons hfaces.frames hbehind hgoes)
      exact ⟨count + 1, last, (advance_succ hgoes hstep count).trans hlast, hfault⟩

end Breaks

end Machine

end DocScript
