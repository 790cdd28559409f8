import DocScript.Proofs.Machine.Advance
import DocScript.Proofs.Machine.Requests

/-! # Frames stay within bounds

Code comes from outside, and its bytes may be anything: it may jump into the middle of an
instruction, end within an operand, or call whatever it likes. Still there are never more frames
than there may be, each runs a function of the program at an offset that lies in its code or at the
end of it, and has as many locals as the function asks for.
-/

namespace DocScript

open Machine

/-- The frame runs a function of the program, is in its code or at the end of it, and has all of
its locals. -/
structure Frame.Bounded (program : Program) (frame : Frame) : Prop where
  function : ∃ name, program.get? name = some frame.function
  offset : frame.offset ≤ frame.function.code.size
  locals : frame.locals.size = max frame.function.paramCount frame.function.localCount

/-- There are no more frames than there may be, and all are bounded. -/
structure Machine.Bounded (setup : Setup σ γ) (machine : Machine σ γ) : Prop where
  depth : machine.frames.length ≤ setup.callDepthLimit
  frames : ∀ frame ∈ machine.frames, frame.Bounded setup.program

variable {setup : Setup σ γ} {machine after : Machine σ γ} {frame changed : Frame}
  {outer : List Frame} {function : CompiledFunction Value} {arguments : List Value}

/-! ### Frames -/

theorem Frame.Bounded.becomes {program : Program} (h : frame.Bounded program)
    (hbecomes : frame.Becomes changed) : changed.Bounded program where
  function := hbecomes.function ▸ h.function
  offset := hbecomes.function ▸ hbecomes.offset h.offset
  locals := by rw [hbecomes.locals, hbecomes.function, h.locals]

/-- A frame has all of its locals from the beginning on. -/
theorem Frame.Bounded.enter {program : Program} {name : String}
    (hfunction : program.get? name = some function)
    (harguments : arguments.length = function.paramCount) :
    (Frame.enter function arguments).Bounded program where
  function := ⟨name, hfunction⟩
  offset := Nat.zero_le _
  locals := by
    simp only [Frame.enter, List.size_toArray, List.length_append, List.length_replicate]
    omega

/-! ### One step -/

namespace Machine.Bounded

/-- Nothing but the frames matters. -/
theorem of_frames (h : machine.Bounded setup) (hframes : after.frames = machine.frames) :
    after.Bounded setup where
  depth := hframes ▸ h.depth
  frames := hframes ▸ h.frames

/-- Frames may be dropped. -/
theorem of_suffix (h : machine.Bounded setup) (hsuffix : after.frames <:+ machine.frames) :
    after.Bounded setup where
  depth := Nat.le_trans hsuffix.length_le h.depth
  frames frame hmem := h.frames frame (hsuffix.subset hmem)

theorem stays (h : machine.Bounded setup) (hframes : machine.frames = frame :: outer)
    (hstays : machine.Stays frame outer after) : after.Bounded setup := by
  obtain ⟨changed, hbecomes, hafter⟩ := hstays.frames
  obtain ⟨hdepth, hbounded⟩ := h
  rw [hframes] at hdepth hbounded
  obtain ⟨hframe, houter⟩ := List.forall_mem_cons.1 hbounded
  constructor
  · rw [hafter]
    exact hdepth
  · rw [hafter]
    exact List.forall_mem_cons.2 ⟨hframe.becomes hbecomes, houter⟩

theorem enter {name : String} {entered : Machine σ γ} (h : machine.Bounded setup)
    (hfunction : setup.program.get? name = some function)
    (henter : Exec.enter setup function arguments machine = .ok () entered) :
    entered.Bounded setup := by
  have hbegun := Frame.Bounded.enter hfunction (Exec.length_of_enter henter)
  rw [Exec.enter_ok henter]
  exact ⟨Exec.depth_of_enter henter, List.forall_mem_cons.2 ⟨hbegun, h.frames⟩⟩

/-- Whatever the bytes are, an instruction leaves the frames bounded, even where it faults. -/
theorem step (h : machine.Bounded setup) :
    (∀ signal after, Exec.step setup machine = .ok signal after → after.Bounded setup) ∧
      ∀ fault after, Exec.step setup machine = .error fault after → after.Bounded setup := by
  cases hframes : machine.frames with
  | nil =>
      rw [Exec.step_idle setup hframes]
      refine ⟨fun signal after hstep => ?_, fun fault after hstep => ?_⟩
      · cases hstep
        exact h
      · cases hstep
  | cons frame outer =>
      have hleft : outer <:+ machine.frames := hframes ▸ List.suffix_cons frame outer
      -- A step loses frames, keeps them or adds the one of a callee, which enters within the limit.
      have hadvances := Exec.step_advances setup hframes
      refine ⟨fun signal after hstep => ?_, fun fault after hstep => ?_⟩
      · rw [hstep] at hadvances
        cases hadvances with
        | stayed hstays _ => exact h.stays hframes hstays
        | entered hcallee hstays _ henter => exact (h.stays hframes hstays).enter hcallee henter
        | returned _ =>
            apply h.of_suffix
            unfold Machine.returned
            split <;> exact List.tail_suffix _
        | left _ => exact h.of_suffix hleft
        | lent hstays _ => exact h.stays hframes hstays
      · rw [hstep] at hadvances
        cases hadvances with
        | faulted hstays _ => exact h.stays hframes hstays

end Machine.Bounded

/-! ### Requests -/

/-- The frames are to be bounded. -/
def Setup.bounding (setup : Setup σ γ) : Regime σ γ where
  holds := Machine.Bounded setup
  excuses _ := True

theorem bounding_stepwise (setup : Setup σ γ) :
    setup.bounding.custody.Stepwise setup fun _ => True where
  scalar _ _ := trivial
  returned _ _ := trivial
  result _ _ h _ := Regime.custody_passes.2 (h.of_frames rfl)
  pending machine h := by
    refine Regime.custody_passes.2 (h.of_frames ?_)
    unfold takePending
    split <;> rfl
  deep := trivial
  missing _ _ _ _ _ _ := trivial
  step machine h _ := by
    obtain ⟨hok, herror⟩ := Machine.Bounded.step h
    cases hstep : Exec.step setup machine with
    | ok signal after =>
        exact ⟨Regime.custody_passes.2 (hok signal after hstep), fun _ _ => trivial⟩
    | error fault after => exact ⟨Regime.custody_passes.2 (herror fault after hstep), trivial⟩
  course _ := EventLoop.excused_of_all (fun _ => trivial) _
  dispatched _ _ _ _ _ _ := trivial
  begin hfunction henter h _ := Regime.custody_passes.2 (Machine.Bounded.enter h hfunction henter)
  base _ _ h := Regime.custody_passes.2 (h.of_frames rfl)
  frames _ _ h := Regime.custody_passes.2 (h.of_suffix (List.drop_suffix _ _))
  stack _ _ h := Regime.custody_passes.2 (h.of_frames rfl)
  graphics _ _ h := Regime.custody_passes.2 (h.of_frames rfl)

/-- The states in which a machine is found between requests: it begins without frames, each request
is made of the machine as the one before it has left it, well or not, and meanwhile the host may do
what it likes to the heap and to the surroundings. -/
inductive Rests (setup : Setup σ γ) : Machine σ γ → Prop where
  | fresh {machine : Machine σ γ} (hframes : machine.frames = []) : Rests setup machine
  | served {machine after : Machine σ γ} {request : Request} {fuel : Nat} {fault : Option Fault}
      (h : Rests setup machine) (hserve : request.serve setup fuel machine = some (fault, after)) :
      Rests setup after
  | hosted {machine : Machine σ γ} {heap : Heap} {graphics : GraphicsSlot γ} {environment : σ}
      (h : Rests setup machine) : Rests setup { machine with heap, graphics, environment }

theorem Rests.bounded (h : Rests setup machine) : machine.Bounded setup := by
  induction h with
  | fresh hframes =>
      refine ⟨?_, fun frame hmem => ?_⟩
      · rw [hframes]
        exact Nat.zero_le _
      · rw [hframes] at hmem
        exact absurd hmem List.not_mem_nil
  | served _ hserve ih =>
      exact Custody.serve_leaves (bounding_stepwise setup) ih (fun _ _ => trivial)
        (fun _ _ => trivial) hserve
  | hosted _ ih => exact ih.of_frames rfl

/-- Whatever the program is, the frames are bounded whenever the machine rests, in every state in
which a request takes a step, also in the runs of handlers within other runs, and in what the step
leaves. -/
theorem frames_stay_bounded (h : Rests setup machine) :
    machine.Bounded setup ∧
      ∀ (request : Request) found, request.Visits setup machine found →
        found.Bounded setup ∧
        (∀ signal after, Exec.step setup found = .ok signal after → after.Bounded setup) ∧
        ∀ fault after, Exec.step setup found = .error fault after → after.Bounded setup := by
  refine ⟨h.bounded, fun request found hvisits => ?_⟩
  have hfound : found.Bounded setup := Custody.holds_of_request (bounding_stepwise setup) h.bounded
    (fun _ _ => trivial) (fun _ _ => trivial) hvisits
  exact ⟨hfound, hfound.step⟩

/-- A function that jumps into the middle of one of its instructions, finds a call to itself there,
and would end within an operand. -/
def burrowing : CompiledFunction Constant where
  name := "M.main"
  code := #[0x0d, 4, 0, 0x01, 1, 0, 0, 0x0f, 0, 0x01]
  constants := #[.scalar (.string "M.main")]
  localCount := 2
  paramCount := 0

set_option maxRecDepth 100000 in
theorem burrowing_bounded :
    ∃ (setup : Setup Rehearsal HeadlessGraphics) (machine found : Machine Rehearsal _),
      (Request.run "M.main" []).Visits setup machine found ∧ setup.callDepthLimit = 2 ∧
        found.frames.map Frame.offset = [4, 9] ∧ found.Bounded setup := by
  let setup : Setup Rehearsal HeadlessGraphics :=
    { program := ((FunctionTable.ofList [burrowing]).link {}).1
      callDepthLimit := 2
      capabilities := Rehearsal.capabilities false false }
  let machine := Machine.rehearsing ((FunctionTable.ofList [burrowing]).link {}).2
  have hcheck : ((machine.visited setup "M.main" 4).any fun found =>
      found.frames.map Frame.offset = [4, 9]) = true := by decide +kernel
  obtain ⟨found, hvisited, hfound⟩ := (Option.any_eq_true _ _).1 hcheck
  have hvisits := Request.Visits.of_visited hvisited
  have hbounded := (frames_stay_bounded (.fresh rfl)).2 _ found hvisits
  exact ⟨setup, machine, found, hvisits, rfl, of_decide_eq_true hfound, hbounded.1⟩

end DocScript
