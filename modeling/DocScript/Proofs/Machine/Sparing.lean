import DocScript.Proofs.Machine.Regime

/-! # Faults that code is not to blame for

An unknown operation, malformed code, a local that is not there and a wrong number of
arguments are faults of the code itself. Most instructions have no such fault, whatever
they find on the stack, and leave all frames where they stand with as many locals.
-/

namespace DocScript

theorem FaultKind.spares_of_operational {kind : FaultKind} (h : kind.isOperational = true) :
    kind.isStructural = false := by
  revert h
  cases kind <;> decide

/-- The code is not to blame for the fault. -/
def Fault.SparesCode (fault : Fault) : Prop := fault.kind.isStructural = false

theorem Fault.SparesCode.within {fault : Fault} (h : fault.SparesCode) (site : Site) :
    (fault.within site).SparesCode := h

/-! ### Capabilities -/

/-- A service that fails does not blame the code. -/
def SparingService (service : Service σ α) : Prop :=
  ∀ state fault after, service state = .error fault after → fault.SparesCode

/-- The backend does not blame the code, unless a handler that it has dispatched did. -/
def EventLoop.Spares : EventLoop γ → Prop
  | .finish result _ => ∀ fault, result = .error fault → fault.SparesCode
  | .dispatch _ _ resume => ∀ outcome,
      (∀ fault, outcome = .error fault → fault.SparesCode) → (resume outcome).Spares

/-- None of the capabilities blames the code of its own accord. -/
structure Capabilities.Spare (capabilities : Capabilities σ γ) : Prop where
  print : ∀ text, SparingService (capabilities.print text)
  foreign : ∀ foreign, capabilities.foreign = some foreign →
    ∀ call, SparingService (foreign.invoke call)
  allocate : ∀ memory, capabilities.memory = some memory →
    ∀ size, SparingService (memory.allocate size)
  read : ∀ memory, capabilities.memory = some memory →
    ∀ address offset width, SparingService (memory.read address offset width)
  write : ∀ memory, capabilities.memory = some memory →
    ∀ address offset width value, SparingService (memory.write address offset width value)
  free : ∀ memory, capabilities.memory = some memory →
    ∀ address, SparingService (memory.free address)
  openWindow : ∀ width height title,
    SparingService (capabilities.graphics.openWindow width height title)
  draw : ∀ rect, SparingService (capabilities.graphics.draw rect)
  loop : ∀ backend, (capabilities.graphics.loop backend).Spares

/-! ### Actions -/

/-- A frame without what is in its locals: its function, where it stands, and how many locals
it has. -/
structure Stance where
  function : CompiledFunction Value
  offset : Nat
  locals : Nat

def Frame.stance (frame : Frame) : Stance := ⟨frame.function, frame.offset, frame.locals.size⟩

/-- How the frames stand, the innermost one first, and which of them belong to outer runs. -/
def Machine.poise (machine : Machine σ γ) : List Stance × Nat :=
  (machine.frames.map Frame.stance, machine.base)

/-- The frames are to stand as in the machine, and the code is not to blame for faults. -/
def Machine.poised (machine : Machine σ γ) : Regime σ γ where
  holds after := after.poise = machine.poise
  excuses kind := kind.isStructural = false

theorem Machine.poised_fair (machine : Machine σ γ) : machine.poised.Fair where
  stack _ _ h := h
  heap _ _ h := h
  graphics _ _ h := h
  environment _ _ h := h
  excuses _ h := FaultKind.spares_of_operational h

theorem EventLoop.spares_iff {course : EventLoop γ} :
    course.Spares ↔ course.Excused fun kind => kind.isStructural = false := by
  induction course with
  | finish result backend => exact Iff.rfl
  | dispatch event arguments resume ih =>
      exact forall_congr' fun outcome => imp_congr_right fun _ => ih outcome

theorem Capabilities.spare_iff {capabilities : Capabilities σ γ} :
    capabilities.Spare ↔ capabilities.Excused fun kind => kind.isStructural = false :=
  ⟨fun h => ⟨h.print, h.foreign, h.allocate, h.read, h.write, h.free, h.openWindow, h.draw,
      fun backend => EventLoop.spares_iff.1 (h.loop backend)⟩,
    fun h => ⟨h.print, h.foreign, h.allocate, h.read, h.write, h.free, h.openWindow, h.draw,
      fun backend => EventLoop.spares_iff.2 (h.loop backend)⟩⟩

namespace Exec

/-- The frames stand as they stood, and the code is not to blame if there was a fault. -/
def Spared (before : Machine σ γ) : EStateM.Result Fault (Machine σ γ) α → Prop
  | .ok _ after => after.poise = before.poise
  | .error fault after => after.poise = before.poise ∧ fault.SparesCode

theorem spared_iff_upheld {before : Machine σ γ}
    {result : EStateM.Result Fault (Machine σ γ) α} :
    Spared before result ↔ before.poised.Upheld result := by
  cases result <;> exact Iff.rfl

theorem Spared.of_upholds {action : Exec σ γ α} {machine : Machine σ γ}
    (h : machine.poised.Upholds action) : Spared machine (action machine) :=
  spared_iff_upheld.2 (h machine rfl)

/-- Only how the frames stood before matters. -/
theorem Spared.of_poise {before middle : Machine σ γ}
    {result : EStateM.Result Fault (Machine σ γ) α} (hpoise : middle.poise = before.poise)
    (h : Spared middle result) : Spared before result := by
  cases result with
  | ok value after => exact h.trans hpoise
  | error fault after => exact ⟨h.1.trans hpoise, h.2⟩

theorem Spared.bind {first : Exec σ γ α} {next : α → Exec σ γ β} {machine : Machine σ γ}
    (hfirst : Spared machine (first machine))
    (hnext : ∀ value middle, first machine = .ok value middle →
      middle.poise = machine.poise → Spared middle (next value middle)) :
    Spared machine ((first >>= next) machine) :=
  spared_iff_upheld.2 ((spared_iff_upheld.1 hfirst).bind fun value middle hresult hpoise =>
    spared_iff_upheld.1 ((hnext value middle hresult hpoise).of_poise hpoise))

/-- The site of a fault does not matter. -/
theorem Spared.within {action : Exec σ γ α} {machine : Machine σ γ}
    (h : Spared machine (action machine)) (site : Site) :
    Spared machine (within site action machine) :=
  spared_iff_upheld.2 ((spared_iff_upheld.1 h).within site)

theorem Spared.proceeding {action : Exec σ γ Unit} {machine : Machine σ γ}
    (h : Spared machine (action machine)) (site : Site) : Spared machine
      ((Exec.within site action >>= fun _ => pure .proceed : Exec σ γ (Signal γ)) machine) :=
  (h.within site).bind fun _ _ _ _ => rfl

/-- To register a handler leaves the frames alone. -/
theorem upholds_onEvent {setup : Setup σ γ} (machine : Machine σ γ) :
    machine.poised.Upholds (Exec.onEvent setup) := by
  have hfair := machine.poised_fair
  refine Regime.Upholds.bind (.popText hfair _) fun handler => ?_
  refine Regime.Upholds.bind (.popText hfair _) fun event => ?_
  split
  next => exact .update fun _ h => h
  next => exact .excused rfl

/-! ### Instructions that rely on the code -/

variable {machine : Machine σ γ} {frame : Frame} {outer : List Frame}

theorem locals_of_frames (hframes : machine.frames = frame :: outer) :
    locals machine = .ok frame.locals machine := by
  unfold locals
  rw [bind_eq, get_eq]
  simp only [hframes]
  rfl

theorem spared_loadLocal (hframes : machine.frames = frame :: outer) {slot : Nat}
    (hslot : slot < frame.locals.size) : Spared machine (loadLocal slot machine) := by
  unfold loadLocal
  rw [bind_eq, locals_of_frames hframes]
  simp only [Array.getElem?_eq_getElem hslot]
  exact .of_upholds (.push machine.poised_fair _)

theorem spared_setLocal (hframes : machine.frames = frame :: outer) {slot : Nat}
    (hslot : slot < frame.locals.size) (value : Value) :
    Spared machine (setLocal slot value machine) := by
  unfold setLocal
  rw [bind_eq, locals_of_frames hframes]
  simp only [if_pos hslot]
  rw [modifyFrame_cons hframes]
  simp [Spared, Machine.poise, hframes, Frame.stance]

/-- A value is taken, and what is done with it finds the frames as they were. -/
theorem spared_pop (hframes : machine.frames = frame :: outer) {next : Value → Exec σ γ α}
    (hnext : ∀ value (middle : Machine σ γ), middle.frames = frame :: outer →
      Spared middle (next value middle)) (shortage : Shortage) :
    Spared machine ((pop shortage >>= next) machine) := by
  have hpopped : Spared machine (pop shortage machine) := .of_upholds (.pop machine.poised_fair _)
  exact hpopped.bind fun value middle hpop _ =>
    hnext value middle ((frames_of_pop hpop).trans hframes)

theorem spared_storeLocal (hframes : machine.frames = frame :: outer) {slot : Nat}
    (hslot : slot < frame.locals.size) : Spared machine (storeLocal slot machine) :=
  spared_pop hframes (fun value _ hmiddle => spared_setLocal hmiddle hslot value) _

theorem spared_storeLocalInt (hframes : machine.frames = frame :: outer) {slot : Nat}
    (hslot : slot < frame.locals.size) : Spared machine (storeLocalInt slot machine) := by
  refine spared_pop hframes (fun value middle hmiddle => ?_) _
  cases value.int? with
  | some number => exact spared_setLocal hmiddle hslot _
  | none => exact ⟨rfl, rfl⟩

end Exec

end DocScript
