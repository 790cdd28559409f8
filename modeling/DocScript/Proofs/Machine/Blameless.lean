import DocScript.Proofs.Machine.Integrity

/-! # No step is to blame

In whatever state a machine runs a function of a program that compiles or fires an
event, no step on the way fails with a fault that is the fault of the code. Nor does any
request of a host, however many others there were before.
-/

namespace DocScript

open Machine

/-! ### Steps on the way -/

/-- The innermost frame is ready to take a step. -/
def Upright (signatures : SignatureTable) (setup : Setup σ γ) (machine : Machine σ γ) : Prop :=
  ∃ frame rest, machine.frames = frame :: rest ∧
    frame.stance.Ready signatures setup.program machine.stack

section Visits

variable {signatures : SignatureTable} {setup : Setup σ γ}

/-- The frames of a run are ready throughout. -/
theorem ready_invariant (hreliable : setup.Reliable signatures) :
    RunInvariant setup Frame.stance (RunReady signatures setup.program) where
  begins hget hfits stack := ⟨(settled_enter hreliable hget hfits).ready _ _, nofun⟩
  proceeds hgoes hstances hready hstep := by
    have hwell := run_steps_well hreliable hgoes hstances hready
    rw [hstep] at hwell
    obtain ⟨moved, hmoved, hnext⟩ := hwell
    exact ⟨moved, (Prod.mk.inj hmoved).1, hnext⟩
  loops hgoes hstances hready hstep hloop := by
    have hwell := run_steps_well hreliable hgoes hstances hready
    rw [hstep] at hwell
    obtain ⟨hcourse, moved, hmoved, hsettled⟩ := hwell
    have hkept := (loop_spared hreliable (drainsSpared hreliable _) hcourse hloop).1.trans hmoved
    exact ⟨moved, (Prod.mk.inj hkept).1, runReady_of_settled hsettled⟩

theorem Reached.upright (hreliable : setup.Reliable signatures) {machine found : Machine σ γ}
    (h : Reached setup machine found) : Upright signatures setup found := by
  obtain ⟨frame, rest, others, hframes, hready⟩ := h.obeys (ready_invariant hreliable)
  exact ⟨frame, rest, hframes, hready.1⟩

end Visits

/-- The step that is taken in the state fails: its instruction does, or the loop of the backend
that it enters. -/
inductive FailsAt (setup : Setup σ γ) (found : Machine σ γ) : Fault → Prop where
  | instruction {fault : Fault} {after : Machine σ γ}
      (hstep : Exec.step setup found = .error fault after) : FailsAt setup found fault
  | loop {site : Site} {course : EventLoop γ} {middle after : Machine σ γ} {fuel : Nat}
      {fault : Fault} {backend : γ}
      (hstep : Exec.step setup found = .ok (.enterLoop site course) middle)
      (hloop : followLoop setup (drain setup fuel) course middle =
        .done (.error fault, backend) after) : FailsAt setup found (fault.within site)

/-! ### Requests -/

/-- What a host asks of a machine. -/
inductive Request where
  | run (entry : String) (arguments : List Value)
  | fire (event : String) (arguments : List Value)

/-- A function is run with as many arguments as it has parameters. -/
def Request.Fits (program : Program) : Request → Prop
  | .run entry arguments => ∀ function, program.get? entry = some function →
      arguments.length = function.paramCount
  | .fire _ _ => True

/-- The state in which the course has left the machine, if it has come to an end, and the fault if
there was one. -/
def Outcome.ending : Outcome σ γ α → Option (Option Fault × Machine σ γ)
  | .done _ after => some (none, after)
  | .faulted fault after => some (some fault, after)
  | .outOfFuel => none

theorem Outcome.of_ending {outcome : Outcome σ γ Unit} {found : Option Fault}
    {after : Machine σ γ} (h : outcome.ending = some (found, after)) :
    outcome = match found with
      | none => .done () after
      | some fault => .faulted fault after := by
  cases outcome <;> cases h <;> rfl

theorem Outcome.Leaves.ending {claim : Machine σ γ → Prop} {outcome : Outcome σ γ α}
    (h : outcome.Leaves claim) {found : Option Fault} {after : Machine σ γ}
    (hending : outcome.ending = some (found, after)) : claim after := by
  cases outcome with
  | outOfFuel => cases hending
  | done =>
      cases hending
      exact h
  | faulted =>
      cases hending
      exact h

theorem Outcome.Upheld.ending {regime : Regime σ γ} {outcome : Outcome σ γ α}
    (h : outcome.Upheld regime) {found : Option Fault} {after : Machine σ γ}
    (hending : outcome.ending = some (found, after)) :
    regime.holds after ∧ ∀ fault, found = some fault → regime.excuses fault.kind := by
  cases outcome with
  | outOfFuel => cases hending
  | done =>
      cases hending
      refine ⟨h, fun fault hfault => ?_⟩
      cases hfault
  | faulted =>
      cases hending
      refine ⟨h.1, fun fault hfault => ?_⟩
      cases hfault
      exact h.2

/-- What a request makes of a machine. -/
def Request.serve (setup : Setup σ γ) (fuel : Nat) (machine : Machine σ γ) :
    Request → Option (Option Fault × Machine σ γ)
  | .run entry arguments => (machine.run setup fuel entry arguments).ending
  | .fire event arguments => (machine.fire setup fuel event arguments).ending

/-- The faults of requests, each of which is made of the machine as the one before it has left
it. -/
def Machine.faults (setup : Setup σ γ) (fuel : Nat) : List Request → Machine σ γ → List Fault
  | [], _ => []
  | request :: rest, machine =>
      match request.serve setup fuel machine with
      | none => []
      | some (fault, after) => fault.toList ++ faults setup fuel rest after

section Requests

variable {setup : Setup σ γ} {fuel : Nat} {regime : Regime σ γ} {good : Machine σ γ → Prop}

/-- What is needed for a regime to be upheld by a request. -/
structure Regime.Serves (regime : Regime σ γ) (setup : Setup σ γ) (request : Request) : Prop
    extends regime.Steady setup where
  stack : ∀ machine height, regime.holds (machine.truncateStack height) → regime.holds machine
  entry : regime.excuses .entryNotFound
  arity : request.Fits setup.program ∨ regime.excuses .arityMismatch

variable (hhandlers : HandlersUphold setup fuel regime good)

include hhandlers

theorem run_upholds {entry : String} {arguments : List Value}
    (hserves : regime.Serves setup (.run entry arguments)) (machine : Machine σ γ)
    (hholds : regime.holds machine) (hgood : ∀ found, Reached setup machine found → good found) :
    (machine.run setup fuel entry arguments).Upheld regime := by
  have hbegins := hserves.result machine .null hholds
  have hupheld {function : CompiledFunction Value} {entered : Machine σ γ}
      (hfunction : setup.program.get? entry = some function)
      (henter : Exec.enter setup function arguments { machine with result := .null } =
        .ok () entered) :=
    hhandlers entry function arguments _ _ hfunction henter hbegins
      fun found h => hgood found (.run hfunction henter h)
  have hends := run_ends setup fuel entry arguments machine
  generalize machine.run setup fuel entry arguments = outcome at hends ⊢
  cases hends with
  | missing => exact ⟨hholds, hserves.entry⟩
  | @refused function _ hfunction _ hkind =>
      refine ⟨hbegins, ?_⟩
      rcases hkind with hdeep | ⟨hwrong, hcount⟩
      · exact hdeep ▸ hserves.deep
      · rcases hserves.arity with hfits | harity
        · exact absurd (hfits function hfunction) hcount
        · exact hwrong ▸ harity
  | starved => trivial
  | failed hfunction henter hrun =>
      have hrest := hupheld hfunction henter
      rw [hrun] at hrest
      exact ⟨hserves.stack _ _ hrest.1, hrest.2⟩
  | returned hfunction henter hrun =>
      have hrest := hupheld hfunction henter
      rw [hrun] at hrest
      exact hserves.result _ _ (hserves.stack _ _ hrest)

theorem serve_upholds {request : Request} (hserves : regime.Serves setup request)
    {machine after : Machine σ γ} (hholds : regime.holds machine)
    (hgood : ∀ found, Reached setup machine found → good found) {found : Option Fault}
    (h : request.serve setup fuel machine = some (found, after)) :
    regime.holds after ∧ ∀ fault, found = some fault → regime.excuses fault.kind := by
  cases request with
  | run entry arguments => exact (run_upholds hhandlers hserves machine hholds hgood).ending h
  | fire event arguments =>
      exact (fireWith_upholds hhandlers hserves.toSteady event arguments machine hholds
        fun found h => hgood found (.fire h)).ending h

/-- Requests one after the other only have faults that are excused. -/
theorem faults_excused {requests : List Request}
    (hserves : ∀ request ∈ requests, regime.Serves setup request) {machine : Machine σ γ}
    (hholds : regime.holds machine)
    (hgood : ∀ machine found, Reached setup machine found → good found) :
    ∀ fault ∈ machine.faults setup fuel requests, regime.excuses fault.kind := by
  induction requests generalizing machine with
  | nil => exact fun fault hmem => absurd hmem List.not_mem_nil
  | cons request rest ih =>
      intro fault hmem
      unfold Machine.faults at hmem
      split at hmem
      next => cases hmem
      next found after hserved =>
        obtain ⟨hafter, hfault⟩ := serve_upholds hhandlers
          (hserves request List.mem_cons_self) hholds (hgood machine) hserved
        rcases List.mem_append.1 hmem with hfirst | hrest
        · exact hfault fault (Option.mem_toList.1 hfirst)
        · exact ih (fun other hother => hserves other (List.mem_cons_of_mem _ hother)) hafter
            fault hrest

end Requests

/-- No request leads to a fault that the code is to blame for. -/
theorem faults_spare {signatures : SignatureTable} {setup : Setup σ γ}
    (hreliable : setup.Reliable signatures) (fuel : Nat) {requests : List Request}
    (hfits : ∀ request ∈ requests, request.Fits setup.program) (machine : Machine σ γ) :
    ∀ fault ∈ machine.faults setup fuel requests, fault.SparesCode :=
  faults_excused (handlersUphold hreliable (drainsSpared hreliable fuel) machine)
    (fun request hmem => { poised_steady machine with
      stack := fun _ _ h => h
      entry := rfl
      arity := .inl (hfits request hmem) })
    rfl fun _ _ _ => trivial

/-- A program that compiles can be relied on. -/
theorem reliable_of_compileUnits {units : List SourceUnit} {compilation : Compilation}
    {heap : Heap} {setup : Setup σ γ} (hcompile : compileUnits units = .ok compilation)
    (hprogram : setup.program = (compilation.functions.link heap).1)
    (hspare : setup.capabilities.Spare) : setup.Reliable (programSignatures units) where
  sturdy _ _ hget := sturdy_of_get? hcompile (hprogram ▸ hget)
  natives := Compiler.registered_native units
  spare := hspare

/-- Compiled code is never to blame. Whatever state the machine is in, and so whatever is on its
stack and whatever was run before, no step of a run or of a handler fails with an unknown operation,
malformed code, a local that is not there or a wrong number of arguments; and no request does, one
after the other, if functions are run with as many arguments as they have parameters. -/
theorem compiled_code_blameless {units : List SourceUnit} {compilation : Compilation}
    {heap : Heap} {setup : Setup σ γ} (hcompile : compileUnits units = .ok compilation)
    (hprogram : setup.program = (compilation.functions.link heap).1)
    (hspare : setup.capabilities.Spare) (machine : Machine σ γ) :
    (∀ found fault, Reached setup machine found → FailsAt setup found fault →
      fault.kind.isStructural = false) ∧
    ∀ fuel requests, (∀ request ∈ requests, request.Fits setup.program) →
      ∀ fault ∈ machine.faults setup fuel requests, fault.kind.isStructural = false := by
  have hreliable := reliable_of_compileUnits hcompile hprogram hspare
  refine ⟨fun found fault hreached hfails => ?_, fun fuel requests hfits =>
    faults_spare hreliable fuel hfits machine⟩
  obtain ⟨frame, rest, hframes, hready⟩ := hreached.upright hreliable
  have hwell := step_steps_well hreliable hframes hready
  cases hfails with
  | instruction hstep =>
      rw [hstep] at hwell
      exact hwell.1
  | loop hstep hloop =>
      rw [hstep] at hwell
      exact ((loop_spared hreliable (drainsSpared hreliable _) hwell.1 hloop).2 _ rfl).within _

/-! ### Capabilities of rehearsals -/

namespace Arena

variable {excuses : FaultKind → Prop}
  (hoperational : ∀ kind, kind.isOperational = true → excuses kind)

include hoperational

/-- An operation on an arena fails as it says. -/
theorem excused_service {arena : σ → Arena} {replace : σ → Arena → σ}
    {operation : Arena → Except FaultCause (α × Arena)}
    (h : ∀ arena cause, operation arena = .error cause → cause.kind.isOperational = true) :
    ExcusedService excuses (service arena replace operation) := by
  intro state fault after hfails
  unfold service at hfails
  split at hfails
  next => cases hfails
  next cause hcause =>
    cases hfails
    exact hoperational _ (h _ cause hcause)

omit hoperational in
theorem operational_memory {result : Except MemoryFault α} {cause : FaultCause}
    (h : result.mapError FaultCause.memory = .error cause) :
    cause.kind.isOperational = true := by
  cases result <;> cases h
  rfl

omit hoperational in
theorem operational_read {arena : Arena} {address : UInt64} {offset : Nat} {width : MemoryWidth}
    {cause : FaultCause} (h : arena.read address offset width = .error cause) :
    cause.kind.isOperational = true := by
  unfold Arena.read at h
  split at h <;> cases h
  rfl

omit hoperational in
theorem operational_write {arena : Arena} {address : UInt64} {offset : Nat} {width : MemoryWidth}
    {value : Value} {cause : FaultCause}
    (h : arena.write address offset width value = .error cause) :
    cause.kind.isOperational = true := by
  unfold Arena.write at h
  split at h
  · cases h
    rfl
  · split at h <;> cases h
    rfl

/-- Whatever faults the memory has are excused. -/
structure Excused (excuses : FaultKind → Prop) (memory : MemoryInterface σ) : Prop where
  allocate : ∀ size, ExcusedService excuses (memory.allocate size)
  read : ∀ address offset width, ExcusedService excuses (memory.read address offset width)
  write : ∀ address offset width value,
    ExcusedService excuses (memory.write address offset width value)
  free : ∀ address, ExcusedService excuses (memory.free address)

/-- An arena only has faults about memory and about types. -/
theorem interface_excused (arena : σ → Arena) (replace : σ → Arena → σ) :
    Excused excuses (interface arena replace) := by
  constructor
  · intro size state fault after hfails
    unfold interface at hfails
    simp only at hfails
    split at hfails
    next => cases hfails
    next =>
      cases hfails
      exact hoperational _ rfl
  · intro address offset width
    change ExcusedService excuses (service arena replace fun state =>
      (state.read address offset width).map fun value => (Value.scalar value, state))
    exact excused_service hoperational fun state cause h => operational_read (Exec.error_of_map h)
  · intro address offset width value
    change ExcusedService excuses (service arena replace fun state =>
      (state.write address offset width value).map fun changed => ((), changed))
    exact excused_service hoperational fun state cause h => operational_write (Exec.error_of_map h)
  · intro address
    change ExcusedService excuses (service arena replace fun state =>
      ((state.free address).mapError .memory).map fun changed => ((), changed))
    exact excused_service hoperational fun state cause h => operational_memory (Exec.error_of_map h)

end Arena

/-- A script ends without a fault, unless a handler had one. -/
theorem HeadlessGraphics.replay_excused {excuses : FaultKind → Prop} (graphics : HeadlessGraphics)
    (events : List ScriptedEvent) : (graphics.replay events).Excused excuses := by
  induction events generalizing graphics with
  | nil =>
      intro fault hfault
      cases hfault
  | cons event rest ih =>
      intro outcome houtcome
      cases outcome with
      | ok drawn => exact ih _
      | error fault => exact fun other heq => houtcome other (congrArg _ (Except.error.inj heq))

/-- What a rehearsal provides only has faults about memory, about types and of the host. -/
theorem Rehearsal.capabilities_excused {excuses : FaultKind → Prop}
    (hoperational : ∀ kind, kind.isOperational = true → excuses kind) (hhost : excuses .hostError)
    (hasForeign hasMemory : Bool) :
    (Rehearsal.capabilities hasForeign hasMemory).Excused excuses := by
  have hmemory (memory : MemoryInterface Rehearsal)
      (h : (Rehearsal.capabilities hasForeign hasMemory).memory = some memory) :
      Arena.Excused excuses memory := by
    cases hasMemory <;> cases h
    exact Arena.interface_excused hoperational Rehearsal.arena
      fun rehearsal arena => { rehearsal with arena }
  refine ⟨?_, ?_, fun memory h => (hmemory memory h).allocate,
    fun memory h => (hmemory memory h).read, fun memory h => (hmemory memory h).write,
    fun memory h => (hmemory memory h).free, ?_, ?_, ?_⟩
  · intro text state fault after h
    change Rehearsal.print text state = _ at h
    unfold Rehearsal.print at h
    split at h <;> cases h
    exact hhost
  · intro foreign hforeign call state fault after h
    cases hasForeign <;> cases hforeign
    obtain ⟨rehearsal, heap⟩ := state
    unfold Rehearsal.foreign at h
    simp only at h
    split at h
    next =>
      cases h
      exact hoperational _ rfl
    next => split at h <;> cases h; exact hhost
  · exact fun width height title state fault after h => nomatch h
  · exact fun rect state fault after h => nomatch h
  · exact fun backend => HeadlessGraphics.replay_excused backend backend.script

/-- Whatever a rehearsal provides, it blames no code. -/
theorem Rehearsal.capabilities_spare (hasForeign hasMemory : Bool) :
    (Rehearsal.capabilities hasForeign hasMemory).Spare :=
  Capabilities.spare_iff.2 (capabilities_excused
    (fun _ h => FaultKind.spares_of_operational h) rfl hasForeign hasMemory)

set_option maxRecDepth 100000 in
theorem countdown_blameless : ∃ (setup : Setup Rehearsal HeadlessGraphics) (machine : _),
    setup.program.contains "M.main" = true ∧
      (∀ found fault, Reached setup machine found → FailsAt setup found fault →
        fault.kind.isStructural = false) ∧
      ∀ fault ∈ machine.faults setup 40 [.run "M.main" [], .fire "tick" [.int 1]],
        fault.kind.isStructural = false := by
  obtain ⟨compilation, -, hcompile, -, hmain⟩ := exists_of_compilesTo countdown
    (fun _ _ compilation => (compilation.functions.get? "M.main").any (·.paramCount = 0)) rfl
    (by decide +kernel)
  obtain ⟨compiled, hcompiled, hcount⟩ := (Option.any_eq_true _ _).1 hmain
  -- The setup stays abstract: nothing below may run the program.
  obtain ⟨setup, hprogram, hspare⟩ : ∃ setup : Setup Rehearsal HeadlessGraphics,
      setup.program = (compilation.functions.link {}).1 ∧ setup.capabilities.Spare :=
    ⟨{ program := (compilation.functions.link {}).1
       capabilities := Rehearsal.capabilities true true },
      rfl, Rehearsal.capabilities_spare true true⟩
  have hget : setup.program.get? "M.main" = some (compiled.link {}).1 := by
    rw [hprogram, link_get? hcompile, hcompiled]
    rfl
  have hfits : ∀ request ∈ [Request.run "M.main" [], .fire "tick" [.int 1]],
      request.Fits setup.program := by
    intro request hmem
    rw [List.mem_cons, List.mem_singleton] at hmem
    rcases hmem with rfl | rfl
    · intro function hfunction
      cases hget.symm.trans hfunction
      exact (of_decide_eq_true hcount).symm
    · trivial
  obtain ⟨hsteps, hrequests⟩ :=
    compiled_code_blameless hcompile hprogram hspare (Machine.rehearsing {})
  refine ⟨setup, .rehearsing {}, ?_, hsteps, hrequests 40 _ hfits⟩
  rw [FunctionTable.contains_eq, hget]
  rfl

end DocScript
