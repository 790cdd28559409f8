import DocScript.Proofs.Machine.Custody
import DocScript.Proofs.Machine.Rounds
import DocScript.Proofs.Machine.Visits

/-! # Runs within runs

A run of handlers is made of runs of its handlers, and the loop of a backend of runs of handlers. So
a custody that the run of each handler upholds is upheld by all of them, and one that the steps of
runs uphold is upheld by the runs. It then holds in all states that are visited on the way.
-/

namespace DocScript

open Machine

/-! ### Outcomes -/

namespace Outcome

/-- What holds of the machine that an outcome leaves behind, if there is one. -/
def Leaves (claim : Machine σ γ → Prop) : Outcome σ γ α → Prop
  | .done _ after | .faulted _ after => claim after
  | .outOfFuel => True

theorem Leaves.imp {claim weaker : Machine σ γ → Prop} {outcome : Outcome σ γ α}
    (h : outcome.Leaves claim) (himp : ∀ machine, claim machine → weaker machine) :
    outcome.Leaves weaker := by
  cases outcome with
  | done value after => exact himp after h
  | faulted fault after => exact himp after h
  | outOfFuel => trivial

theorem Leaves.and {claim other : Machine σ γ → Prop} {outcome : Outcome σ γ α}
    (h : outcome.Leaves claim) (hother : outcome.Leaves other) :
    outcome.Leaves fun machine => claim machine ∧ other machine := by
  cases outcome with
  | done value after => exact ⟨h, hother⟩
  | faulted fault after => exact ⟨h, hother⟩
  | outOfFuel => trivial

/-- The outcome with a change to the machine that it leaves behind. -/
def changed (change : Machine σ γ → Machine σ γ) : Outcome σ γ α → Outcome σ γ α
  | .done value after => .done value (change after)
  | .faulted fault after => .faulted fault (change after)
  | .outOfFuel => .outOfFuel

/-- The custody passes to the machine that is left, and if there was a fault then it is excused. -/
def Passes (custody : Custody σ γ) (before : Machine σ γ) : Outcome σ γ α → Prop
  | .done _ after => custody.Passes before after
  | .faulted fault after => custody.Passes before after ∧ custody.excuses fault.kind
  | .outOfFuel => True

/-- The loop of a backend may also end with a fault of its own. -/
def LoopPasses (custody : Custody σ γ) (before : Machine σ γ) :
    Outcome σ γ (Except Fault Unit × γ) → Prop
  | .done (result, _) after => custody.Passes before after ∧
      ∀ fault, result = .error fault → custody.excuses fault.kind
  | .faulted fault after => custody.Passes before after ∧ custody.excuses fault.kind
  | .outOfFuel => True

variable {custody : Custody σ γ} {before middle : Machine σ γ}

theorem Passes.leaves {outcome : Outcome σ γ α} (h : outcome.Passes custody before) :
    outcome.Leaves (custody.Passes before) := by
  cases outcome with
  | done => exact h
  | faulted => exact h.1
  | outOfFuel => trivial

theorem Passes.after {outcome : Outcome σ γ α} (hpasses : custody.Passes before middle)
    (h : outcome.Passes custody middle) : outcome.Passes custody before := by
  cases outcome with
  | done value after => exact hpasses.trans h
  | faulted fault after => exact ⟨hpasses.trans h.1, h.2⟩
  | outOfFuel => trivial

theorem LoopPasses.after {outcome : Outcome σ γ (Except Fault Unit × γ)}
    (hpasses : custody.Passes before middle) (h : outcome.LoopPasses custody middle) :
    outcome.LoopPasses custody before := by
  cases outcome with
  | done value after => exact ⟨hpasses.trans h.1, h.2⟩
  | faulted fault after => exact ⟨hpasses.trans h.1, h.2⟩
  | outOfFuel => trivial

end Outcome

/-! ### Handlers -/

namespace Custody

/-- Trusted values may be results, nothing depends on what waits to be drawn, too many frames are
excused, and so are handlers that are not in the program, unless there can be none. -/
structure Steady (custody : Custody σ γ) (setup : Setup σ γ) : Prop where
  scalar : ∀ machine value, custody.trusts machine (.scalar value)
  returned : ∀ machine, custody.holds machine → custody.trusts machine machine.result
  result : ∀ machine value, custody.holds machine → custody.trusts machine value →
    custody.Passes machine { machine with result := value }
  pending : ∀ machine, custody.holds machine → custody.Passes machine machine.takePending.2
  deep : custody.excuses .stackOverflow
  missing : ∀ machine event, custody.holds machine → ∀ handler ∈ machine.handlers event,
    setup.program.get? handler = none → custody.excuses .unknownFunction

section Handlers

variable {setup : Setup σ γ} {fuel : Nat} {custody : Custody σ γ} {good : Machine σ γ → Prop}

/-- The custody passes through a run of a handler on trusted arguments, apart from what it leaves on
the stack, if all states on its way are good. -/
def HandlersPass (setup : Setup σ γ) (fuel : Nat) (custody : Custody σ γ)
    (good : Machine σ γ → Prop) : Prop :=
  ∀ (handler : String) (function : CompiledFunction Value) arguments machine entered,
    setup.program.get? handler = some function →
    Exec.enter setup function arguments machine = .ok () entered → custody.holds machine →
    custody.TrustsAll machine arguments →
    (∀ found, Visits setup machine.frames.length (entered.based machine.frames.length) found →
      good found) →
    ((runFrames (drain setup fuel) machine.frames.length entered).changed
      fun after => after.truncateStack machine.stack.length).Passes custody machine

variable (hhandlers : HandlersPass setup fuel custody good) (hsteady : custody.Steady setup)

/-- What a handler is passed: as many arguments as it has parameters. -/
theorem TrustsAll.passed (hsteady : custody.Steady setup) {machine : Machine σ γ}
    {arguments : List Value} (h : custody.TrustsAll machine arguments) (count : Nat) :
    custody.TrustsAll machine
      (arguments.take count ++ List.replicate (count - arguments.length) Value.null) := by
  refine .append (h.mono (List.take_subset _ _)) fun value hmem => ?_
  rw [List.eq_of_mem_replicate hmem]
  exact hsteady.scalar machine .null

include hhandlers hsteady

theorem runHandlers_passes (event : String) (arguments : List Value) (handlers : List String)
    (hmissing : ∀ handler ∈ handlers, setup.program.get? handler = none →
      custody.excuses .unknownFunction)
    (machine : Machine σ γ) (hholds : custody.holds machine)
    (harguments : custody.TrustsAll machine arguments)
    (hgood : ∀ found, HandlerVisits setup event arguments handlers machine found → good found) :
    (runHandlers setup (drain setup fuel) event arguments handlers machine).Passes custody
      machine := by
  induction handlers generalizing machine with
  | nil => exact .refl hholds
  | cons handler rest ih =>
      have hfirst {function : CompiledFunction Value} {passed : List Value} {entered : Machine σ γ}
          (hfunction : setup.program.get? handler = some function)
          (hpassed : passed = arguments.take function.paramCount ++
            List.replicate (function.paramCount - arguments.length) Value.null)
          (henter : Exec.enter setup function passed machine = .ok () entered) :=
        hhandlers handler function passed machine entered hfunction henter hholds
          (hpassed ▸ harguments.passed hsteady function.paramCount)
          fun found h => hgood found (.first hfunction henter hpassed h)
      have hends := handlers_end setup (drain setup fuel) event arguments handler rest machine
      generalize runHandlers setup (drain setup fuel) event arguments (handler :: rest) machine =
        outcome at hends ⊢
      cases hends with
      | missing hfunction =>
          exact ⟨.refl hholds, hmissing handler List.mem_cons_self hfunction⟩
      | refused _ _ _ hkind => exact ⟨.refl hholds, hkind ▸ hsteady.deep⟩
      | starved => trivial
      | failed hfunction hpassed henter hrun =>
          have hpasses := hfirst hfunction hpassed henter
          rw [hrun] at hpasses
          exact hpasses
      | @passed _ _ _ after _ hfunction hpassed henter hrun hrest =>
          have hpasses := hfirst hfunction hpassed henter
          rw [hrun] at hpasses
          have hpasses : custody.Passes machine (after.truncateStack machine.stack.length) :=
            hpasses
          subst hrest
          -- The other handlers begin on the stack that has been cut back.
          exact .after hpasses (ih
            (fun other hother => hmissing other (List.mem_cons_of_mem _ hother)) _ hpasses.holds
            (hpasses.all harguments)
            fun found h => hgood found (.later hfunction henter hpassed hrun h))

theorem fireWith_passes (event : String) (arguments : List Value) (machine : Machine σ γ)
    (hholds : custody.holds machine) (harguments : custody.TrustsAll machine arguments)
    (hgood : ∀ found, HandlerVisits setup event arguments (machine.handlers event)
      { machine with result := .null } found → good found) :
    (fireWith setup (drain setup fuel) event arguments machine).Passes custody machine := by
  have hbegins := hsteady.result machine .null hholds (hsteady.scalar machine .null)
  have hrun := runHandlers_passes hhandlers hsteady event arguments (machine.handlers event)
    (hsteady.missing machine event hholds) _ hbegins.holds (hbegins.all harguments) hgood
  have hends {after : Machine σ γ} (h : custody.Passes { machine with result := .null } after) :
      custody.Passes machine { after with result := machine.result } := by
    have hpasses := hbegins.trans h
    exact hpasses.trans (hsteady.result after _ hpasses.holds
      (hpasses.trusts _ (hsteady.returned machine hholds)))
  unfold fireWith
  cases hresult : runHandlers setup (drain setup fuel) event arguments (machine.handlers event)
    { machine with result := .null } with
  | outOfFuel => trivial
  | faulted fault after =>
      rw [hresult] at hrun
      exact ⟨hends hrun.1, hrun.2⟩
  | done value after =>
      rw [hresult] at hrun
      exact hends hrun

theorem dispatchWith_passes (event : String) (arguments : List Value) (machine : Machine σ γ)
    (hholds : custody.holds machine) (harguments : custody.TrustsAll machine arguments)
    (hgood : ∀ found, HandlerVisits setup event arguments (machine.handlers event)
      { machine with result := .null } found → good found) :
    (dispatchWith setup (drain setup fuel) event arguments machine).Passes custody machine := by
  have hrun := fireWith_passes hhandlers hsteady event arguments machine hholds harguments hgood
  unfold dispatchWith
  cases hresult : fireWith setup (drain setup fuel) event arguments machine with
  | outOfFuel => trivial
  | faulted fault after =>
      rw [hresult] at hrun
      exact hrun
  | done value after =>
      rw [hresult] at hrun
      exact hrun.trans (hsteady.pending after hrun.holds)

/-- The custody passes through the loop of a backend if its own faults are excused and the
arguments of the events that it dispatches are trusted when it does so. -/
theorem followLoop_passes {course : EventLoop γ} (hcourse : course.Excused custody.excuses)
    (machine : Machine σ γ) (hholds : custody.holds machine)
    (harguments : ∀ event arguments state, Dispatches setup course machine event arguments state →
      custody.holds state → custody.TrustsAll state arguments)
    (hgood : ∀ found, LoopVisits setup course machine found → good found) :
    (followLoop setup (drain setup fuel) course machine).LoopPasses custody machine := by
  -- The backend goes on behind a fault as well, with a hypothesis for each way it may be resumed.
  induction course generalizing machine with
  | finish result backend => exact ⟨.refl hholds, hcourse⟩
  | dispatch event arguments resume ih =>
      have hrun := dispatchWith_passes hhandlers hsteady event arguments machine hholds
        (harguments event arguments machine .here hholds) fun found h => hgood found (.handlers h)
      unfold followLoop
      cases hresult : dispatchWith setup (drain setup fuel) event arguments machine with
      | outOfFuel => trivial
      | faulted fault after =>
          rw [hresult] at hrun
          have hresumed : (resume (.error fault)).Excused custody.excuses :=
            hcourse (.error fault) fun other heq => Except.error.inj heq ▸ hrun.2
          exact .after hrun.1 (ih (.error fault) hresumed after hrun.1.holds
            (fun event arguments state h => harguments event arguments state (.failed hresult h))
            fun found h => hgood found (.failed hresult h))
      | done drawn after =>
          rw [hresult] at hrun
          have hresumed : (resume (.ok drawn)).Excused custody.excuses := by
            apply hcourse
            intro fault hfault
            cases hfault
          exact .after hrun (ih (.ok drawn) hresumed after hrun.holds
            (fun event arguments state h => harguments event arguments state (.resumed hresult h))
            fun found h => hgood found (.resumed hresult h))

end Handlers

/-! ### Runs -/

/-- Each step from a good state upholds the custody, and the backend does. Functions may be begun
with trusted arguments, and innermost frames and topmost values may be dropped. -/
structure Stepwise (custody : Custody σ γ) (setup : Setup σ γ) (good : Machine σ γ → Prop) : Prop
    extends custody.Steady setup where
  step : ∀ machine, custody.holds machine → good machine →
    custody.Upheld machine (fun _ => []) (Exec.step setup machine)
  course : ∀ {machine site course after},
    Exec.step setup machine = .ok (.enterLoop site course) after → course.Excused custody.excuses
  dispatched : ∀ {machine site course after event arguments state}, good machine →
    Exec.step setup machine = .ok (.enterLoop site course) after →
    Dispatches setup course after event arguments state → custody.holds state →
    custody.TrustsAll state arguments
  begin : ∀ {name function arguments machine entered}, setup.program.get? name = some function →
    Exec.enter setup function arguments machine = .ok () entered → custody.holds machine →
    custody.TrustsAll machine arguments → custody.Passes machine entered
  base : ∀ machine base, custody.holds machine → custody.Passes machine { machine with base }
  frames : ∀ machine count, custody.holds machine →
    custody.Passes machine (machine.truncateFrames count)
  stack : ∀ machine height, custody.holds machine →
    custody.Passes machine (machine.truncateStack height)
  graphics : ∀ machine backend, custody.holds machine →
    custody.Passes machine { machine with graphics := .ready backend }

section Stepwise

variable {setup : Setup σ γ} {custody : Custody σ γ} {good : Machine σ γ → Prop} {fuel : Nat}
  (hstepwise : custody.Stepwise setup good)

include hstepwise

theorem Stepwise.steps {machine after : Machine σ γ} {signal : Signal γ}
    (hholds : custody.holds machine) (hgood : good machine)
    (hstep : Exec.step setup machine = .ok signal after) : custody.Passes machine after := by
  have hupheld := hstepwise.step machine hholds hgood
  rw [hstep] at hupheld
  exact hupheld.1

/-- The machine in which a run of a function begins. -/
theorem Stepwise.begun {name : String} {function : CompiledFunction Value}
    {arguments : List Value} {machine entered : Machine σ γ}
    (hfunction : setup.program.get? name = some function)
    (henter : Exec.enter setup function arguments machine = .ok () entered)
    (hholds : custody.holds machine) (harguments : custody.TrustsAll machine arguments)
    (base : Nat) : custody.Passes machine (entered.based base) := by
  have hbegun := hstepwise.begin hfunction henter hholds harguments
  exact hbegun.trans (hstepwise.base _ base hbegun.holds)

/-- If the custody passes through all runs with some fuel, then it does through the runs of
functions. -/
theorem runFrames_passes
    (hdrain : ∀ (base : Nat) (machine : Machine σ γ), custody.holds machine →
      (∀ found, Visits setup base machine found → good found) →
      (drain setup fuel base machine).Passes custody machine)
    {name : String} {function : CompiledFunction Value} {arguments : List Value}
    {machine entered : Machine σ γ} (hfunction : setup.program.get? name = some function)
    (henter : Exec.enter setup function arguments machine = .ok () entered)
    (hholds : custody.holds machine) (harguments : custody.TrustsAll machine arguments)
    (hgood : ∀ found, Visits setup machine.frames.length (entered.based machine.frames.length)
      found → good found) :
    (runFrames (drain setup fuel) machine.frames.length entered).Passes custody machine := by
  have hbegun := hstepwise.begun hfunction henter hholds harguments machine.frames.length
  have hrun := (hdrain machine.frames.length _ hbegun.holds hgood).after hbegun
  rw [runFrames_eq]
  cases hresult : drain setup fuel machine.frames.length
    (entered.based machine.frames.length) with
  | outOfFuel => trivial
  | done value after =>
      rw [hresult] at hrun
      exact hrun.trans (hstepwise.base after entered.base hrun.holds)
  | faulted fault after =>
      rw [hresult] at hrun
      have hbased := hrun.1.trans (hstepwise.base after entered.base hrun.1.holds)
      exact ⟨hbased.trans (hstepwise.frames _ machine.frames.length hbased.holds), hrun.2⟩

theorem handlersPass_of_drain
    (hdrain : ∀ (base : Nat) (machine : Machine σ γ), custody.holds machine →
      (∀ found, Visits setup base machine found → good found) →
      (drain setup fuel base machine).Passes custody machine) :
    HandlersPass setup fuel custody good := by
  intro handler function arguments machine entered hfunction henter hholds harguments hgood
  have hrun := runFrames_passes hstepwise hdrain hfunction henter hholds harguments hgood
  have hcut {after : Machine σ γ} (h : custody.Passes machine after) :
      custody.Passes machine (after.truncateStack machine.stack.length) :=
    h.trans (hstepwise.stack after _ h.holds)
  cases hresult : runFrames (drain setup fuel) machine.frames.length entered with
  | outOfFuel => trivial
  | done value after =>
      rw [hresult] at hrun
      exact hcut hrun
  | faulted fault after =>
      rw [hresult] at hrun
      exact ⟨hcut hrun.1, hrun.2⟩

/-- If the custody passes through all runs with some fuel, then it does through a loop that a step
has entered and that has given the backend back. -/
theorem loop_passes
    (hdrain : ∀ (base : Nat) (machine : Machine σ γ), custody.holds machine →
      (∀ found, Visits setup base machine found → good found) →
      (drain setup fuel base machine).Passes custody machine)
    {site : Site} {course : EventLoop γ} {machine middle after : Machine σ γ}
    {result : Except Fault Unit} {backend : γ} (hgood : good machine)
    (hstep : Exec.step setup machine = .ok (.enterLoop site course) middle)
    (hloop : followLoop setup (drain setup fuel) course middle = .done (result, backend) after)
    (hholds : custody.holds middle)
    (hvisits : ∀ found, LoopVisits setup course middle found → good found) :
    custody.Passes middle { after with graphics := .ready backend } ∧
      ∀ fault, result = .error fault → custody.excuses fault.kind := by
  have hpasses := followLoop_passes (handlersPass_of_drain hstepwise hdrain) hstepwise.toSteady
    (hstepwise.course hstep) middle hholds
    (fun event arguments state h => hstepwise.dispatched hgood hstep h) hvisits
  rw [hloop] at hpasses
  exact ⟨hpasses.1.trans (hstepwise.graphics after backend hpasses.1.holds), hpasses.2⟩

/-- The custody passes through a run if all states on its way are good. -/
theorem drain_passes (fuel base : Nat) (machine : Machine σ γ) (hholds : custody.holds machine)
    (hgood : ∀ found, Visits setup base machine found → good found) :
    (drain setup fuel base machine).Passes custody machine := by
  -- The runs inside of a loop have less fuel, so the hypothesis covers them like what comes behind.
  induction fuel generalizing machine base with
  | zero => trivial
  | succ fuel ih =>
      have hround := drain_round setup fuel base machine
      generalize drain setup (fuel + 1) base machine = outcome at hround ⊢
      cases hround with
      | ended => exact .refl hholds
      | failed hgoes hstep =>
          have hupheld := hstepwise.step machine hholds (hgood machine (.here hgoes))
          rw [hstep] at hupheld
          exact hupheld
      | proceeds hgoes hstep hrest =>
          have hafter := hstepwise.steps hholds (hgood machine (.here hgoes)) hstep
          subst hrest
          exact (ih base _ hafter.holds fun found h =>
            hgood found (.next hgoes hstep h)).after hafter
      | endless | starved | hung => trivial
      | @broken _ _ _ _ fault _ hgoes hstep hloop =>
          have hmiddle := hstepwise.steps hholds (hgood machine (.here hgoes)) hstep
          obtain ⟨hlast, hexcused⟩ := loop_passes hstepwise ih (hgood machine (.here hgoes)) hstep
            hloop hmiddle.holds fun found h => hgood found (.inside hgoes hstep h)
          exact ⟨hmiddle.trans hlast, hexcused fault rfl⟩
      | resumed hgoes hstep hloop hrest =>
          have hmiddle := hstepwise.steps hholds (hgood machine (.here hgoes)) hstep
          obtain ⟨hlast, -⟩ := loop_passes hstepwise ih (hgood machine (.here hgoes)) hstep
            hloop hmiddle.holds fun found h => hgood found (.inside hgoes hstep h)
          subst hrest
          exact (ih base _ hlast.holds fun found h =>
            hgood found (.behind hgoes hstep hloop h)).after (hmiddle.trans hlast)

theorem handlersPass_of_stepwise (fuel : Nat) : HandlersPass setup fuel custody good :=
  handlersPass_of_drain hstepwise (drain_passes hstepwise fuel)

/-! ### States on the way -/

theorem passes_of_handler {handler : String} {function : CompiledFunction Value}
    {arguments : List Value} {machine entered after : Machine σ γ}
    (hfunction : setup.program.get? handler = some function)
    (henter : Exec.enter setup function arguments machine = .ok () entered)
    (hrun : runFrames (drain setup fuel) machine.frames.length entered = .done () after)
    (hholds : custody.holds machine) (harguments : custody.TrustsAll machine arguments)
    (hgood : ∀ found, Visits setup machine.frames.length (entered.based machine.frames.length)
      found → good found) :
    custody.Passes machine (after.truncateStack machine.stack.length) := by
  have hpasses := handlersPass_of_stepwise hstepwise fuel handler function arguments machine
    entered hfunction henter hholds harguments hgood
  rw [hrun] at hpasses
  exact hpasses

theorem passes_of_dispatch {event : String} {arguments : List Value} {machine : Machine σ γ}
    {outcome : Outcome σ γ (List Rect)}
    (hdispatch : dispatchWith setup (drain setup fuel) event arguments machine = outcome)
    (hholds : custody.holds machine) (harguments : custody.TrustsAll machine arguments)
    (hgood : ∀ found, HandlerVisits setup event arguments (machine.handlers event)
      { machine with result := .null } found → good found) :
    outcome.Leaves (custody.Passes machine) :=
  hdispatch ▸ (dispatchWith_passes (handlersPass_of_stepwise hstepwise fuel) hstepwise.toSteady
    event arguments machine hholds harguments hgood).leaves

theorem passes_of_loop {site : Site} {course : EventLoop γ} {machine middle after : Machine σ γ}
    {result : Except Fault Unit} {backend : γ} (hgood : good machine)
    (hstep : Exec.step setup machine = .ok (.enterLoop site course) middle)
    (hloop : followLoop setup (drain setup fuel) course middle = .done (result, backend) after)
    (hholds : custody.holds middle)
    (hvisits : ∀ found, LoopVisits setup course middle found → good found) :
    custody.Passes middle { after with graphics := .ready backend } :=
  (loop_passes hstepwise (drain_passes hstepwise fuel) hgood hstep hloop hholds hvisits).1

mutual

/-- The condition holds in every state that a run visits. -/
theorem holds_of_visits {base : Nat} {machine found : Machine σ γ}
    (h : Visits setup base machine found) (hholds : custody.holds machine)
    (hgood : ∀ state, Visits setup base machine state → good state) : custody.holds found := by
  match h with
  | .here hgoes => exact hholds
  | .next hgoes hstep hafter =>
      have hnext := hstepwise.steps hholds (hgood machine (.here hgoes)) hstep
      exact holds_of_visits hafter hnext.holds fun state hstate =>
        hgood state (.next hgoes hstep hstate)
  | .inside hgoes hstep hloop =>
      have hstate := hgood machine (.here hgoes)
      exact holds_of_loopVisits hloop (hstepwise.steps hholds hstate hstep).holds
        (fun event arguments state h => hstepwise.dispatched hstate hstep h)
        fun state hstate => hgood state (.inside hgoes hstep hstate)
  | .behind hgoes hstep hloop hafter =>
      have hstate := hgood machine (.here hgoes)
      have hmiddle := hstepwise.steps hholds hstate hstep
      have hlast := passes_of_loop hstepwise hstate hstep hloop hmiddle.holds
        fun state hstate => hgood state (.inside hgoes hstep hstate)
      exact holds_of_visits hafter hlast.holds fun state hstate =>
        hgood state (.behind hgoes hstep hloop hstate)

theorem holds_of_loopVisits {course : EventLoop γ} {machine found : Machine σ γ}
    (h : LoopVisits setup course machine found) (hholds : custody.holds machine)
    (harguments : ∀ event arguments state, Dispatches setup course machine event arguments state →
      custody.holds state → custody.TrustsAll state arguments)
    (hgood : ∀ state, LoopVisits setup course machine state → good state) :
    custody.holds found := by
  match h with
  | .handlers hhandlers =>
      have hbegins := hstepwise.result machine .null hholds (hstepwise.scalar machine .null)
      exact holds_of_handlerVisits hhandlers hbegins.holds
        (hbegins.all (harguments _ _ machine .here hholds)) fun state hstate =>
          hgood state (.handlers hstate)
  | .resumed hdispatch hrest =>
      have hafter := passes_of_dispatch hstepwise hdispatch hholds
        (harguments _ _ machine .here hholds) fun state hstate => hgood state (.handlers hstate)
      exact holds_of_loopVisits hrest hafter.holds
        (fun event arguments state h => harguments event arguments state (.resumed hdispatch h))
        fun state hstate => hgood state (.resumed hdispatch hstate)
  | .failed hdispatch hrest =>
      have hafter := passes_of_dispatch hstepwise hdispatch hholds
        (harguments _ _ machine .here hholds) fun state hstate => hgood state (.handlers hstate)
      exact holds_of_loopVisits hrest hafter.holds
        (fun event arguments state h => harguments event arguments state (.failed hdispatch h))
        fun state hstate => hgood state (.failed hdispatch hstate)

theorem holds_of_handlerVisits {event : String} {arguments : List Value} {handlers : List String}
    {machine found : Machine σ γ} (h : HandlerVisits setup event arguments handlers machine found)
    (hholds : custody.holds machine) (harguments : custody.TrustsAll machine arguments)
    (hgood : ∀ state, HandlerVisits setup event arguments handlers machine state → good state) :
    custody.holds found := by
  match h with
  | .first hfunction henter hpassed hrun =>
      have htrusted := hpassed ▸ harguments.passed hstepwise.toSteady _
      exact holds_of_visits hrun
        (hstepwise.begun hfunction henter hholds htrusted machine.frames.length).holds
        fun state hstate => hgood state (.first hfunction henter hpassed hstate)
  | .later hfunction henter hpassed hrun hrest =>
      have htrusted := hpassed ▸ harguments.passed hstepwise.toSteady _
      have hafter := passes_of_handler hstepwise hfunction henter hrun hholds htrusted
        fun state hstate => hgood state (.first hfunction henter hpassed hstate)
      exact holds_of_handlerVisits hrest hafter.holds (hafter.all harguments)
        fun state hstate => hgood state (.later hfunction henter hpassed hrun hstate)

end

end Stepwise

end Custody

end DocScript
