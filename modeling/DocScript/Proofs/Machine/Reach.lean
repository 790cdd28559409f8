import DocScript.Proofs.Machine.Regime
import DocScript.Proofs.Machine.Restoration

/-! # What runs uphold

A run of handlers is made of runs of its handlers, and the loop of a backend of runs of handlers. So
what the run of each handler upholds or keeps is upheld or kept by all of them, and by a run whose
steps uphold it.
-/

namespace DocScript

open Machine

/-! ### What runs of handlers uphold -/

namespace Outcome

/-- The condition holds of the machine that is left, and if there was a fault then it is excused. -/
def Upheld (regime : Regime σ γ) : Outcome σ γ α → Prop
  | .done _ after => regime.holds after
  | .faulted fault after => regime.holds after ∧ regime.excuses fault.kind
  | .outOfFuel => True

theorem Upheld.leaves {regime : Regime σ γ} {outcome : Outcome σ γ α} (h : outcome.Upheld regime) :
    outcome.Leaves regime.holds := by
  cases outcome with
  | done => exact h
  | faulted => exact h.1
  | outOfFuel => trivial

/-- The loop of a backend may also end with a fault of its own. -/
def LoopUpheld (regime : Regime σ γ) : Outcome σ γ (Except Fault Unit × γ) → Prop
  | .done (result, _) after => regime.holds after ∧
      ∀ fault, result = .error fault → regime.excuses fault.kind
  | .faulted fault after => regime.holds after ∧ regime.excuses fault.kind
  | .outOfFuel => True

variable {regime : Regime σ γ} {before : Machine σ γ}

theorem passes_iff_upheld {outcome : Outcome σ γ α} :
    outcome.Passes regime.custody before ↔ outcome.Upheld regime := by
  cases outcome with
  | done => exact Regime.custody_passes
  | faulted => exact and_congr_left' Regime.custody_passes
  | outOfFuel => exact Iff.rfl

theorem loopPasses_iff_upheld {outcome : Outcome σ γ (Except Fault Unit × γ)} :
    outcome.LoopPasses regime.custody before ↔ outcome.LoopUpheld regime := by
  cases outcome with
  | done => exact and_congr_left' Regime.custody_passes
  | faulted => exact and_congr_left' Regime.custody_passes
  | outOfFuel => exact Iff.rfl

end Outcome

namespace Regime

/-- The condition sees neither results nor graphics, too many frames are excused, and so are
handlers that are not in the program, unless there can be none. -/
structure Steady (regime : Regime σ γ) (setup : Setup σ γ) : Prop where
  result : ∀ machine value, regime.holds machine → regime.holds { machine with result := value }
  graphics : ∀ machine slot, regime.holds machine → regime.holds { machine with graphics := slot }
  deep : regime.excuses .stackOverflow
  missing : ∀ machine event, regime.holds machine → ∀ handler ∈ machine.handlers event,
    setup.program.get? handler = none → regime.excuses .unknownFunction

/-- The regime, apart from what lies on the stack above a height. -/
def above (regime : Regime σ γ) (height : Nat) : Regime σ γ where
  holds machine := regime.holds (machine.truncateStack height)
  excuses := regime.excuses

theorem holds_takePending {regime : Regime σ γ} {setup : Setup σ γ} (hsteady : regime.Steady setup)
    {machine : Machine σ γ} (h : regime.holds machine) : regime.holds machine.takePending.2 := by
  unfold takePending
  split
  · exact hsteady.graphics machine _ h
  · exact h

theorem Steady.custody {regime : Regime σ γ} {setup : Setup σ γ} (hsteady : regime.Steady setup) :
    regime.custody.Steady setup where
  scalar _ _ := trivial
  returned _ _ := trivial
  result machine value h _ := custody_passes.2 (hsteady.result machine value h)
  pending _ h := custody_passes.2 (holds_takePending hsteady h)
  deep := hsteady.deep
  missing := hsteady.missing

end Regime

section Handlers

variable {setup : Setup σ γ} {fuel : Nat} {regime : Regime σ γ} {good : Machine σ γ → Prop}

/-- A run of a handler upholds the regime, apart from what it leaves on the stack, if all states on
its way are good. -/
def HandlersUphold (setup : Setup σ γ) (fuel : Nat) (regime : Regime σ γ)
    (good : Machine σ γ → Prop) : Prop :=
  ∀ (handler : String) (function : CompiledFunction Value) arguments machine entered,
    setup.program.get? handler = some function →
    Exec.enter setup function arguments machine = .ok () entered → regime.holds machine →
    (∀ found, Visits setup machine.frames.length (entered.based machine.frames.length) found →
      good found) →
    (runFrames (drain setup fuel) machine.frames.length entered).Upheld
      (regime.above machine.stack.length)

theorem Outcome.cut_passes_iff_upheld {outcome : Outcome σ γ α} {before : Machine σ γ}
    {height : Nat} :
    (outcome.changed fun after => after.truncateStack height).Passes regime.custody before ↔
      outcome.Upheld (regime.above height) := by
  cases outcome with
  | done => exact Regime.custody_passes
  | faulted => exact and_congr_left' Regime.custody_passes
  | outOfFuel => exact Iff.rfl

theorem handlersPass_iff_uphold :
    Custody.HandlersPass setup fuel regime.custody good ↔
      HandlersUphold setup fuel regime good := by
  constructor
  · intro h handler function arguments machine entered hfunction henter hholds hgood
    exact Outcome.cut_passes_iff_upheld.1 (h handler function arguments machine entered hfunction
      henter hholds (fun _ _ => trivial) hgood)
  · intro h handler function arguments machine entered hfunction henter hholds _ hgood
    exact Outcome.cut_passes_iff_upheld.2 (h handler function arguments machine entered hfunction
      henter hholds hgood)

variable (hhandlers : HandlersUphold setup fuel regime good) (hsteady : regime.Steady setup)

include hhandlers hsteady

theorem fireWith_upholds (event : String) (arguments : List Value) (machine : Machine σ γ)
    (hholds : regime.holds machine)
    (hgood : ∀ found, HandlerVisits setup event arguments (machine.handlers event)
      { machine with result := .null } found → good found) :
    (fireWith setup (drain setup fuel) event arguments machine).Upheld regime :=
  Outcome.passes_iff_upheld.1 (Custody.fireWith_passes (handlersPass_iff_uphold.2 hhandlers)
    hsteady.custody event arguments machine hholds (fun _ _ => trivial) hgood)

theorem dispatchWith_upholds (event : String) (arguments : List Value) (machine : Machine σ γ)
    (hholds : regime.holds machine)
    (hgood : ∀ found, HandlerVisits setup event arguments (machine.handlers event)
      { machine with result := .null } found → good found) :
    (dispatchWith setup (drain setup fuel) event arguments machine).Upheld regime :=
  Outcome.passes_iff_upheld.1 (Custody.dispatchWith_passes (handlersPass_iff_uphold.2 hhandlers)
    hsteady.custody event arguments machine hholds (fun _ _ => trivial) hgood)

/-- The loop of a backend upholds the regime if its own faults are excused. -/
theorem followLoop_upholds {course : EventLoop γ} (hcourse : course.Excused regime.excuses)
    (machine : Machine σ γ) (hholds : regime.holds machine)
    (hgood : ∀ found, LoopVisits setup course machine found → good found) :
    (followLoop setup (drain setup fuel) course machine).LoopUpheld regime :=
  Outcome.loopPasses_iff_upheld.1 (Custody.followLoop_passes (handlersPass_iff_uphold.2 hhandlers)
    hsteady.custody hcourse machine hholds (fun _ _ _ _ _ _ _ => trivial) hgood)

end Handlers

/-! ### What runs of handlers keep -/

/-- A view of machines that shows neither the result nor the graphics. -/
structure Neutral (view : Machine σ γ → ν) : Prop where
  result : ∀ machine value, view { machine with result := value } = view machine
  graphics : ∀ machine slot, view { machine with graphics := slot } = view machine

section Views

variable {setup : Setup σ γ} {fuel : Nat} {view : Machine σ γ → ν}
  {good : Machine σ γ → Prop}

/-- A run of a handler leaves the machine as it was, as far as the view shows, if all states on
its way are good. -/
def HandlersKeep (setup : Setup σ γ) (fuel : Nat) (view : Machine σ γ → ν)
    (good : Machine σ γ → Prop) : Prop :=
  ∀ (handler : String) (function : CompiledFunction Value) arguments machine entered,
    setup.program.get? handler = some function →
    Exec.enter setup function arguments machine = .ok () entered →
    (∀ found, Visits setup machine.frames.length (entered.based machine.frames.length) found →
      good found) →
    (runFrames (drain setup fuel) machine.frames.length entered).Leaves fun after =>
      view (after.truncateStack machine.stack.length) = view machine

/-- The view is to show the same as of the machine, and all faults are excused. -/
def Machine.viewed (machine : Machine σ γ) (view : Machine σ γ → ν) : Regime σ γ where
  holds after := view after = view machine
  excuses _ := True

theorem Machine.viewed_steady (hneutral : Neutral view) (machine : Machine σ γ) :
    (machine.viewed view).Steady setup where
  result after value h := (hneutral.result after value).trans h
  graphics after slot h := (hneutral.graphics after slot).trans h
  deep := trivial
  missing _ _ _ _ _ _ := trivial

variable (hkeep : HandlersKeep setup fuel view good)

include hkeep

theorem HandlersKeep.upholds (machine : Machine σ γ) :
    HandlersUphold setup fuel (machine.viewed view) good := by
  intro handler function arguments calling entered hfunction henter hholds hgood
  have hrun := hkeep handler function arguments calling entered hfunction henter hgood
  cases hresult : runFrames (drain setup fuel) calling.frames.length entered with
  | outOfFuel => trivial
  | done value after =>
      rw [hresult] at hrun
      exact Eq.trans hrun hholds
  | faulted fault after =>
      rw [hresult] at hrun
      exact ⟨Eq.trans hrun hholds, trivial⟩

variable (hneutral : Neutral view)

include hneutral

theorem fireWith_keeps (event : String) (arguments : List Value) (machine : Machine σ γ)
    (hgood : ∀ found, HandlerVisits setup event arguments (machine.handlers event)
      { machine with result := .null } found → good found) :
    (fireWith setup (drain setup fuel) event arguments machine).Leaves fun after =>
      view after = view machine :=
  (fireWith_upholds (hkeep.upholds machine) (machine.viewed_steady hneutral) event arguments machine
    rfl hgood).leaves

theorem dispatchWith_keeps (event : String) (arguments : List Value) (machine : Machine σ γ)
    (hgood : ∀ found, HandlerVisits setup event arguments (machine.handlers event)
      { machine with result := .null } found → good found) :
    (dispatchWith setup (drain setup fuel) event arguments machine).Leaves fun after =>
      view after = view machine :=
  (dispatchWith_upholds (hkeep.upholds machine) (machine.viewed_steady hneutral) event arguments
    machine rfl hgood).leaves

/-- The loop of a backend leaves the machine as it was, as far as the view shows. -/
theorem followLoop_keeps (course : EventLoop γ) (machine : Machine σ γ)
    (hgood : ∀ found, LoopVisits setup course machine found → good found) :
    (followLoop setup (drain setup fuel) course machine).Leaves fun after =>
      view after = view machine := by
  have hrun := followLoop_upholds (hkeep.upholds machine) (machine.viewed_steady hneutral)
    (course.excused_of_all fun _ => trivial) machine rfl hgood
  cases hresult : followLoop setup (drain setup fuel) course machine with
  | outOfFuel => trivial
  | done value after =>
      rw [hresult] at hrun
      exact hrun.1
  | faulted fault after =>
      rw [hresult] at hrun
      exact hrun.1

end Views

/-! ### Views of frames -/

/-- What holds of the frames of a run, as far as they are looked at, and of the stack: it holds
where a function begins, and each step takes it to the next state. -/
structure RunInvariant (setup : Setup σ γ) (look : Frame → π)
    (holds : List Value → List π → Prop) : Prop where
  begins : ∀ {name : String} {function : CompiledFunction Value} {arguments : List Value},
    setup.program.get? name = some function → arguments.length = function.paramCount →
    ∀ stack, holds stack [look (.enter function arguments)]
  proceeds : ∀ {machine after : Machine σ γ} {inner outer : List π},
    machine.hasFramesAbove outer.length = true → machine.frames.map look = inner ++ outer →
    holds machine.stack inner → Exec.step setup machine = .ok .proceed after →
    ∃ moved, after.frames.map look = moved ++ outer ∧ holds after.stack moved
  loops : ∀ {machine middle after : Machine σ γ} {inner outer : List π} {site : Site}
    {course : EventLoop γ} {fuel : Nat} {backend : γ},
    machine.hasFramesAbove outer.length = true → machine.frames.map look = inner ++ outer →
    holds machine.stack inner → Exec.step setup machine = .ok (.enterLoop site course) middle →
    followLoop setup (drain setup fuel) course middle = .done (.ok (), backend) after →
    ∃ moved, after.frames.map look = moved ++ outer ∧ holds after.stack moved

/-- It holds of the innermost frame together with others around it. -/
def Machine.Obeys (look : Frame → π) (holds : List Value → List π → Prop)
    (machine : Machine σ γ) : Prop :=
  ∃ frame rest others, machine.frames = frame :: rest ∧ holds machine.stack (look frame :: others)

section Invariants

variable {setup : Setup σ γ} {look : Frame → π} {holds : List Value → List π → Prop}

mutual

/-- What holds where a run begins holds in every state that it visits. -/
theorem Visits.obeys {base : Nat} {machine found : Machine σ γ}
    (hinvariant : RunInvariant setup look holds) (h : Visits setup base machine found)
    (inner outer : List π)
    (hlooks : machine.frames.map look = inner ++ outer) (hbase : outer.length = base)
    (hholds : holds machine.stack inner) : found.Obeys look holds := by
  match h with
  | .here hgoes =>
      rw [← hbase] at hgoes
      obtain ⟨frame, rest, others, hframes, rfl, -⟩ := frames_of_goes hgoes hlooks
      exact ⟨frame, rest, others, hframes, hholds⟩
  | .next hgoes hstep hafter =>
      rw [← hbase] at hgoes
      obtain ⟨moved, hmoved, hnext⟩ := hinvariant.proceeds hgoes hlooks hholds hstep
      exact Visits.obeys hinvariant hafter moved outer hmoved hbase hnext
  | .inside hgoes hstep hloop => exact LoopVisits.obeys hinvariant hloop
  | .behind hgoes hstep hloop hafter =>
      rw [← hbase] at hgoes
      obtain ⟨moved, hmoved, hnext⟩ := hinvariant.loops hgoes hlooks hholds hstep hloop
      exact Visits.obeys hinvariant hafter moved outer hmoved hbase hnext

theorem LoopVisits.obeys {course : EventLoop γ} {machine found : Machine σ γ}
    (hinvariant : RunInvariant setup look holds)
    (h : LoopVisits setup course machine found) : found.Obeys look holds := by
  match h with
  | .handlers hhandlers => exact HandlerVisits.obeys hinvariant hhandlers
  | .resumed _ hrest => exact LoopVisits.obeys hinvariant hrest
  | .failed _ hrest => exact LoopVisits.obeys hinvariant hrest

theorem HandlerVisits.obeys {event : String} {arguments : List Value} {handlers : List String}
    {machine found : Machine σ γ} (hinvariant : RunInvariant setup look holds)
    (h : HandlerVisits setup event arguments handlers machine found) : found.Obeys look holds := by
  match h with
  | .first hfunction henter _ hrun =>
      refine Visits.obeys hinvariant hrun _ (machine.frames.map look) ?_ (List.length_map _)
        (hinvariant.begins hfunction (Exec.length_of_enter henter) _)
      rw [Exec.enter_ok henter]
      rfl
  | .later _ _ _ _ hrest => exact HandlerVisits.obeys hinvariant hrest

end

/-- An invariant holds in every state that is reached. -/
theorem Reached.obeys {machine found : Machine σ γ} (hinvariant : RunInvariant setup look holds)
    (h : Reached setup machine found) : found.Obeys look holds := by
  cases h with
  | run hfunction henter hvisits =>
      refine hvisits.obeys hinvariant _ (machine.frames.map look) ?_ (List.length_map _)
        (hinvariant.begins hfunction (Exec.length_of_enter henter) _)
      rw [Exec.enter_ok henter]
      rfl
  | fire hvisits => exact hvisits.obeys hinvariant

end Invariants

/-! ### Frames around a run -/

/-- Where the frames stand, and which of them belong to outer runs. -/
def Machine.layout (machine : Machine σ γ) : List (CompiledFunction Value × Nat) × Nat :=
  (machine.places, machine.base)

variable {setup : Setup σ γ}

theorem Machine.Restores.layout {machine after : Machine σ γ} (h : machine.Restores after) :
    after.layout = machine.layout :=
  Prod.ext (congrArg (List.map Frame.place) h.frames) h.base

theorem layout_of_followLoop {fuel : Nat} {course : EventLoop γ} {machine after : Machine σ γ}
    {ending : Except Fault Unit × γ}
    (h : followLoop setup (drain setup fuel) course machine = .done ending after) :
    after.layout = machine.layout := by
  have hrestores := followLoop_restores (drainsBounded setup fuel) course machine
  rw [h] at hrestores
  exact hrestores.layout

theorem places_of_followLoop {fuel : Nat} {course : EventLoop γ} {machine after : Machine σ γ}
    {ending : Except Fault Unit × γ}
    (h : followLoop setup (drain setup fuel) course machine = .done ending after) :
    after.places = machine.places :=
  (Prod.mk.inj (layout_of_followLoop h)).1

theorem dispatchWith_layout (setup : Setup σ γ) (fuel : Nat) (event : String)
    (arguments : List Value) (machine : Machine σ γ) :
    (dispatchWith setup (drain setup fuel) event arguments machine).Leaves fun after =>
      after.layout = machine.layout :=
  (dispatchWith_restores (drainsBounded setup fuel) event arguments machine).imp
    fun _ h => h.layout

/-- A run of a function leaves the frames around it where they stand. -/
theorem runFrames_layout (setup : Setup σ γ) (fuel : Nat) {function : CompiledFunction Value}
    {arguments : List Value} {machine entered : Machine σ γ}
    (henter : Exec.enter setup function arguments machine = .ok () entered) :
    (runFrames (drain setup fuel) machine.frames.length entered).Leaves fun after =>
      after.layout = machine.layout :=
  (runFrames_restores (drainsBounded setup fuel) henter).imp fun _ h => h.layout

theorem layout_of_handler {fuel : Nat} {function : CompiledFunction Value}
    {arguments : List Value} {machine entered after : Machine σ γ}
    (henter : Exec.enter setup function arguments machine = .ok () entered)
    (hrun : runFrames (drain setup fuel) machine.frames.length entered = .done () after) :
    (after.truncateStack machine.stack.length).layout = machine.layout := by
  have hkept := runFrames_layout setup fuel henter
  rw [hrun] at hkept
  exact hkept

/-! ### What runs uphold -/

/-- Each step from a good state upholds the regime, and the backend does. The condition looks
neither at the frames nor at the stack. -/
structure Regime.Stepwise (regime : Regime σ γ) (setup : Setup σ γ) (good : Machine σ γ → Prop) :
    Prop extends regime.Steady setup where
  step : ∀ machine, regime.holds machine → good machine → regime.Upheld (Exec.step setup machine)
  course : ∀ {machine site course after},
    Exec.step setup machine = .ok (.enterLoop site course) after → course.Excused regime.excuses
  frames : ∀ machine frames base, regime.holds machine → regime.holds { machine with frames, base }
  stack : ∀ machine stack, regime.holds machine → regime.holds { machine with stack }

section Stepwise

variable {regime : Regime σ γ} {good : Machine σ γ → Prop}

theorem Regime.Stepwise.custody (hstepwise : regime.Stepwise setup good) :
    regime.custody.Stepwise setup good where
  toSteady := hstepwise.toSteady.custody
  step machine h hgood := by
    have hstep := hstepwise.step machine h hgood
    cases hresult : Exec.step setup machine with
    | ok signal after =>
        rw [hresult] at hstep
        exact ⟨custody_passes.2 hstep, .nil _ after⟩
    | error fault after =>
        rw [hresult] at hstep
        exact ⟨custody_passes.2 hstep.1, hstep.2⟩
  course := hstepwise.course
  dispatched _ _ _ _ _ _ := trivial
  begin _ henter h _ :=
    Exec.enter_ok henter ▸ custody_passes.2 (hstepwise.frames _ _ _ h)
  base machine base h := custody_passes.2 (hstepwise.frames machine machine.frames base h)
  frames machine _ h := custody_passes.2 (hstepwise.frames machine _ machine.base h)
  stack machine _ h := custody_passes.2 (hstepwise.stack machine _ h)
  graphics machine _ h := custody_passes.2 (hstepwise.graphics machine _ h)

variable (hstepwise : regime.Stepwise setup good)

include hstepwise

theorem handlersUphold_of_stepwise (fuel : Nat) : HandlersUphold setup fuel regime good :=
  handlersPass_iff_uphold.1 (Custody.handlersPass_of_stepwise hstepwise.custody fuel)

end Stepwise

end DocScript
