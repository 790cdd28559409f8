import DocScript.Proofs.Machine.Replay

/-! # Raising the limit of calls

The limit on the depth of calls is looked at where a function begins, and nowhere else. So a run
that does not end because of it goes the same way under every higher limit, with all that its loops
dispatch, as long as the backend passes on the faults of the handlers.
-/

namespace DocScript

open Machine

/-- The setup with another limit on the depth of calls. -/
def Setup.raised (setup : Setup σ γ) (limit : Nat) : Setup σ γ :=
  { setup with callDepthLimit := limit }

@[simp]
theorem Setup.program_raised (setup : Setup σ γ) (limit : Nat) :
    (setup.raised limit).program = setup.program := rfl

/-- The run did not end because there were too many frames. -/
def Outcome.Fits : Outcome σ γ α → Prop
  | .faulted fault _ => fault.kind ≠ .stackOverflow
  | _ => True

instance (outcome : Outcome σ γ α) : Decidable outcome.Fits := by
  unfold Outcome.Fits
  split <;> infer_instance

/-! ### Backends that pass faults on -/

/-- A fault of a handler ends the loop with that fault. -/
def EventLoop.Relays : EventLoop γ → Prop
  | .finish _ _ => True
  | .dispatch _ _ resume => (∀ drawn, (resume (.ok drawn)).Relays) ∧
      ∀ fault, ∃ backend, resume (.error fault) = .finish (.error fault) backend

/-- Each loop of the backend passes the faults of its handlers on. -/
def GraphicsInterface.Relays (graphics : GraphicsInterface γ) : Prop :=
  ∀ backend, (graphics.loop backend).Relays

theorem HeadlessGraphics.replay_relays (graphics : HeadlessGraphics)
    (script : List ScriptedEvent) : (graphics.replay script).Relays := by
  induction script generalizing graphics with
  | nil => trivial
  | cons event rest ih => exact ⟨fun drawn => ih _, fun fault => ⟨_, rfl⟩⟩

/-- The backend without a window does. -/
theorem HeadlessGraphics.interface_relays : HeadlessGraphics.interface.Relays :=
  fun backend => backend.replay_relays backend.script

variable {setup : Setup σ γ} {limit : Nat} {machine : Machine σ γ}

/-! ### One step -/

namespace Exec

/-- The action did not fault because there were too many frames. -/
def Fits : EStateM.Result Fault (Machine σ γ) α → Prop
  | .ok _ _ => True
  | .error fault _ => fault.kind ≠ .stackOverflow

theorem Fits.first {action : Exec σ γ α} {next : α → Exec σ γ β}
    (h : Fits ((action >>= next) machine)) : Fits (action machine) := by
  rw [bind_eq] at h
  cases hresult : action machine with
  | ok value after => trivial
  | error fault after =>
      rw [hresult] at h
      exact h

theorem Fits.of_within {action : Exec σ γ α} {site : Site}
    (h : Fits (within site action machine)) : Fits (action machine) := by
  cases hresult : action machine with
  | ok value after => trivial
  | error fault after =>
      rw [within_error hresult] at h
      exact h

/-- Actions that agree as long as the first fits also agree in sequence. -/
theorem bind_raised {low high : Exec σ γ α} {next next' : α → Exec σ γ β}
    (haction : Fits (low machine) → high machine = low machine)
    (hnext : ∀ value after, Fits (next value after) → next' value after = next value after)
    (hfits : Fits ((low >>= next) machine)) :
    (high >>= next') machine = (low >>= next) machine := by
  have hsame := haction hfits.first
  rw [bind_eq] at hfits
  rw [bind_eq, bind_eq, hsame]
  cases hresult : low machine with
  | error fault after => rfl
  | ok value after =>
      rw [hresult] at hfits
      exact hnext value after hfits

variable (hlimit : setup.callDepthLimit ≤ limit)

include hlimit

theorem enter_raised (function : CompiledFunction Value) (arguments : List Value)
    (machine : Machine σ γ) (hfits : Fits (enter setup function arguments machine)) :
    enter (setup.raised limit) function arguments machine =
      enter setup function arguments machine := by
  unfold enter at hfits ⊢
  by_cases hdeep : setup.callDepthLimit ≤ machine.frames.length
  · rw [if_pos hdeep] at hfits
    exact absurd rfl hfits
  · have hraised : ¬ (setup.raised limit).callDepthLimit ≤ machine.frames.length :=
      fun h => hdeep (Nat.le_trans hlimit h)
    rw [if_neg hdeep, if_neg hraised]

theorem entered_raised {function : CompiledFunction Value} {arguments : List Value}
    {entered : Machine σ γ} (h : enter setup function arguments machine = .ok () entered) :
    enter (setup.raised limit) function arguments machine = .ok () entered :=
  (enter_raised hlimit function arguments machine (h ▸ trivial)).trans h

/-- Native functions do not look at the limit. -/
theorem callNamed_raised (site : Site) (callee : String) (arguments : List Value)
    (machine : Machine σ γ) (hfits : Fits (callNamed setup site callee arguments machine)) :
    callNamed (setup.raised limit) site callee arguments machine =
      callNamed setup site callee arguments machine := by
  unfold callNamed at hfits ⊢
  cases hlocal : Native.localName? callee with
  | some name => rfl
  | none =>
      simp only [hlocal, Setup.program_raised] at hfits ⊢
      cases hfunction : setup.program.get? callee with
      | none => rfl
      | some function =>
          rw [hfunction] at hfits
          exact bind_raised (enter_raised hlimit function arguments machine)
            (fun _ _ _ => rfl) hfits

theorem call_raised (site : Site) (count : Nat) (machine : Machine σ γ)
    (hfits : Fits (call setup site count machine)) :
    call (setup.raised limit) site count machine = call setup site count machine := by
  rw [call_eq] at hfits ⊢
  refine bind_raised (fun _ => rfl) (fun callee named hfits => ?_) hfits
  exact bind_raised (fun _ => rfl) (callNamed_raised hlimit site callee) hfits

/-- Only a call looks at the limit. -/
theorem execute_raised (site : Site) (function : CompiledFunction Value) (operand : Nat)
    (op : Opcode) (machine : Machine σ γ)
    (hfits : Fits (execute setup site function operand op machine)) :
    execute (setup.raised limit) site function operand op machine =
      execute setup site function operand op machine := by
  cases op with
  | call =>
      have hsame := call_raised hlimit site operand machine (Fits.of_within hfits)
      change within site (call (setup.raised limit) site operand) machine =
        within site (call setup site operand) machine
      rw [within, within, hsame]
  | _ => rfl

theorem step_raised (machine : Machine σ γ) (hfits : Fits (step setup machine)) :
    step (setup.raised limit) machine = step setup machine := by
  cases hframes : machine.frames with
  | nil => rw [step_idle _ hframes, step_idle _ hframes]
  | cons frame outer =>
      cases hdecode : Instruction.decode? frame.function.code frame.offset with
      | none => rw [step_exhausted _ hframes hdecode, step_exhausted _ hframes hdecode]
      | some instruction =>
          cases instruction with
          | operation op operand =>
              rw [step_eq hframes hdecode] at hfits ⊢
              rw [step_eq hframes hdecode]
              exact execute_raised hlimit _ frame.function operand op _ hfits
          | unknown byte => rw [step_unknown _ hframes hdecode, step_unknown _ hframes hdecode]
          | truncated op =>
              rw [step_truncated _ hframes hdecode, step_truncated _ hframes hdecode]

end Exec

/-! ### Runs -/

/-- Two courses are the same for a machine that the first does not bring to the limit. -/
def Course.Raises (low high : Course σ γ α) (machine : Machine σ γ) : Prop :=
  (low machine).Fits → high machine = low machine

theorem runFrames_raised {low high : Nat → Course σ γ Unit} {base : Nat}
    (h : Course.Raises (low base) (high base) (machine.based base)) :
    Course.Raises (runFrames low base) (runFrames high base) machine := by
  intro hfits
  have hsame : (low base (machine.based base)).Fits := by
    rw [runFrames_eq] at hfits
    cases hresult : low base (machine.based base) <;> rw [hresult] at hfits <;> exact hfits
  rw [runFrames_eq, runFrames_eq, h hsame]

section Handlers

variable {low high : Nat → Course σ γ Unit} (hlimit : setup.callDepthLimit ≤ limit)
  (hdrain : ∀ base machine, Course.Raises (low base) (high base) machine)

include hlimit hdrain

theorem runHandlers_raised (event : String) (arguments : List Value) (handlers : List String)
    (machine : Machine σ γ) :
    Course.Raises (runHandlers setup low event arguments handlers)
      (runHandlers (setup.raised limit) high event arguments handlers) machine := by
  induction handlers generalizing machine with
  | nil => exact fun _ => rfl
  | cons handler rest ih =>
      intro hfits
      have hends := handlers_end setup low event arguments handler rest machine
      generalize runHandlers setup low event arguments (handler :: rest) machine = outcome
        at hfits hends ⊢
      -- A handler whose run overflows would end the whole course so.
      have hsame {entered : Machine σ γ} {ending : Outcome σ γ Unit}
          (hrun : runFrames low machine.frames.length entered = ending) (hfits : ending.Fits) :
          runFrames high machine.frames.length entered = ending :=
        (runFrames_raised (hdrain machine.frames.length _) (hrun ▸ hfits)).trans hrun
      refine HandlersEnd.runHandlers_eq ?_
      cases hends with
      | missing hfunction => exact .missing hfunction
      | refused _ _ _ hkind => exact absurd hkind hfits
      | starved hfunction hpassed henter hrun =>
          exact .starved hfunction hpassed (Exec.entered_raised hlimit henter)
            (hsame hrun trivial)
      | failed hfunction hpassed henter hrun =>
          exact .failed hfunction hpassed (Exec.entered_raised hlimit henter) (hsame hrun hfits)
      | passed hfunction hpassed henter hrun hrest =>
          subst hrest
          exact .passed hfunction hpassed (Exec.entered_raised hlimit henter)
            (hsame hrun trivial) (ih _ hfits)

theorem fireWith_raised (event : String) (arguments : List Value) (machine : Machine σ γ) :
    Course.Raises (fireWith setup low event arguments)
      (fireWith (setup.raised limit) high event arguments) machine := by
  intro hfits
  have hsame := runHandlers_raised hlimit hdrain event arguments (machine.handlers event)
    { machine with result := .null }
  unfold fireWith at hfits ⊢
  rw [hsame]
  cases hresult : runHandlers setup low event arguments (machine.handlers event)
    { machine with result := .null } <;> rw [hresult] at hfits <;> exact hfits

theorem dispatchWith_raised (event : String) (arguments : List Value) (machine : Machine σ γ) :
    Course.Raises (dispatchWith setup low event arguments)
      (dispatchWith (setup.raised limit) high event arguments) machine := by
  intro hfits
  have hsame := fireWith_raised hlimit hdrain event arguments machine
  unfold dispatchWith at hfits ⊢
  rw [hsame]
  cases hresult : fireWith setup low event arguments machine <;> rw [hresult] at hfits <;>
    exact hfits

/-- A loop that passes faults on goes the same way unless it ends because there were too many
frames. -/
theorem followLoop_raised (loop : EventLoop γ) (hrelays : loop.Relays) (machine : Machine σ γ)
    (hfits : ∀ fault backend after,
      followLoop setup low loop machine = .done (.error fault, backend) after →
        fault.kind ≠ .stackOverflow) :
    followLoop (setup.raised limit) high loop machine = followLoop setup low loop machine := by
  induction loop generalizing machine with
  | finish result backend => rfl
  | dispatch event arguments resume ih =>
      have hsame := dispatchWith_raised hlimit hdrain event arguments machine
      unfold followLoop at hfits ⊢
      cases hresult : dispatchWith setup low event arguments machine with
      | outOfFuel => rw [hsame (by rw [hresult]; trivial), hresult]
      | done drawn after =>
          rw [hresult] at hfits
          rw [hsame (by rw [hresult]; trivial), hresult]
          exact ih (.ok drawn) (hrelays.1 drawn) after hfits
      | faulted fault after =>
          rw [hresult] at hfits
          obtain ⟨backend, hfinish⟩ := hrelays.2 fault
          -- The loop ends with the fault of the handler, so that fault is not the limit's.
          have hkind : fault.kind ≠ .stackOverflow :=
            hfits fault backend after (by simp only [hfinish, followLoop])
          rw [hsame (by rw [hresult]; exact hkind), hresult]
          simp only [hfinish, followLoop]

end Handlers

/-- A run that goes on has an innermost frame, and its step is bounded by the frames around that. -/
theorem bounded_of_goes {base : Nat} (hgoes : machine.hasFramesAbove base = true) :
    ∃ outer, Exec.Bounded machine outer (Exec.step setup machine) := by
  obtain ⟨frame, outer, hframes⟩ : ∃ frame outer, machine.frames = frame :: outer :=
    List.exists_cons_of_length_pos
      (Nat.zero_lt_of_lt ((machine.hasFramesAbove_iff base).1 hgoes))
  exact ⟨outer, Exec.step_bounded setup hframes⟩

section Loops

variable {base fuel : Nat} {site : Site} {course : EventLoop γ} {middle : Machine σ γ}
  (hstep : Exec.step setup machine = .ok (.enterLoop site course) middle)

include hstep

/-- Without graphics no loop is entered. -/
theorem relays_of_enterLoop (hgoes : machine.hasFramesAbove base = true)
    (hgraphics : machine.graphics.mode = .absent ∨ setup.capabilities.graphics.Relays) :
    setup.capabilities.graphics.Relays := by
  obtain ⟨outer, hbounded⟩ := bounded_of_goes hgoes
  rw [hstep] at hbounded
  exact hgraphics.resolve_left fun h => by cases h.symm.trans hbounded.1

theorem enteredLoop_raised (hlimit : setup.callDepthLimit ≤ limit)
    (hdrain : ∀ base machine,
      Course.Raises (drain setup fuel base) (drain (setup.raised limit) fuel base) machine)
    (hrelays : setup.capabilities.graphics.Relays)
    {outcome : Outcome σ γ (Except Fault Unit × γ)}
    (hloop : followLoop setup (drain setup fuel) course middle = outcome)
    (hfits : ∀ fault backend after, outcome = .done (.error fault, backend) after →
      fault.kind ≠ .stackOverflow) :
    followLoop (setup.raised limit) (drain (setup.raised limit) fuel) course middle = outcome := by
  subst hloop
  obtain ⟨backend, rfl⟩ := Exec.loop_of_step hstep
  exact followLoop_raised hlimit hdrain (setup.capabilities.graphics.loop backend)
    (hrelays backend) middle hfits

end Loops

/-- Without graphics no loop is entered, and every other loop passes faults on. -/
theorem drain_raised (hlimit : setup.callDepthLimit ≤ limit) (fuel base : Nat)
    (machine : Machine σ γ)
    (hgraphics : machine.graphics.mode = .absent ∨ setup.capabilities.graphics.Relays) :
    Course.Raises (drain setup fuel base) (drain (setup.raised limit) fuel base) machine := by
  induction fuel generalizing base machine with
  | zero => exact fun _ => rfl
  | succ fuel ih =>
      intro hfits
      have hraised := Exec.step_raised hlimit machine
      have hround := drain_round setup fuel base machine
      -- What the run comes to under the lower limit is to be what it comes to under the higher one.
      generalize drain setup (fuel + 1) base machine = outcome at hround hfits ⊢
      cases hround with
      | ended hends => exact (Round.ended hends).drain_eq
      | failed hgoes hstep hkind =>
          rw [hstep] at hraised
          exact (Round.failed hgoes (hraised hfits) hkind).drain_eq
      | endless hgoes hstep hkind =>
          rw [hstep] at hraised
          exact (Round.endless hgoes (hraised (hkind.trans_ne nofun)) hkind).drain_eq
      | proceeds hgoes hstep hrest =>
          obtain ⟨outer, hbounded⟩ := bounded_of_goes hgoes
          rw [hstep] at hraised hbounded
          subst hrest
          rw [drain_proceeds hgoes (hraised trivial)]
          exact ih base _ (hgraphics.imp_left hbounded.1.2.trans) hfits
      | starved hgoes hstep hloop =>
          have hrelays := relays_of_enterLoop hstep hgoes hgraphics
          have hsame := enteredLoop_raised hstep hlimit (fun base machine =>
            ih base machine (.inr hrelays)) hrelays hloop fun _ _ _ h => by cases h
          rw [hstep] at hraised
          exact (Round.starved hgoes (hraised trivial) hsame).drain_eq
      | broken hgoes hstep hloop hkind =>
          have hrelays := relays_of_enterLoop hstep hgoes hgraphics
          have hsame := enteredLoop_raised hstep hlimit (fun base machine =>
            ih base machine (.inr hrelays)) hrelays hloop fun _ _ _ h => by cases h; exact hfits
          rw [hstep] at hraised
          exact (Round.broken hgoes (hraised trivial) hsame hkind).drain_eq
      | hung hgoes hstep hloop hkind =>
          have hrelays := relays_of_enterLoop hstep hgoes hgraphics
          have hsame := enteredLoop_raised hstep hlimit (fun base machine =>
            ih base machine (.inr hrelays)) hrelays hloop fun _ _ _ h => by
              cases h
              exact hkind.trans_ne nofun
          rw [hstep] at hraised
          exact (Round.hung hgoes (hraised trivial) hsame hkind).drain_eq
      | resumed hgoes hstep hloop hrest =>
          have hrelays := relays_of_enterLoop hstep hgoes hgraphics
          have hsame := enteredLoop_raised hstep hlimit (fun base machine =>
            ih base machine (.inr hrelays)) hrelays hloop fun _ _ _ h => by cases h
          rw [hstep] at hraised
          subst hrest
          rw [(Round.resumed hgoes (hraised trivial) hsame rfl).drain_eq]
          exact ih base _ (.inr hrelays) hfits

/-- A run that does not end because of the limit on the depth of calls ends in the same way, with
the same value or fault and in the same state, under every higher limit. -/
theorem raised_limit_keeps_run (hlimit : setup.callDepthLimit ≤ limit) (fuel : Nat)
    (entry : String) (arguments : List Value) (machine : Machine σ γ)
    (hgraphics : machine.graphics.mode = .absent ∨ setup.capabilities.graphics.Relays)
    (hfits : (machine.run setup fuel entry arguments).Fits) :
    machine.run (setup.raised limit) fuel entry arguments =
      machine.run setup fuel entry arguments := by
  have hends := run_ends setup fuel entry arguments machine
  generalize machine.run setup fuel entry arguments = outcome at hfits hends ⊢
  have hsame {function : CompiledFunction Value} {entered : Machine σ γ}
      {ending : Outcome σ γ Unit}
      (henter : Exec.enter setup function arguments { machine with result := .null } =
        .ok () entered)
      (hrun : runFrames (drain setup fuel) machine.frames.length entered = ending)
      (hfits : ending.Fits) :
      runFrames (drain (setup.raised limit) fuel) machine.frames.length entered = ending := by
    -- Entering leaves graphics as they are, so a frame of the entry has the same backend.
    have hmode : entered.graphics.mode = machine.graphics.mode := by
      rw [Exec.enter_ok henter]
    exact (runFrames_raised (drain_raised hlimit fuel machine.frames.length _
      (hgraphics.imp_left hmode.trans)) (hrun ▸ hfits)).trans hrun
  refine RunEnds.run_eq ?_
  cases hends with
  | missing hfunction => exact .missing hfunction
  | @refused function _ hfunction henter hkind =>
      have hraised := Exec.enter_raised hlimit function arguments { machine with result := .null }
        (henter ▸ hfits)
      exact .refused hfunction (hraised.trans henter) hkind
  | starved hfunction henter hrun =>
      exact .starved hfunction (Exec.entered_raised hlimit henter) (hsame henter hrun trivial)
  | failed hfunction henter hrun =>
      exact .failed hfunction (Exec.entered_raised hlimit henter) (hsame henter hrun hfits)
  | returned hfunction henter hrun =>
      exact .returned hfunction (Exec.entered_raised hlimit henter) (hsame henter hrun trivial)

set_option maxRecDepth 100000 in
/-- The handlers of `painting` need a second frame above that of its entry, in which the loop
runs. -/
theorem painting_raised :
    ∃ (setup : Setup Rehearsal HeadlessGraphics) (machine after : Machine Rehearsal _)
      (backend : HeadlessGraphics),
      setup.callDepthLimit = 2 ∧ setup.capabilities.graphics = HeadlessGraphics.interface ∧
        machine.graphics = .ready backend ∧
        ¬ (machine.run (setup.raised 1) 40 "M.main" []).Fits ∧
        machine.run setup 40 "M.main" [] = .done .null after ∧
        machine.run (setup.raised 128) 40 "M.main" [] = .done .null after := by
  obtain ⟨compilation, -, -, -, hcheck⟩ := exists_of_compilesTo painting
    (fun _ _ compilation =>
      let replay := compilation.replaying [⟨"click", [.int 2]⟩, ⟨"click", [.int 3]⟩]
      (replay.2.run (replay.1.raised 2) 40 "M.main" []).shown? = some (.null, 2) ∧
        ¬ (replay.2.run (replay.1.raised 1) 40 "M.main" []).Fits) rfl (by decide +kernel)
  obtain ⟨hshown, hoverflows⟩ := of_decide_eq_true hcheck
  obtain ⟨setup, machine, hreplay⟩ : ∃ setup machine,
      compilation.replaying [⟨"click", [.int 2]⟩, ⟨"click", [.int 3]⟩] = (setup, machine) :=
    ⟨_, _, rfl⟩
  have hheadless : setup.capabilities.graphics = HeadlessGraphics.interface := by
    cases hreplay
    rfl
  have hready : ∃ backend, machine.graphics = .ready backend := by
    cases hreplay
    exact ⟨_, rfl⟩
  obtain ⟨backend, hready⟩ := hready
  rw [hreplay] at hshown hoverflows
  obtain ⟨after, -, hrun, -, -⟩ := eq_done_of_shown? hshown
  have hlimit : (setup.raised 2).callDepthLimit ≤ 128 := by
    change 2 ≤ 128
    decide
  have hraised := raised_limit_keeps_run hlimit 40 "M.main" [] machine
    (.inr (hheadless ▸ HeadlessGraphics.interface_relays)) (by rw [hrun]; trivial)
  exact ⟨setup.raised 2, machine, after, backend, rfl, hheadless, hready, hoverflows, hrun,
    hraised.trans hrun⟩

end DocScript
