import DocScript.Proofs.Machine.Visits

/-! # Runs, round by round

In each round a run looks whether it has frames left, takes a step in the innermost one and, if the
step enters the loop of the backend, follows the loop to its end. Whatever it does behind the step
it does with less fuel. So what holds of all runs is shown by induction on the fuel, with one case
for each way that a round may take. Runs of handlers and runs from outside begin in a frame of their
own, and there is one case for each way that they may end.
-/

namespace DocScript

open Machine

variable {setup : Setup σ γ} {base fuel : Nat} {machine after : Machine σ γ}

/-! ### Frames of a run -/

/-- A run that goes on has an innermost frame of its own. -/
theorem frames_of_goes {look : Frame → π} {machine : Machine σ γ} {inner outer : List π}
    (hgoes : machine.hasFramesAbove outer.length = true)
    (hlooks : machine.frames.map look = inner ++ outer) :
    ∃ frame rest others, machine.frames = frame :: rest ∧ inner = look frame :: others ∧
      rest.map look = others ++ outer := by
  have hlength := congrArg List.length hlooks
  rw [List.length_map, List.length_append] at hlength
  rw [hasFramesAbove_iff, hlength] at hgoes
  cases inner with
  | nil => simp at hgoes
  | cons first others =>
      obtain ⟨frame, rest, hframes, rfl, hrest⟩ := List.map_eq_cons_iff.1 hlooks
      exact ⟨frame, rest, others, hframes, rfl, hrest⟩

/-- A run that does not go on has come back to the frames around it. -/
theorem frames_of_ends {look : Frame → π} {machine : Machine σ γ} {inner outer : List π}
    (hends : machine.hasFramesAbove outer.length = false)
    (hlooks : machine.frames.map look = inner ++ outer) : inner = [] := by
  have hlength := congrArg List.length hlooks
  rw [List.length_map, List.length_append] at hlength
  rw [Bool.eq_false_iff, ne_eq, hasFramesAbove_iff, hlength] at hends
  exact List.eq_nil_of_length_eq_zero (by omega)

/-! ### Rounds -/

/-- A backend that follows its loop ends it, whatever the handlers do: their faults go to the
backend and nowhere else. -/
theorem followLoop_ne_faulted (course : Nat → Course σ γ Unit) (loop : EventLoop γ)
    (machine : Machine σ γ) (fault : Fault) (after : Machine σ γ) :
    followLoop setup course loop machine ≠ .faulted fault after := by
  induction loop generalizing machine with
  | finish result backend =>
      intro h
      cases h
  | dispatch event arguments resume ih =>
      unfold followLoop
      cases dispatchWith setup course event arguments machine with
      | done drawn middle => exact ih (.ok drawn) middle
      | faulted cause middle => exact ih (.error cause) middle
      | outOfFuel =>
          intro h
          cases h

/-- The ways that a round may take, each with what the run comes to. The run ends where it has no
frames left, where the step fails, and where the loop that it has entered fails or has not enough
fuel. It never ends where what the step or the loop computes has no end. Otherwise it goes on behind
the step, or behind the loop with the backend that the loop has given back. -/
inductive Round (setup : Setup σ γ) (fuel base : Nat) (machine : Machine σ γ) :
    Outcome σ γ Unit → Prop where
  | ended (hends : machine.hasFramesAbove base = false) :
      Round setup fuel base machine (.done () machine)
  | failed {fault : Fault} {after : Machine σ γ} (hgoes : machine.hasFramesAbove base = true)
      (hstep : Exec.step setup machine = .error fault after) (hkind : fault.kind ≠ .endless) :
      Round setup fuel base machine (.faulted fault after)
  | endless {fault : Fault} {after : Machine σ γ} (hgoes : machine.hasFramesAbove base = true)
      (hstep : Exec.step setup machine = .error fault after) (hkind : fault.kind = .endless) :
      Round setup fuel base machine .outOfFuel
  | proceeds {after : Machine σ γ} {outcome : Outcome σ γ Unit}
      (hgoes : machine.hasFramesAbove base = true)
      (hstep : Exec.step setup machine = .ok .proceed after)
      (hrest : drain setup fuel base after = outcome) : Round setup fuel base machine outcome
  | starved {site : Site} {course : EventLoop γ} {middle : Machine σ γ}
      (hgoes : machine.hasFramesAbove base = true)
      (hstep : Exec.step setup machine = .ok (.enterLoop site course) middle)
      (hloop : followLoop setup (drain setup fuel) course middle = .outOfFuel) :
      Round setup fuel base machine .outOfFuel
  | broken {site : Site} {course : EventLoop γ} {middle after : Machine σ γ} {fault : Fault}
      {backend : γ} (hgoes : machine.hasFramesAbove base = true)
      (hstep : Exec.step setup machine = .ok (.enterLoop site course) middle)
      (hloop : followLoop setup (drain setup fuel) course middle =
        .done (.error fault, backend) after) (hkind : fault.kind ≠ .endless) :
      Round setup fuel base machine
        (.faulted (fault.within site) { after with graphics := .ready backend })
  | hung {site : Site} {course : EventLoop γ} {middle after : Machine σ γ} {fault : Fault}
      {backend : γ} (hgoes : machine.hasFramesAbove base = true)
      (hstep : Exec.step setup machine = .ok (.enterLoop site course) middle)
      (hloop : followLoop setup (drain setup fuel) course middle =
        .done (.error fault, backend) after) (hkind : fault.kind = .endless) :
      Round setup fuel base machine .outOfFuel
  | resumed {site : Site} {course : EventLoop γ} {middle after : Machine σ γ} {backend : γ}
      {outcome : Outcome σ γ Unit} (hgoes : machine.hasFramesAbove base = true)
      (hstep : Exec.step setup machine = .ok (.enterLoop site course) middle)
      (hloop : followLoop setup (drain setup fuel) course middle = .done (.ok (), backend) after)
      (hrest : drain setup fuel base { after with graphics := .ready backend } = outcome) :
      Round setup fuel base machine outcome

theorem drain_round (setup : Setup σ γ) (fuel base : Nat) (machine : Machine σ γ) :
    Round setup fuel base machine (drain setup (fuel + 1) base machine) := by
  unfold drain
  cases hgoes : machine.hasFramesAbove base with
  | false => exact .ended hgoes
  | true =>
      simp only [Bool.not_true, Bool.false_eq_true, if_false]
      cases hstep : Exec.step setup machine with
      | error fault after =>
          simp only [Outcome.atFault]
          split
          next hkind => exact .endless hgoes hstep hkind
          next hkind => exact .failed hgoes hstep hkind
      | ok signal middle =>
          cases signal with
          | proceed => exact .proceeds hgoes hstep rfl
          | enterLoop site course =>
              simp only
              cases hloop : followLoop setup (drain setup fuel) course middle with
              | outOfFuel => exact .starved hgoes hstep hloop
              | faulted fault after => exact absurd hloop (followLoop_ne_faulted _ _ _ _ _)
              | done ending after =>
                  obtain ⟨result, backend⟩ := ending
                  cases result with
                  | error fault =>
                      simp only [Outcome.atFault]
                      split
                      next hkind => exact .hung hgoes hstep hloop hkind
                      next hkind => exact .broken hgoes hstep hloop hkind
                  | ok value => exact .resumed hgoes hstep hloop rfl

/-- No round takes two ways. -/
theorem Round.drain_eq {outcome : Outcome σ γ Unit} (h : Round setup fuel base machine outcome) :
    drain setup (fuel + 1) base machine = outcome := by
  unfold drain
  cases h with
  | ended hends => simp only [hends, Bool.not_false, if_true]
  | failed hgoes hstep hkind =>
      simp only [hgoes, hstep, Bool.not_true, Bool.false_eq_true, if_false]
      exact if_neg hkind
  | endless hgoes hstep hkind =>
      simp only [hgoes, hstep, Bool.not_true, Bool.false_eq_true, if_false]
      exact if_pos hkind
  | proceeds hgoes hstep hrest =>
      simp only [hgoes, hstep, hrest, Bool.not_true, Bool.false_eq_true, if_false]
  | starved hgoes hstep hloop =>
      simp only [hgoes, hstep, hloop, Bool.not_true, Bool.false_eq_true, if_false]
  | broken hgoes hstep hloop hkind =>
      simp only [hgoes, hstep, hloop, Bool.not_true, Bool.false_eq_true, if_false]
      exact if_neg hkind
  | hung hgoes hstep hloop hkind =>
      simp only [hgoes, hstep, hloop, Bool.not_true, Bool.false_eq_true, if_false]
      exact if_pos hkind
  | resumed hgoes hstep hloop hrest =>
      simp only [hgoes, hstep, hloop, hrest, Bool.not_true, Bool.false_eq_true, if_false]

theorem drain_proceeds (hgoes : machine.hasFramesAbove base = true)
    (hstep : Exec.step setup machine = .ok .proceed after) :
    drain setup (fuel + 1) base machine = drain setup fuel base after :=
  (Round.proceeds hgoes hstep rfl).drain_eq

/-- A run does not end, with any fuel, where the next step has no end. -/
theorem drain_endless {fault : Fault} (hgoes : machine.hasFramesAbove base = true)
    (hstep : Exec.step setup machine = .error fault after) (hkind : fault.kind = .endless)
    (fuel : Nat) : drain setup fuel base machine = .outOfFuel := by
  cases fuel with
  | zero => rfl
  | succ fuel => exact (Round.endless hgoes hstep hkind).drain_eq

/-- A run that has no frames left is where it was. -/
theorem drain_of_ended (hended : machine.hasFramesAbove base = false)
    (hdrain : drain setup fuel base machine = .done () after) : after = machine := by
  cases fuel with
  | zero => cases hdrain
  | succ fuel =>
      rw [(Round.ended hended).drain_eq] at hdrain
      cases hdrain
      rfl

/-- A run above other frames that comes to its end gives the base of the outer run back. -/
theorem drain_of_runFrames {course : Nat → Course σ γ Unit}
    (h : runFrames course base machine = .done () after) :
    ∃ ended, course base (machine.based base) = .done () ended ∧
      after = { ended with base := machine.base } := by
  rw [runFrames_eq] at h
  cases hdrain : course base (machine.based base) with
  | done _ ended =>
      rw [hdrain] at h
      cases h
      exact ⟨ended, rfl, rfl⟩
  | faulted | outOfFuel =>
      rw [hdrain] at h
      cases h

/-! ### Handlers -/

/-- The ways in which the first of several handlers may end, each with what all of them come to. It
may be no function of the program, or there may be too many frames for it. If its run goes well then
the others follow, with the stack cut back to what it was. -/
inductive HandlersEnd (setup : Setup σ γ) (course : Nat → Course σ γ Unit) (event : String)
    (arguments : List Value) (handler : String) (rest : List String) (machine : Machine σ γ) :
    Outcome σ γ Unit → Prop where
  | missing (hfunction : setup.program.get? handler = none) :
      HandlersEnd setup course event arguments handler rest machine
        (.faulted { cause := .unresolved (.handler handler event) } machine)
  | refused {function : CompiledFunction Value} {passed : List Value} {fault : Fault}
      (hfunction : setup.program.get? handler = some function)
      (hpassed : passed = arguments.take function.paramCount ++
        List.replicate (function.paramCount - arguments.length) Value.null)
      (henter : Exec.enter setup function passed machine = .error fault machine)
      (hkind : fault.kind = .stackOverflow) :
      HandlersEnd setup course event arguments handler rest machine (.faulted fault machine)
  | starved {function : CompiledFunction Value} {passed : List Value} {entered : Machine σ γ}
      (hfunction : setup.program.get? handler = some function)
      (hpassed : passed = arguments.take function.paramCount ++
        List.replicate (function.paramCount - arguments.length) Value.null)
      (henter : Exec.enter setup function passed machine = .ok () entered)
      (hrun : runFrames course machine.frames.length entered = .outOfFuel) :
      HandlersEnd setup course event arguments handler rest machine .outOfFuel
  | failed {function : CompiledFunction Value} {passed : List Value} {fault : Fault}
      {entered after : Machine σ γ} (hfunction : setup.program.get? handler = some function)
      (hpassed : passed = arguments.take function.paramCount ++
        List.replicate (function.paramCount - arguments.length) Value.null)
      (henter : Exec.enter setup function passed machine = .ok () entered)
      (hrun : runFrames course machine.frames.length entered = .faulted fault after) :
      HandlersEnd setup course event arguments handler rest machine
        (.faulted fault (after.truncateStack machine.stack.length))
  | passed {function : CompiledFunction Value} {passed : List Value}
      {entered after : Machine σ γ} {outcome : Outcome σ γ Unit}
      (hfunction : setup.program.get? handler = some function)
      (hpassed : passed = arguments.take function.paramCount ++
        List.replicate (function.paramCount - arguments.length) Value.null)
      (henter : Exec.enter setup function passed machine = .ok () entered)
      (hrun : runFrames course machine.frames.length entered = .done () after)
      (hrest : runHandlers setup course event arguments rest
        (after.truncateStack machine.stack.length) = outcome) :
      HandlersEnd setup course event arguments handler rest machine outcome

section Handlers

variable {course : Nat → Course σ γ Unit} {event handler : String} {arguments : List Value}
  {rest : List String}

theorem handlers_end (setup : Setup σ γ) (course : Nat → Course σ γ Unit) (event : String)
    (arguments : List Value) (handler : String) (rest : List String) (machine : Machine σ γ) :
    HandlersEnd setup course event arguments handler rest machine
      (runHandlers setup course event arguments (handler :: rest) machine) := by
  unfold runHandlers
  cases hfunction : setup.program.get? handler with
  | none => exact .missing hfunction
  | some function =>
      simp only
      generalize hpassed : arguments.take function.paramCount ++
        List.replicate (function.paramCount - arguments.length) Value.null = passed
      -- It is passed as many arguments as it has parameters, so entering fails for its depth only.
      have hfits : passed.length = function.paramCount := by
        rw [← hpassed, List.length_append, List.length_take, List.length_replicate]
        omega
      rcases Exec.enter_fits setup hfits machine with ⟨fault, hkind, henter⟩ | henter
      · rw [henter]
        exact .refused hfunction hpassed.symm henter hkind
      · rw [henter]
        simp only
        cases hrun : runFrames course machine.frames.length
            { machine with frames := .enter function passed :: machine.frames } with
        | done value after => exact .passed hfunction hpassed.symm henter hrun rfl
        | faulted fault after => exact .failed hfunction hpassed.symm henter hrun
        | outOfFuel => exact .starved hfunction hpassed.symm henter hrun

/-- The handlers end in one way only. -/
theorem HandlersEnd.runHandlers_eq {outcome : Outcome σ γ Unit}
    (h : HandlersEnd setup course event arguments handler rest machine outcome) :
    runHandlers setup course event arguments (handler :: rest) machine = outcome := by
  unfold runHandlers
  cases h with
  | missing hfunction => simp only [hfunction]
  | refused hfunction hpassed henter =>
      subst hpassed
      simp only [hfunction, henter]
  | starved hfunction hpassed henter hrun | failed hfunction hpassed henter hrun =>
      subst hpassed
      simp only [hfunction, henter, hrun]
  | passed hfunction hpassed henter hrun hrest =>
      subst hpassed
      simp only [hfunction, henter, hrun, hrest]

end Handlers

/-! ### Runs from outside -/

/-- The ways in which a function that is run from outside may end. It may be no function of the
program, or there may be too many frames or a wrong number of arguments for it. -/
inductive RunEnds (setup : Setup σ γ) (fuel : Nat) (entry : String) (arguments : List Value)
    (machine : Machine σ γ) : Outcome σ γ Value → Prop where
  | missing (hfunction : setup.program.get? entry = none) :
      RunEnds setup fuel entry arguments machine
        (.faulted { cause := .entryNotFound entry } machine)
  | refused {function : CompiledFunction Value} {fault : Fault}
      (hfunction : setup.program.get? entry = some function)
      (henter : Exec.enter setup function arguments { machine with result := .null } =
        .error fault { machine with result := .null })
      (hkind : fault.kind = .stackOverflow ∨
        fault.kind = .arityMismatch ∧ arguments.length ≠ function.paramCount) :
      RunEnds setup fuel entry arguments machine (.faulted fault { machine with result := .null })
  | starved {function : CompiledFunction Value} {entered : Machine σ γ}
      (hfunction : setup.program.get? entry = some function)
      (henter : Exec.enter setup function arguments { machine with result := .null } =
        .ok () entered)
      (hrun : runFrames (drain setup fuel) machine.frames.length entered = .outOfFuel) :
      RunEnds setup fuel entry arguments machine .outOfFuel
  | failed {function : CompiledFunction Value} {entered after : Machine σ γ} {fault : Fault}
      (hfunction : setup.program.get? entry = some function)
      (henter : Exec.enter setup function arguments { machine with result := .null } =
        .ok () entered)
      (hrun : runFrames (drain setup fuel) machine.frames.length entered = .faulted fault after) :
      RunEnds setup fuel entry arguments machine (.faulted fault after)
  | returned {function : CompiledFunction Value} {entered after : Machine σ γ}
      (hfunction : setup.program.get? entry = some function)
      (henter : Exec.enter setup function arguments { machine with result := .null } =
        .ok () entered)
      (hrun : runFrames (drain setup fuel) machine.frames.length entered = .done () after) :
      RunEnds setup fuel entry arguments machine
        (.done after.result { after with result := .null })

theorem run_ends (setup : Setup σ γ) (fuel : Nat) (entry : String) (arguments : List Value)
    (machine : Machine σ γ) :
    RunEnds setup fuel entry arguments machine (machine.run setup fuel entry arguments) := by
  unfold Machine.run
  cases hfunction : setup.program.get? entry with
  | none => exact .missing hfunction
  | some function =>
      simp only
      rcases Exec.enter_faults setup function arguments { machine with result := .null } with
        ⟨fault, henter, hkind⟩ | henter
      · rw [henter]
        exact .refused hfunction henter hkind
      · rw [henter]
        simp only
        split
        next hrun => exact .returned hfunction henter hrun
        next hrun => exact .failed hfunction henter hrun
        next hrun => exact .starved hfunction henter hrun

/-- The run ends in one way only. -/
theorem RunEnds.run_eq {entry : String} {arguments : List Value} {outcome : Outcome σ γ Value}
    (h : RunEnds setup fuel entry arguments machine outcome) :
    machine.run setup fuel entry arguments = outcome := by
  unfold Machine.run
  cases h with
  | missing hfunction => simp only [hfunction]
  | refused hfunction henter => simp only [hfunction, henter]
  | starved hfunction henter hrun | failed hfunction henter hrun
  | returned hfunction henter hrun => simp only [hfunction, henter, hrun]

/-! ### Computations without an end

A step passes them on like a fault, but nothing that runs ends with one. -/

/-- What has come to an end has not come to it by a computation without one. -/
def Outcome.Ended : Outcome σ γ α → Prop
  | .faulted fault _ => fault.kind ≠ .endless
  | _ => True

theorem drain_ended (setup : Setup σ γ) (fuel base : Nat) (machine : Machine σ γ) :
    (drain setup fuel base machine).Ended := by
  induction fuel generalizing machine with
  | zero => trivial
  | succ fuel ih =>
      have hround := drain_round setup fuel base machine
      generalize drain setup (fuel + 1) base machine = outcome at hround ⊢
      cases hround with
      | ended | endless | starved | hung => trivial
      | failed _ _ hkind | broken _ _ _ hkind => exact hkind
      | proceeds _ _ hrest => exact hrest ▸ ih _
      | resumed _ _ _ hrest => exact hrest ▸ ih _

theorem runFrames_ended {fault : Fault}
    (h : runFrames (drain setup fuel) base machine = .faulted fault after) :
    fault.kind ≠ .endless := by
  have hended := drain_ended setup fuel base (machine.based base)
  rw [runFrames_eq] at h
  cases hdrain : drain setup fuel base (machine.based base) with
  | faulted =>
      rw [hdrain] at h hended
      cases h
      exact hended
  | done | outOfFuel =>
      rw [hdrain] at h
      cases h

/-- No function that is run from outside ends with a computation without an end. -/
theorem run_ended (setup : Setup σ γ) (fuel : Nat) (entry : String) (arguments : List Value)
    (machine : Machine σ γ) : (machine.run setup fuel entry arguments).Ended := by
  have hends := run_ends setup fuel entry arguments machine
  generalize machine.run setup fuel entry arguments = outcome at hends ⊢
  cases hends with
  | starved | returned => trivial
  | missing => exact nofun
  | refused _ _ hkind =>
      rcases hkind with hkind | ⟨hkind, -⟩ <;> exact fun h => nomatch hkind.symm.trans h
  | failed _ _ hrun => exact runFrames_ended hrun

theorem runHandlers_ended (setup : Setup σ γ) (fuel : Nat) (event : String)
    (arguments : List Value) (handlers : List String) (machine : Machine σ γ) :
    (runHandlers setup (drain setup fuel) event arguments handlers machine).Ended := by
  induction handlers generalizing machine with
  | nil => trivial
  | cons handler rest ih =>
      have hend := handlers_end setup (drain setup fuel) event arguments handler rest machine
      generalize runHandlers setup (drain setup fuel) event arguments (handler :: rest) machine =
        outcome at hend ⊢
      cases hend with
      | starved => trivial
      | missing => exact nofun
      | refused _ _ _ hkind => exact fun h => nomatch hkind.symm.trans h
      | failed _ _ _ hrun => exact runFrames_ended hrun
      | passed _ _ _ _ hrest => exact hrest ▸ ih _

/-- No event that is fired from outside ends with a computation without an end. -/
theorem fire_ended (setup : Setup σ γ) (fuel : Nat) (event : String) (arguments : List Value)
    (machine : Machine σ γ) : (machine.fire setup fuel event arguments).Ended := by
  have hhandlers := runHandlers_ended setup fuel event arguments (machine.handlers event)
    { machine with result := .null }
  unfold fire fireWith
  generalize runHandlers setup (drain setup fuel) event arguments (machine.handlers event)
    { machine with result := .null } = outcome at hhandlers ⊢
  cases outcome with
  | faulted => exact hhandlers
  | done | outOfFuel => trivial

end DocScript
