import DocScript.Proofs.Machine.Advance
import DocScript.Proofs.Machine.Nesting

/-! # What nested runs leave behind

A step touches the innermost frame and nothing around it, and the graphics change hands only where
the loop of a backend begins. So a run that is nested in a machine leaves it, whether it comes to
its end or faults, with the frames that there were, in the same outer run, and with the graphics in
the same hands.
-/

namespace DocScript

open Machine

/-- The frames are as they were, with their functions, offsets and locals. As many of them belong to
outer runs, and the graphics are in the same hands. -/
structure Machine.Restores (before after : Machine σ γ) : Prop where
  frames : after.frames = before.frames
  base : after.base = before.base
  graphics : after.graphics.mode = before.graphics.mode

variable {setup : Setup σ γ} {machine : Machine σ γ} {frame : Frame} {outer : List Frame}

/-! ### One step -/

namespace Exec

/-- A step leaves the frames around the innermost one as they were, and it lends the graphics to the
backend or leaves them in the hands that they were in. -/
def Bounded (before : Machine σ γ) (outer : List Frame) :
    EStateM.Result Fault (Machine σ γ) (Signal γ) → Prop
  | .ok (.enterLoop _ _) after => before.graphics.mode = .ready ∧ after.base = before.base ∧
      ∃ inner, after.frames = inner ++ outer
  | .ok .proceed after | .error _ after =>
      (after.base = before.base ∧ after.graphics.mode = before.graphics.mode) ∧
        ∃ inner, after.frames = inner ++ outer

theorem step_bounded (setup : Setup σ γ) (hframes : machine.frames = frame :: outer) :
    Bounded machine outer (step setup machine) := by
  have hadvances := step_advances setup hframes
  cases hresult : step setup machine with
  | error fault after =>
      rw [hresult] at hadvances
      cases hadvances with
      | faulted hstays hmode => exact ⟨⟨hstays.base, hmode⟩, hstays.inner⟩
  | ok signal after =>
      rw [hresult] at hadvances
      cases hadvances with
      | stayed hstays hmode => exact ⟨⟨hstays.base, hmode⟩, hstays.inner⟩
      | entered _ hstays hmode henter =>
          obtain ⟨inner, hinner⟩ := hstays.inner
          rw [enter_ok henter]
          exact ⟨⟨hstays.base, hmode⟩, _ :: inner, congrArg (_ :: ·) hinner⟩
      | returned _ =>
          rw [Machine.returned, hframes, List.tail_cons]
          split <;> exact ⟨⟨rfl, rfl⟩, [], rfl⟩
      | left _ => exact ⟨⟨rfl, rfl⟩, [], rfl⟩
      | lent hstays hready => exact ⟨hready, hstays.base, hstays.inner⟩

theorem Bounded.around {others : List Frame}
    {result : EStateM.Result Fault (Machine σ γ) (Signal γ)}
    (h : Bounded machine (others ++ outer) result) : Bounded machine outer result := by
  have hframes {after : Machine σ γ} :
      (∃ inner, after.frames = inner ++ (others ++ outer)) → ∃ inner, after.frames = inner ++ outer :=
    fun ⟨inner, hinner⟩ => ⟨inner ++ others, hinner.trans (List.append_assoc ..).symm⟩
  cases result with
  | error fault after => exact ⟨h.1, hframes h.2⟩
  | ok signal after =>
      cases signal with
      | proceed => exact ⟨h.1, hframes h.2⟩
      | enterLoop site course => exact ⟨h.1, h.2.1, hframes h.2.2⟩

/-- So does a step of a run with the frames around the run. -/
theorem step_bounded_of_goes (setup : Setup σ γ) {inner : List Frame}
    (hgoes : machine.hasFramesAbove outer.length = true) (hframes : machine.frames = inner ++ outer) :
    Bounded machine outer (step setup machine) := by
  obtain ⟨frame, rest, others, hinnermost, -, hrest⟩ :=
    frames_of_goes hgoes ((List.map_id _).trans hframes)
  rw [List.map_id] at hrest
  exact .around (hrest ▸ step_bounded setup hinnermost)

end Exec

/-! ### Runs -/

/-- What a run above the outer frames leaves: these frames, and more above them only after a
fault. -/
def Outcome.Bounded (before : Machine σ γ) (outer : List Frame) : Outcome σ γ α → Prop
  | .done _ after => (after.base = before.base ∧ after.graphics.mode = before.graphics.mode) ∧
      after.frames = outer
  | .faulted _ after => (after.base = before.base ∧ after.graphics.mode = before.graphics.mode) ∧
      ∃ inner, after.frames = inner ++ outer
  | .outOfFuel => True

/-- Only the base of the outer run and the mode of the graphics matter of the machine before. -/
theorem Outcome.Bounded.of_same {before middle : Machine σ γ} {outcome : Outcome σ γ α}
    (hsame : middle.base = before.base ∧ middle.graphics.mode = before.graphics.mode)
    (h : outcome.Bounded middle outer) : outcome.Bounded before outer := by
  cases outcome with
  | done value after => exact ⟨⟨h.1.1.trans hsame.1, h.1.2.trans hsame.2⟩, h.2⟩
  | faulted fault after => exact ⟨⟨h.1.1.trans hsame.1, h.1.2.trans hsame.2⟩, h.2⟩
  | outOfFuel => trivial

/-- All runs with some fuel leave the outer frames as they were. -/
def DrainsBounded (setup : Setup σ γ) (fuel : Nat) : Prop :=
  ∀ (machine : Machine σ γ) inner outer, machine.frames = inner ++ outer →
    (drain setup fuel outer.length machine).Bounded machine outer

theorem runFrames_restores {fuel : Nat} (hdrain : DrainsBounded setup fuel)
    {function : CompiledFunction Value} {arguments : List Value} {entered : Machine σ γ}
    (henter : Exec.enter setup function arguments machine = .ok () entered) :
    (runFrames (drain setup fuel) machine.frames.length entered).Leaves machine.Restores := by
  have hentered := Exec.enter_ok henter
  have hframes : (entered.based machine.frames.length).frames =
      [.enter function arguments] ++ machine.frames := by
    rw [hentered]
    rfl
  have hrun := hdrain _ _ _ hframes
  have hmode : (entered.based machine.frames.length).graphics.mode = machine.graphics.mode := by
    rw [hentered]
    rfl
  have hbase : entered.base = machine.base := by rw [hentered]
  rw [runFrames_eq]
  cases hresult : drain setup fuel machine.frames.length (entered.based machine.frames.length) with
  | outOfFuel => trivial
  | done value after =>
      rw [hresult] at hrun
      exact ⟨hrun.2, hbase, hrun.1.2.trans hmode⟩
  | faulted fault after =>
      rw [hresult] at hrun
      obtain ⟨⟨-, hafter⟩, inner, hinner⟩ := hrun
      refine ⟨?_, hbase, hafter.trans hmode⟩
      -- What is left of the run that faulted is cut off.
      change after.frames.drop (after.frames.length - machine.frames.length) = machine.frames
      rw [hinner, List.length_append, Nat.add_sub_cancel, List.drop_left]

/-- The machine is to be as it was, as far as nested runs are to leave it so. -/
def Machine.restored (machine : Machine σ γ) : Custody σ γ where
  holds := machine.Restores
  trusts _ _ := True
  excuses _ := True

theorem Machine.restored_passes {before after : Machine σ γ} (h : machine.Restores after) :
    machine.restored.Passes before after :=
  ⟨h, fun _ _ => trivial⟩

theorem Machine.restored_steady (machine : Machine σ γ) (setup : Setup σ γ) :
    machine.restored.Steady setup where
  scalar _ _ := trivial
  returned _ _ := trivial
  result _ _ h _ := restored_passes ⟨h.frames, h.base, h.graphics⟩
  pending after h := by
    refine restored_passes ?_
    unfold takePending
    split
    next hslot => exact ⟨h.frames, h.base, by rw [← h.graphics, hslot]; rfl⟩
    next => exact h
  deep := trivial
  missing _ _ _ _ _ _ := trivial

theorem handlersRestore {fuel : Nat} (hdrain : DrainsBounded setup fuel)
    (machine : Machine σ γ) :
    Custody.HandlersPass setup fuel machine.restored fun _ => True := by
  intro handler function arguments calling entered _ henter hholds _ _
  have hrun := runFrames_restores hdrain henter
  have hcut {after : Machine σ γ} (h : calling.Restores after) :
      machine.restored.Passes calling (after.truncateStack calling.stack.length) :=
    Machine.restored_passes ⟨h.frames.trans hholds.frames, h.base.trans hholds.base,
      h.graphics.trans hholds.graphics⟩
  cases hresult : runFrames (drain setup fuel) calling.frames.length entered with
  | outOfFuel => trivial
  | done value after =>
      rw [hresult] at hrun
      exact hcut hrun
  | faulted fault after =>
      rw [hresult] at hrun
      exact ⟨hcut hrun, trivial⟩

section Handlers

variable {fuel : Nat} (hdrain : DrainsBounded setup fuel)

include hdrain

theorem fireWith_restores (event : String) (arguments : List Value) (machine : Machine σ γ) :
    (fireWith setup (drain setup fuel) event arguments machine).Leaves machine.Restores :=
  (Custody.fireWith_passes (handlersRestore hdrain machine) (machine.restored_steady setup) event
    arguments machine ⟨rfl, rfl, rfl⟩ (fun _ _ => trivial) fun _ _ => trivial).leaves.imp
    fun _ h => h.holds

theorem dispatchWith_restores (event : String) (arguments : List Value) (machine : Machine σ γ) :
    (dispatchWith setup (drain setup fuel) event arguments machine).Leaves machine.Restores :=
  (Custody.dispatchWith_passes (handlersRestore hdrain machine) (machine.restored_steady setup)
    event arguments machine ⟨rfl, rfl, rfl⟩ (fun _ _ => trivial) fun _ _ => trivial).leaves.imp
    fun _ h => h.holds

theorem followLoop_restores (course : EventLoop γ) (machine : Machine σ γ) :
    (followLoop setup (drain setup fuel) course machine).Leaves machine.Restores := by
  have hrun := Custody.followLoop_passes (handlersRestore hdrain machine)
    (machine.restored_steady setup) (course.excused_of_all fun _ => trivial) machine
    ⟨rfl, rfl, rfl⟩ (fun _ _ _ _ _ _ _ => trivial) fun _ _ => trivial
  cases hresult : followLoop setup (drain setup fuel) course machine with
  | outOfFuel => trivial
  | done ending after =>
      rw [hresult] at hrun
      exact hrun.1.holds
  | faulted fault after =>
      rw [hresult] at hrun
      exact hrun.1.holds

end Handlers

/-- A run leaves the frames around it as they were. -/
theorem drainsBounded (setup : Setup σ γ) (fuel : Nat) : DrainsBounded setup fuel := by
  -- The frames of the run are `inner`: each step may change them, but none of those around.
  induction fuel with
  | zero => exact fun _ _ _ _ => trivial
  | succ fuel ih =>
      intro machine inner outer hframes
      have hround := drain_round setup fuel outer.length machine
      generalize drain setup (fuel + 1) outer.length machine = outcome at hround ⊢
      cases hround with
      | ended hends =>
          rw [frames_of_ends hends ((List.map_id _).trans hframes), List.nil_append] at hframes
          exact ⟨⟨rfl, rfl⟩, hframes⟩
      | failed hgoes hstep =>
          have hbounded := Exec.step_bounded_of_goes setup hgoes hframes
          rw [hstep] at hbounded
          exact hbounded
      | proceeds hgoes hstep hrest =>
          have hbounded := Exec.step_bounded_of_goes setup hgoes hframes
          rw [hstep] at hbounded
          obtain ⟨hsame, moved, hmoved⟩ := hbounded
          subst hrest
          exact (ih _ moved outer hmoved).of_same hsame
      | endless | starved | hung => trivial
      | @broken _ course middle _ _ backend hgoes hstep hfollow =>
          have hbounded := Exec.step_bounded_of_goes setup hgoes hframes
          rw [hstep] at hbounded
          obtain ⟨hready, hbase, moved, hmoved⟩ := hbounded
          have hloop := followLoop_restores ih course middle
          rw [hfollow] at hloop
          exact ⟨⟨hloop.base.trans hbase, hready.symm⟩, moved, hloop.frames.trans hmoved⟩
      | @resumed _ course middle last backend _ hgoes hstep hfollow hrest =>
          have hbounded := Exec.step_bounded_of_goes setup hgoes hframes
          rw [hstep] at hbounded
          obtain ⟨hready, hbase, moved, hmoved⟩ := hbounded
          have hloop := followLoop_restores ih course middle
          rw [hfollow] at hloop
          -- The backend comes back to where it was lent from.
          have hsame : last.base = machine.base ∧
              (GraphicsSlot.ready backend).mode = machine.graphics.mode :=
            ⟨hloop.base.trans hbase, hready.symm⟩
          subst hrest
          exact (ih { last with graphics := .ready backend } moved outer
            (hloop.frames.trans hmoved)).of_same hsame

theorem run_restores (fuel : Nat) (entry : String) (arguments : List Value)
    (machine : Machine σ γ) :
    (machine.run setup fuel entry arguments).Leaves machine.Restores := by
  have hends := run_ends setup fuel entry arguments machine
  generalize machine.run setup fuel entry arguments = outcome at hends ⊢
  cases hends with
  | missing => exact ⟨rfl, rfl, rfl⟩
  | refused => exact ⟨rfl, rfl, rfl⟩
  | starved => trivial
  | failed _ henter hrun | returned _ henter hrun =>
      have hrestores := runFrames_restores (drainsBounded setup fuel) henter
      rw [hrun] at hrestores
      exact ⟨hrestores.frames, hrestores.base, hrestores.graphics⟩

/-- An event keeps the result of the run in progress. -/
theorem fireWith_result (setup : Setup σ γ) (course : Nat → Course σ γ Unit) (event : String)
    (arguments : List Value) (machine : Machine σ γ) :
    (fireWith setup course event arguments machine).Leaves fun after =>
      after.result = machine.result := by
  unfold fireWith
  split
  · rfl
  · rfl
  · trivial

theorem result_takePending (machine : Machine σ γ) :
    machine.takePending.2.result = machine.result := by
  unfold takePending
  split <;> rfl

theorem dispatchWith_result (setup : Setup σ γ) (course : Nat → Course σ γ Unit)
    (event : String) (arguments : List Value) (machine : Machine σ γ) :
    (dispatchWith setup course event arguments machine).Leaves fun after =>
      after.result = machine.result := by
  have hfire := fireWith_result setup course event arguments machine
  unfold dispatchWith
  cases hresult : fireWith setup course event arguments machine with
  | outOfFuel => trivial
  | faulted fault after =>
      rw [hresult] at hfire
      exact hfire
  | done value after =>
      rw [hresult] at hfire
      exact (result_takePending after).trans hfire

/-- So does the loop of a backend, whatever it dispatches. -/
theorem followLoop_result (setup : Setup σ γ) (course : Nat → Course σ γ Unit)
    (loop : EventLoop γ) (machine : Machine σ γ) :
    (followLoop setup course loop machine).Leaves fun after => after.result = machine.result := by
  induction loop generalizing machine with
  | finish result backend => exact rfl
  | dispatch event arguments resume ih =>
      have hdispatch := dispatchWith_result setup course event arguments machine
      unfold followLoop
      cases hresult : dispatchWith setup course event arguments machine with
      | outOfFuel => trivial
      | done drawn middle =>
          rw [hresult] at hdispatch
          exact (ih (.ok drawn) middle).imp fun after h => h.trans hdispatch
      | faulted fault middle =>
          rw [hresult] at hdispatch
          exact (ih (.error fault) middle).imp fun after h => h.trans hdispatch

/-- Whenever a run, an event or a dispatch comes back, whether it went well or not and from
wherever it was asked for, the frames, the outer run and the hands in which the graphics are are
the same as before; events and dispatches also leave the result alone. The same holds of all that a
backend dispatches in a loop, whatever it makes of the faults. -/
theorem nested_runs_restore (setup : Setup σ γ) (fuel : Nat) (machine : Machine σ γ) :
    (∀ entry arguments, (machine.run setup fuel entry arguments).Leaves machine.Restores) ∧
      (∀ event arguments, (machine.fire setup fuel event arguments).Leaves fun after =>
        machine.Restores after ∧ after.result = machine.result) ∧
      (∀ event arguments, (machine.dispatch setup fuel event arguments).Leaves fun after =>
        machine.Restores after ∧ after.result = machine.result) ∧
      ∀ course, (followLoop setup (drain setup fuel) course machine).Leaves machine.Restores := by
  have hdrain := drainsBounded setup fuel
  refine ⟨fun entry arguments => run_restores fuel entry arguments machine,
    fun event arguments => ?_, fun event arguments => ?_,
    fun course => followLoop_restores hdrain course machine⟩
  · exact (fireWith_restores hdrain event arguments machine).and
      (fireWith_result setup _ event arguments machine)
  · exact (dispatchWith_restores hdrain event arguments machine).and
      (dispatchWith_result setup _ event arguments machine)

end DocScript
