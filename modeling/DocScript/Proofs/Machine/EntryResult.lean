import DocScript.Proofs.Compile.Translation
import DocScript.Proofs.Machine.Restoration

/-! # Whose value a run gives

The functions that a run calls and the handlers that run within it all end by the same instructions,
and there is one result for all of them. The frame of the function that was run is the last one to
end, and up to there no step of the run finds the result written: a return within the run gives its
value to the caller, and the runs of handlers leave the result as it was.
-/

namespace DocScript

open Machine

/-! ### The steps of a run -/

/-- A run above `base` comes from the first state to the last one by steps of its own, and its fuel
from the first number to the last one. The loop of a backend is one step of it, whatever handlers
run within. -/
inductive Onward (setup : Setup σ γ) (base : Nat) :
    Nat → Machine σ γ → Nat → Machine σ γ → Prop where
  | refl {fuel : Nat} {machine : Machine σ γ} : Onward setup base fuel machine fuel machine
  | step {fuel left : Nat} {machine after found : Machine σ γ}
      (hgoes : machine.hasFramesAbove base = true)
      (hstep : Exec.step setup machine = .ok .proceed after)
      (h : Onward setup base fuel after left found) :
      Onward setup base (fuel + 1) machine left found
  | loop {fuel left : Nat} {machine middle after found : Machine σ γ} {site : Site}
      {course : EventLoop γ} {backend : γ} (hgoes : machine.hasFramesAbove base = true)
      (hstep : Exec.step setup machine = .ok (.enterLoop site course) middle)
      (hloop : followLoop setup (drain setup fuel) course middle = .done (.ok (), backend) after)
      (h : Onward setup base fuel { after with graphics := .ready backend } left found) :
      Onward setup base (fuel + 1) machine left found

/-- The value with which the innermost frame ends: what a return takes from the stack, and null
where there is nothing to take or no return. -/
inductive Machine.Ends (machine : Machine σ γ) (frame : Frame) : Value → Prop where
  | returned (h : frame.Returns) : Ends machine frame (machine.stack.headD .null)
  | lapsed (h : frame.Lapses) : Ends machine frame .null

/-- The frame of the function is there, around it the frames that were there before, and the result
is not written. -/
structure Machine.Amid (before : Machine σ γ) (function : CompiledFunction Value)
    (found : Machine σ γ) : Prop where
  base : found.base = before.frames.length
  result : found.result = .null
  frames : ∃ inner frame, found.frames = inner ++ frame :: before.frames ∧
    frame.function = function

/-- The frame of the function is the innermost one, and its instruction ends it with the value. -/
def Machine.Closes (before : Machine σ γ) (function : CompiledFunction Value)
    (last : Machine σ γ) (value : Value) : Prop :=
  ∃ frame, last.frames = frame :: before.frames ∧ frame.function = function ∧
    last.Ends frame value

variable {setup : Setup σ γ} {before machine middle after found : Machine σ γ} {frame : Frame}
  {outer : List Frame} {function : CompiledFunction Value} {value : Value} {base fuel left : Nat}

/-! ### Where a run goes on -/

/-- A run that goes on from where it has come to comes to the same end. -/
theorem Onward.drain_eq (h : Onward setup base fuel machine left found) :
    drain setup fuel base machine = drain setup left base found := by
  induction h with
  | refl => rfl
  | step hgoes hstep _ ih => exact (drain_proceeds hgoes hstep).trans ih
  | loop hgoes hstep hloop _ ih => exact (Round.resumed hgoes hstep hloop rfl).drain_eq.trans ih

/-- Where no frame is left a run goes nowhere. -/
theorem Onward.eq_of_ended (h : Onward setup base fuel machine left found)
    (hended : machine.hasFramesAbove base = false) : found = machine := by
  cases h with
  | refl => rfl
  | step hgoes => simp [hended] at hgoes
  | loop hgoes => simp [hended] at hgoes

theorem ended_of_frames (h : after.frames = before.frames) :
    after.hasFramesAbove before.frames.length = false := by
  apply Bool.eq_false_iff.2
  intro hgoes
  rw [hasFramesAbove_iff, h] at hgoes
  exact Nat.lt_irrefl _ hgoes

/-! ### One step -/

theorem Exec.step_of_returns (setup : Setup σ γ) (hframes : machine.frames = frame :: outer)
    (h : frame.Returns) : step setup machine =
      .ok .proceed (machine.returned (machine.stack.headD .null) machine.stack.tail) := by
  obtain ⟨operand, hdecode⟩ := h
  rw [step_eq hframes hdecode, execute_ret, Machine.returned, Machine.returned, hframes]
  rfl

theorem Exec.step_of_lapses (setup : Setup σ γ) (hframes : machine.frames = frame :: outer)
    (h : frame.Lapses) : step setup machine = .ok .proceed { machine with frames := outer } := by
  rcases h with ⟨operand, hdecode⟩ | hnone
  · rw [step_eq hframes hdecode, execute_halt]
    rfl
  · exact step_exhausted setup hframes hnone

/-- What the frame of the function ends with is the result. -/
theorem Machine.Ends.step (h : machine.Ends frame value) (setup : Setup σ γ)
    (hframes : machine.frames = frame :: before.frames)
    (hbase : machine.base = before.frames.length) (hresult : machine.result = .null) :
    ∃ after, Exec.step setup machine = .ok .proceed after ∧ after.frames = before.frames ∧
      after.result = value := by
  cases h with
  | returned h =>
      have hlast : ¬ machine.base < machine.frames.tail.length := by
        rw [hframes, hbase]
        exact Nat.lt_irrefl _
      refine ⟨_, Exec.step_of_returns setup hframes h, ?_, ?_⟩
      · rw [Machine.returned, if_neg hlast, hframes]
        rfl
      · rw [Machine.returned, if_neg hlast]
  | lapsed h => exact ⟨_, Exec.step_of_lapses setup hframes h, rfl, hresult⟩

namespace Machine.Amid

theorem goes (h : before.Amid function machine) :
    machine.hasFramesAbove before.frames.length = true := by
  obtain ⟨inner, frame, hframes, -⟩ := h.frames
  rw [hasFramesAbove_iff, hframes, List.length_append, List.length_cons]
  omega

/-- Frames may come and go above the one of the function. -/
theorem change (h : before.Amid function machine) (inner : List Frame)
    (hbase : after.base = machine.base) (hresult : after.result = machine.result)
    (hframes : after.frames = inner ++ frame :: before.frames)
    (hfunction : frame.function = function) : before.Amid function after :=
  ⟨hbase.trans h.base, hresult.trans h.result, inner, frame, hframes, hfunction⟩

/-- The innermost frame is that of the function, or another one lies above it. -/
theorem cases (h : before.Amid function machine) :
    (∃ frame, machine.frames = frame :: before.frames ∧ frame.function = function) ∨
      ∃ top inner frame, machine.frames = top :: (inner ++ frame :: before.frames) ∧
        frame.function = function := by
  obtain ⟨inner, frame, hframes, hfunction⟩ := h.frames
  cases inner with
  | nil => exact .inl ⟨frame, hframes, hfunction⟩
  | cons top inner => exact .inr ⟨top, inner, frame, hframes, hfunction⟩

theorem innermost (h : before.Amid function machine) :
    ∃ frame outer, machine.frames = frame :: outer := by
  rcases h.cases with ⟨frame, hframes, -⟩ | ⟨top, inner, frame, hframes, -⟩
  · exact ⟨frame, _, hframes⟩
  · exact ⟨top, _, hframes⟩

/-- As long as the innermost frame stays, the frame of the function does. -/
theorem stays (h : before.Amid function machine) (hframes : machine.frames = frame :: outer)
    (hstays : machine.Stays frame outer after) : before.Amid function after := by
  obtain ⟨changed, hbecomes, hafter⟩ := hstays.frames
  rcases h.cases with ⟨own, hown, hfunction⟩ | ⟨top, inner, own, hown, hfunction⟩
  · obtain ⟨rfl, rfl⟩ := List.cons.inj (hframes.symm.trans hown)
    have hchanged := hbecomes.function.trans hfunction
    exact h.change [] hstays.base hstays.result hafter hchanged
  · obtain ⟨rfl, rfl⟩ := List.cons.inj (hframes.symm.trans hown)
    exact h.change (changed :: inner) hstays.base hstays.result hafter hfunction

theorem enter {callee : CompiledFunction Value} {arguments : List Value}
    (h : before.Amid function machine)
    (henter : Exec.enter setup callee arguments machine = .ok () after) :
    before.Amid function after := by
  obtain ⟨inner, frame, hframes, hfunction⟩ := h.frames
  rw [Exec.enter_ok henter]
  exact h.change (_ :: inner) rfl rfl (congrArg (_ :: ·) hframes) hfunction

/-- A step keeps the frame of the function in its place and the result null, or it ends the frame
with the value that is then the result. -/
theorem step (h : before.Amid function machine)
    (hstep : Exec.step setup machine = .ok .proceed after) :
    before.Amid function after ∨
      before.Closes function machine after.result ∧ after.frames = before.frames := by
  rcases h.cases with ⟨frame, hframes, hfunction⟩ | ⟨top, inner, frame, hframes, hfunction⟩
  · -- The innermost frame is that of the function.
    have hends {value : Value} (hends : machine.Ends frame value) :
        before.Closes function machine after.result ∧ after.frames = before.frames := by
      obtain ⟨ended, hended, hleft, hgiven⟩ := hends.step setup hframes h.base h.result
      rw [hstep] at hended
      cases hended
      exact ⟨⟨frame, hframes, hfunction, hgiven ▸ hends⟩, hleft⟩
    have hadvances := Exec.step_advances setup hframes
    rw [hstep] at hadvances
    cases hadvances with
    | stayed hstays _ => exact .inl (h.stays hframes hstays)
    | entered _ hstays _ henter => exact .inl ((h.stays hframes hstays).enter henter)
    | returned hreturns => exact .inr (hends (.returned hreturns))
    | left hlapses => exact .inr (hends (.lapsed hlapses))
  · -- A return from above gives its value to a caller of the same run.
    have hadvances := Exec.step_advances setup hframes
    rw [hstep] at hadvances
    left
    cases hadvances with
    | stayed hstays _ => exact h.stays hframes hstays
    | entered _ hstays _ henter => exact (h.stays hframes hstays).enter henter
    | returned _ =>
        have hcaller : machine.base < machine.frames.tail.length := by
          rw [hframes, h.base, List.tail_cons, List.length_append, List.length_cons]
          omega
        rw [Machine.returned, if_pos hcaller, hframes]
        exact h.change inner rfl rfl rfl hfunction
    | left _ => exact h.change inner rfl rfl rfl hfunction

/-- The loop of a backend is left with the result that it was entered with. -/
theorem loop {site : Site} {course : EventLoop γ} {ending : Except Fault Unit × γ} {backend : γ}
    (h : before.Amid function machine)
    (hstep : Exec.step setup machine = .ok (.enterLoop site course) middle)
    (hloop : followLoop setup (drain setup fuel) course middle = .done ending after) :
    before.Amid function { after with graphics := .ready backend } := by
  have hrestores := followLoop_restores (drainsBounded setup fuel) course middle
  have hresult := followLoop_result setup (drain setup fuel) course middle
  rw [hloop] at hrestores hresult
  have hmiddle : before.Amid function middle := by
    obtain ⟨frame, outer, hframes⟩ := h.innermost
    have hadvances := Exec.step_advances setup hframes
    rw [hstep] at hadvances
    cases hadvances with
    | lent hstays _ => exact h.stays hframes hstays
  obtain ⟨inner, frame, hframes, hfunction⟩ := hmiddle.frames
  exact hmiddle.change inner hrestores.base hresult (hrestores.frames.trans hframes) hfunction

end Machine.Amid

/-! ### Runs -/

/-- The states on the way of a run have not given the value yet. -/
theorem Onward.amid (h : Onward setup before.frames.length fuel machine left found)
    (hbegins : before.Amid function machine)
    (hgoes : found.hasFramesAbove before.frames.length = true) : before.Amid function found := by
  induction h with
  | refl => exact hbegins
  | step _ hstep hrest ih =>
      rcases hbegins.step hstep with hamid | ⟨-, hframes⟩
      · exact ih hamid hgoes
      · have hended := ended_of_frames hframes
        rw [hrest.eq_of_ended hended, hended] at hgoes
        cases hgoes
  | loop _ hstep hloop _ ih => exact ih (hbegins.loop hstep hloop) hgoes

/-- A run that comes to its end comes to a state in which the frame of the function ends. -/
theorem drain_closes (hbegins : before.Amid function machine)
    (hdrain : drain setup fuel before.frames.length machine = .done () after) :
    ∃ left last, Onward setup before.frames.length fuel machine left last ∧
      before.Closes function last after.result := by
  induction fuel generalizing machine with
  | zero => cases hdrain
  | succ fuel ih =>
      have hround := drain_round setup fuel before.frames.length machine
      rw [hdrain] at hround
      cases hround with
      | ended hends => exact absurd (hends.symm.trans hbegins.goes) nofun
      | proceeds hgoes hstep hrest =>
          rcases hbegins.step hstep with hamid | ⟨hcloses, hframes⟩
          · obtain ⟨left, last, honward, hcloses⟩ := ih hamid hrest
            exact ⟨left, last, .step hgoes hstep honward, hcloses⟩
          · rw [drain_of_ended (ended_of_frames hframes) hrest]
            exact ⟨fuel + 1, machine, .refl, hcloses⟩
      | resumed hgoes hstep hloop hrest =>
          obtain ⟨left, last, honward, hcloses⟩ := ih (hbegins.loop hstep hloop) hrest
          exact ⟨left, last, .loop hgoes hstep hloop honward, hcloses⟩

/-- The state in which the frame of the function ends is the last one of the run. -/
theorem value_of_closes (hamid : before.Amid function machine)
    (hcloses : before.Closes function machine value)
    (hdrain : drain setup fuel before.frames.length machine = .done () after) :
    value = after.result := by
  obtain ⟨frame, hframes, -, hends⟩ := hcloses
  obtain ⟨ended, hstep, hleft, hgiven⟩ := hends.step setup hframes hamid.base hamid.result
  cases fuel with
  | zero => cases hdrain
  | succ fuel =>
      rw [drain_proceeds hamid.goes hstep] at hdrain
      rw [drain_of_ended (ended_of_frames hleft) hdrain, hgiven]

theorem Machine.Amid.begun {arguments : List Value} {entered : Machine σ γ}
    (henter : Exec.enter setup function arguments { before with result := .null } =
      .ok () entered) : before.Amid function (entered.based before.frames.length) := by
  rw [Exec.enter_ok henter]
  exact ⟨rfl, rfl, [], .enter function arguments, rfl, rfl⟩

/-- A run that gives a value comes to one state in which the frame of its own function ends, and
the value is the one with which that frame ends. In every state before it, whatever functions and
handlers have returned by then, the result is null. -/
theorem run_gives_own_value {entry : String} {arguments : List Value}
    (hrun : machine.run setup fuel entry arguments = .done value after) :
    ∃ function entered, setup.program.get? entry = some function ∧
      Exec.enter setup function arguments { machine with result := .null } = .ok () entered ∧
      (∃ left last, Onward setup machine.frames.length fuel
        (entered.based machine.frames.length) left last ∧ machine.Closes function last value) ∧
      ∀ left found, Onward setup machine.frames.length fuel
        (entered.based machine.frames.length) left found →
          (found.hasFramesAbove machine.frames.length = true → machine.Amid function found) ∧
          ∀ given, machine.Closes function found given → given = value := by
  have hends := run_ends setup fuel entry arguments machine
  rw [hrun] at hends
  cases hends with
  | @returned function entered _ hfunction henter hframes =>
      obtain ⟨ended, hdrain, rfl⟩ := drain_of_runFrames hframes
      have hbegins := Machine.Amid.begun henter
      have hclosed := drain_closes hbegins hdrain
      refine ⟨function, entered, hfunction, henter, hclosed,
        fun left found honward => ⟨honward.amid hbegins, fun given hcloses => ?_⟩⟩
      -- The run ends with the step of that frame, so nothing changes the result behind it.
      have hgoes : found.hasFramesAbove machine.frames.length = true := by
        obtain ⟨frame, hframes, -⟩ := hcloses
        rw [hasFramesAbove_iff, hframes]
        exact Nat.lt_succ_self _
      have hvalue := value_of_closes (honward.amid hbegins hgoes) hcloses
        (honward.drain_eq.symm.trans hdrain)
      exact hvalue

/-! ### A handler that returns -/

/-- A compiled program in a rehearsal with graphics that replay a script of events. -/
def Compilation.replaying (compilation : Compilation) (script : List ScriptedEvent) :
    Setup Rehearsal HeadlessGraphics × Machine Rehearsal HeadlessGraphics :=
  let (program, heap) := compilation.functions.link {}
  ({ program, capabilities := Rehearsal.capabilities false false },
    { Machine.rehearsing heap with graphics := .ready { script } })

/-- What a run comes to, and how many frames were shown by then. -/
def Outcome.shown? : Outcome Rehearsal HeadlessGraphics Value → Option (Value × Nat)
  | .done value after =>
      match after.graphics with
      | .ready graphics => some (value, graphics.frames)
      | _ => none
  | _ => none

theorem eq_done_of_shown? {outcome : Outcome Rehearsal HeadlessGraphics Value} {value : Value}
    {frames : Nat} (h : outcome.shown? = some (value, frames)) :
    ∃ after graphics, outcome = .done value after ∧ after.graphics = .ready graphics ∧
      graphics.frames = frames := by
  unfold Outcome.shown? at h
  split at h
  next found after =>
    split at h
    next graphics hgraphics =>
      obtain ⟨rfl, hframes⟩ := Prod.mk.inj (Option.some.inj h)
      exact ⟨after, graphics, rfl, hgraphics, hframes⟩
    next => cases h
  next => cases h

/-- A program whose handler returns a value while its entry waits for the loop to end. -/
def returningClick : SourceUnit where
  id := "clicks.json"
  text := "\x7b\"namespace\": \"M\", \"functions\": [
    \x7b\"name\": \"click\", \"type\": \"int\", \"body\": [\x7b\"return\": 42\x7d]\x7d,
    \x7b\"name\": \"start\", \"type\": \"int\", \"body\": [
      \x7b\"on\": \x7b\"event\": \"click\", \"call\": \x7b\"function\": \"click\"\x7d\x7d\x7d,
      \x7b\"call\": \x7b\"namespace\": \"Gfx\", \"function\": \"RunLoop\"\x7d\x7d,
      \x7b\"return\": 7\x7d]\x7d]\x7d"

set_option maxRecDepth 100000 in
theorem returningClick_gives :
    ∃ (setup : Setup Rehearsal HeadlessGraphics) (machine after last : Machine Rehearsal _)
      (graphics : HeadlessGraphics) (function : CompiledFunction Value) (fuel : Nat),
      machine.run setup fuel "M.start" [] = .done (.int 7) after ∧
        after.graphics = .ready graphics ∧ graphics.frames = 2 ∧
        machine.Closes function last (.int 7) := by
  obtain ⟨compilation, -, -, -, hcheck⟩ := exists_of_compilesTo returningClick
    (fun _ _ compilation =>
      let replay := compilation.replaying [⟨"click", []⟩, ⟨"click", []⟩]
      (replay.2.run replay.1 12 "M.start" []).shown? = some (.int 7, 2)) rfl (by decide +kernel)
  obtain ⟨after, graphics, hrun, hgraphics, hframes⟩ :=
    eq_done_of_shown? (of_decide_eq_true hcheck)
  obtain ⟨function, entered, -, -, ⟨left, last, -, hcloses⟩, -⟩ := run_gives_own_value hrun
  exact ⟨_, _, after, last, graphics, function, 12, hrun, hgraphics, hframes, hcloses⟩

end DocScript
