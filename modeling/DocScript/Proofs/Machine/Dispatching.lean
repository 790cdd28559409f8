import DocScript.Proofs.Machine.FrameBounds
import DocScript.Proofs.Machine.FrameSteps
import DocScript.Proofs.Machine.Registry

/-! # Events run the handlers that they had

The handlers of an event are looked up when it is fired. They run one after the other, each with as
many arguments as it has parameters, up to the first fault. A handler may register others, and so
may all that it calls and the handlers of events within it, but these run when the event is fired
again.
-/

namespace DocScript

open Machine

variable {setup : Setup σ γ} {fuel : Nat} {event : String} {arguments : List Value}
  {machine after found : Machine σ γ} {fault : Option Fault}

/-! ### Machines that are in use -/

theorem Request.Visits.appends {request : Request} (h : request.Visits setup machine found) :
    machine.Appends setup.program found :=
  Custody.holds_of_request (appending_stepwise setup machine) (.of_same rfl) (fun _ _ => trivial)
    (fun _ _ => trivial) h

theorem Request.appends_of_serve {request : Request}
    (hserve : request.serve setup fuel machine = some (fault, after)) :
    machine.Appends setup.program after :=
  Custody.serve_leaves (appending_stepwise setup machine) (.of_same rfl) (fun _ _ => trivial)
    (fun _ _ => trivial) hserve

theorem Dispatches.appends {course : EventLoop γ}
    (h : Dispatches setup course machine event arguments found) :
    machine.Appends setup.program found := by
  have hdispatch {machine : Machine σ γ} {fuel : Nat} {event : String} {arguments : List Value}
      {outcome : Outcome σ γ (List Rect)}
      (hdispatch : dispatchWith setup (drain setup fuel) event arguments machine = outcome) :=
    Custody.passes_of_dispatch (appending_stepwise setup machine) hdispatch (.of_same rfl)
      (fun _ _ => trivial) fun _ _ => trivial
  induction h with
  | here => exact .of_same rfl
  | resumed hdone _ ih => exact (hdispatch hdone).holds.trans ih
  | failed hfault _ ih => exact (hdispatch hfault).holds.trans ih

/-- The states that a machine comes to. It begins without frames and without handlers. Requests are
made of it, between which the host may do what it likes to the heap and to the surroundings, and
steps are taken in the states that they visit. The loop of a backend, which such a step begins,
dispatches events in states of its own. -/
inductive Attained (setup : Setup σ γ) : Machine σ γ → Prop where
  | fresh {machine : Machine σ γ} (hframes : machine.frames = [])
      (hregistrations : machine.registrations = #[]) : Attained setup machine
  | served {machine after : Machine σ γ} {request : Request} {fuel : Nat} {fault : Option Fault}
      (h : Attained setup machine)
      (hserve : request.serve setup fuel machine = some (fault, after)) : Attained setup after
  | hosted {machine : Machine σ γ} {heap : Heap} {graphics : GraphicsSlot γ} {environment : σ}
      (h : Attained setup machine) :
      Attained setup { machine with heap, graphics, environment }
  | visited {machine found : Machine σ γ} {request : Request} (h : Attained setup machine)
      (hvisits : request.Visits setup machine found) : Attained setup found
  | dispatching {machine after found : Machine σ γ} {site : Site} {course : EventLoop γ}
      {event : String} {arguments : List Value} (h : Attained setup machine)
      (hstep : Exec.step setup machine = .ok (.enterLoop site course) after)
      (hdispatches : Dispatches setup course after event arguments found) : Attained setup found

/-- All handlers are functions of the program, whatever the code is. -/
theorem Attained.registered (h : Attained setup machine) : machine.Registered setup.program := by
  induction h with
  | fresh hframes hregistrations =>
      intro registration hmem
      rw [hregistrations] at hmem
      exact absurd hmem (Array.not_mem_empty registration)
  | served _ hserve ih => exact (Request.appends_of_serve hserve).registered ih
  | hosted _ ih => exact ih
  | visited _ hvisits ih => exact hvisits.appends.registered ih
  | @dispatching machine _ _ _ _ _ _ _ hstep hdispatches ih =>
      have hregisters := (Exec.step_registers setup machine).1 _ _ hstep
      exact ((Appends.of_registers hregisters).trans hdispatches.appends).registered ih

/-! ### Handlers one after the other -/

/-- As many arguments as the function has parameters: null stands for those that are missing. -/
def CompiledFunction.fitted (function : CompiledFunction Value) (arguments : List Value) :
    List Value :=
  (List.range function.paramCount).map fun position => arguments[position]?.getD .null

theorem CompiledFunction.length_fitted (function : CompiledFunction Value)
    (arguments : List Value) : (function.fitted arguments).length = function.paramCount := by
  simp [fitted]

theorem CompiledFunction.fitted_eq (function : CompiledFunction Value) (arguments : List Value) :
    function.fitted arguments = arguments.take function.paramCount ++
      List.replicate (function.paramCount - arguments.length) .null := by
  unfold fitted
  generalize function.paramCount = count
  induction count generalizing arguments with
  | zero => simp
  | succ count ih =>
      rw [List.range_succ_eq_map, List.map_cons, List.map_map]
      cases arguments with
      | nil =>
          have hrest := ih []
          simp only [List.getElem?_nil, Option.getD_none, List.take_nil, List.length_nil,
            Nat.sub_zero, List.nil_append] at hrest
          simp [List.replicate_succ, Function.comp_def, hrest]
      | cons argument rest => simp [Function.comp_def, ih rest]

/-- The machine that begins a function. -/
def Machine.entering (machine : Machine σ γ) (function : CompiledFunction Value)
    (arguments : List Value) : Machine σ γ :=
  { machine with frames := .enter function arguments :: machine.frames }

/-- A handler is run: it is a function of the program, which is begun with the arguments that fit it
and runs until its frames are done, or is refused if there are as many frames as there may be.
Afterwards the stack is no higher than before. -/
inductive Handles (setup : Setup σ γ) (fuel : Nat) (arguments : List Value) (handler : String)
    (machine : Machine σ γ) : Option Fault → Machine σ γ → Prop where
  | ran {function : CompiledFunction Value} {fault : Option Fault} {after : Machine σ γ}
      (hfunction : setup.program.get? handler = some function)
      (hshallow : machine.frames.length < setup.callDepthLimit)
      (hrun : (runFrames (drain setup fuel) machine.frames.length
        (machine.entering function (function.fitted arguments))).ending = some (fault, after)) :
      Handles setup fuel arguments handler machine fault
        (after.truncateStack machine.stack.length)
  | refused {function : CompiledFunction Value}
      (hfunction : setup.program.get? handler = some function)
      (hdeep : setup.callDepthLimit ≤ machine.frames.length) :
      Handles setup fuel arguments handler machine
        (some { cause := .callDepth setup.callDepthLimit function.name }) machine

/-- Handlers are run in their order, all of them or up to the first that faults. -/
inductive HandlesAll (setup : Setup σ γ) (fuel : Nat) (arguments : List Value) :
    List String → Machine σ γ → Option Fault → Machine σ γ → Prop where
  | done (machine : Machine σ γ) : HandlesAll setup fuel arguments [] machine none machine
  | next {handler : String} {rest : List String} {machine middle after : Machine σ γ}
      {fault : Option Fault} (hfirst : Handles setup fuel arguments handler machine none middle)
      (hrest : HandlesAll setup fuel arguments rest middle fault after) :
      HandlesAll setup fuel arguments (handler :: rest) machine fault after
  | stops {handler : String} {rest : List String} {machine after : Machine σ γ} {fault : Fault}
      (hfirst : Handles setup fuel arguments handler machine (some fault) after) :
      HandlesAll setup fuel arguments (handler :: rest) machine (some fault) after

section Handlers

variable {handler : String} {handlers : List String} {function : CompiledFunction Value}

theorem enter_of_shallow (function : CompiledFunction Value) (arguments : List Value)
    (hshallow : machine.frames.length < setup.callDepthLimit) :
    Exec.enter setup function (function.fitted arguments) machine =
      .ok () (machine.entering function (function.fitted arguments)) := by
  have hlength := function.length_fitted arguments
  rw [Exec.enter, if_neg (Nat.not_le.2 hshallow), if_neg (not_not_intro hlength)]
  rfl

theorem enter_of_deep (function : CompiledFunction Value) (arguments : List Value)
    (hdeep : setup.callDepthLimit ≤ machine.frames.length) :
    Exec.enter setup function (function.fitted arguments) machine =
      .error { cause := .callDepth setup.callDepthLimit function.name } machine := by
  rw [Exec.enter, if_pos hdeep]
  rfl

/-- A handler gets just the arguments that it takes, so its run begins as it is to. -/
theorem Handles.of_entered {passed : List Value} {entered : Machine σ γ}
    (hfunction : setup.program.get? handler = some function)
    (hpassed : passed = function.fitted arguments)
    (henter : Exec.enter setup function passed machine = .ok () entered)
    (hrun : (runFrames (drain setup fuel) machine.frames.length entered).ending =
      some (fault, after)) :
    Handles setup fuel arguments handler machine fault
      (after.truncateStack machine.stack.length) := by
  have hshallow := Exec.depth_of_enter henter
  rw [hpassed, enter_of_shallow function arguments hshallow] at henter
  cases henter
  exact .ran hfunction hshallow hrun

/-- If all handlers are functions of the program, then what they come to is what they come to one
after the other. -/
theorem HandlesAll.of_ending (event : String)
    (hknown : ∀ handler ∈ handlers, setup.program.contains handler = true)
    (h : (runHandlers setup (drain setup fuel) event arguments handlers machine).ending =
      some (fault, after)) : HandlesAll setup fuel arguments handlers machine fault after := by
  induction handlers generalizing machine with
  | nil =>
      cases h
      exact .done _
  | cons handler rest ih =>
      obtain ⟨hhandler, hrest⟩ := List.forall_mem_cons.1 hknown
      have hends := handlers_end setup (drain setup fuel) event arguments handler rest machine
      generalize runHandlers setup (drain setup fuel) event arguments (handler :: rest) machine =
        outcome at h hends
      cases hends with
      | missing hfunction =>
          rw [FunctionTable.contains_eq, hfunction] at hhandler
          cases hhandler
      | @refused function _ _ hfunction hpassed henter =>
          rw [hpassed, ← function.fitted_eq] at henter
          rcases Nat.lt_or_ge machine.frames.length setup.callDepthLimit with hshallow | hdeep
          · rw [enter_of_shallow function arguments hshallow] at henter
            cases henter
          · rw [enter_of_deep function arguments hdeep] at henter
            cases henter
            cases h
            exact .stops (.refused hfunction hdeep)
      | starved => cases h
      | @failed function _ _ _ _ hfunction hpassed henter hrun =>
          cases h
          rw [← function.fitted_eq] at hpassed
          exact .stops (.of_entered hfunction hpassed henter (by rw [hrun]; rfl))
      | @passed function _ _ _ _ hfunction hpassed henter hrun hlater =>
          subst hlater
          rw [← function.fitted_eq] at hpassed
          exact .next (.of_entered hfunction hpassed henter (by rw [hrun]; rfl)) (ih hrest h)

theorem HandlesAll.ending_eq (event : String)
    (h : HandlesAll setup fuel arguments handlers machine fault after) :
    (runHandlers setup (drain setup fuel) event arguments handlers machine).ending =
      some (fault, after) := by
  induction h with
  | done => rfl
  | next hfirst _ ih =>
      cases hfirst with
      | @ran function _ last hfunction hshallow hrun =>
          rw [(HandlersEnd.passed hfunction (function.fitted_eq arguments)
            (enter_of_shallow function arguments hshallow) (Outcome.of_ending hrun)
            rfl).runHandlers_eq]
          exact ih
  | stops hfirst =>
      cases hfirst with
      | @ran function _ last hfunction hshallow hrun =>
          rw [(HandlersEnd.failed hfunction (function.fitted_eq arguments)
            (enter_of_shallow function arguments hshallow) (Outcome.of_ending hrun)).runHandlers_eq]
          rfl
      | @refused function hfunction hdeep =>
          rw [(HandlersEnd.refused hfunction (function.fitted_eq arguments)
            (enter_of_deep function arguments hdeep) rfl).runHandlers_eq]
          rfl

end Handlers

/-! ### Events -/

/-- An event is fired: the handlers that it has now are run, and the result of the run in progress
stays as it was. -/
def Machine.Fires (machine : Machine σ γ) (setup : Setup σ γ) (fuel : Nat) (event : String)
    (arguments : List Value) (fault : Option Fault) (after : Machine σ γ) : Prop :=
  ∃ last, HandlesAll setup fuel arguments (machine.handlers event) { machine with result := .null }
    fault last ∧ after = { last with result := machine.result }

theorem Machine.Registered.contains (h : machine.Registered setup.program) (event : String) :
    ∀ handler ∈ machine.handlers event, setup.program.contains handler = true := by
  intro handler hmem
  obtain ⟨registration, hregistration, hhandler⟩ := List.mem_filterMap.1 hmem
  have hcontains := h registration (Array.mem_toList_iff.1 hregistration)
  split at hhandler
  · cases hhandler
    exact hcontains
  · cases hhandler

theorem ending_fire (machine : Machine σ γ) :
    (machine.fire setup fuel event arguments).ending =
      (runHandlers setup (drain setup fuel) event arguments (machine.handlers event)
        { machine with result := .null }).ending.map fun (fault, last) =>
          (fault, { last with result := machine.result }) := by
  unfold Machine.fire fireWith
  cases runHandlers setup (drain setup fuel) event arguments (machine.handlers event)
    { machine with result := .null } <;> rfl

theorem ending_dispatch (machine : Machine σ γ) :
    (machine.dispatch setup fuel event arguments).ending =
      (machine.fire setup fuel event arguments).ending.map fun (fault, last) =>
        (fault, if fault.isNone then last.takePending.2 else last) := by
  unfold Machine.dispatch dispatchWith Machine.fire
  cases fireWith setup (drain setup fuel) event arguments machine <;> rfl

theorem Machine.Registered.fire_iff (h : machine.Registered setup.program) :
    (machine.fire setup fuel event arguments).ending = some (fault, after) ↔
      machine.Fires setup fuel event arguments fault after := by
  rw [ending_fire, Option.map_eq_some_iff]
  constructor
  · rintro ⟨⟨_, last⟩, hending, hafter⟩
    cases hafter
    exact ⟨last, .of_ending event (h.contains event) hending, rfl⟩
  · rintro ⟨last, hall, rfl⟩
    exact ⟨(fault, last), hall.ending_eq event, rfl⟩

/-- A dispatch by the loop of a backend fires the event as well, and takes what was drawn if no
handler has failed. -/
theorem Machine.Registered.dispatch_iff (h : machine.Registered setup.program) :
    (machine.dispatch setup fuel event arguments).ending = some (fault, after) ↔
      ∃ last, machine.Fires setup fuel event arguments fault last ∧
        after = if fault.isNone then last.takePending.2 else last := by
  rw [ending_dispatch, Option.map_eq_some_iff]
  constructor
  · rintro ⟨⟨_, last⟩, hending, hafter⟩
    cases hafter
    exact ⟨last, h.fire_iff.1 hending, rfl⟩
  · rintro ⟨last, hfires, rfl⟩
    exact ⟨(fault, last), h.fire_iff.2 hfires, rfl⟩

/-- While handlers run, the frame above those that there were is that of one of them. -/
theorem HandlerVisits.frameOf {handlers : List String}
    (h : HandlerVisits setup event arguments handlers machine found) :
    found.FrameAt machine.frames.length fun frame =>
      ∃ handler ∈ handlers, setup.program.get? handler = some frame.function := by
  induction handlers generalizing machine with
  | nil => cases h
  | cons handler rest ih =>
      cases h with
      | @first _ _ _ _ _ _ _ entered _ hfunction henter _ hrun =>
          -- The frame may go on in its function, but it stays a frame of that function.
          have hkeeps : Frame.Keeps fun frame =>
              setup.program.get? handler = some frame.function := by
            intro frame changed op operand hframe _ hevolves
            rw [hframe, hevolves.function]
          have hframes := frames_of_enter henter
          have hentered : (entered.based machine.frames.length).FrameAt machine.frames.length
              fun frame => setup.program.get? handler = some frame.function :=
            ⟨[], _, machine.frames, hframes, rfl, hfunction⟩
          exact (hrun.frameAt hkeeps (Nat.le_refl _) hentered).imp fun frame hframe =>
            ⟨handler, List.mem_cons_self, hframe⟩
      | later hfunction henter _ hrun hrest =>
          have hlater := ih hrest
          have hframes := frames_of_handler henter hrun
          have hsame : (truncateStack _ machine.stack.length).frames.length =
            machine.frames.length := congrArg List.length hframes
          rw [hsame] at hlater
          refine hlater.imp fun frame hframe => ?_
          obtain ⟨other, hmem, hother⟩ := hframe
          exact ⟨other, List.mem_cons_of_mem _ hmem, hother⟩

/-- An event runs the handlers that it has when it is fired, whatever the code is. All of them are
functions of the program, in every state that a machine comes to. They are run in the order of their
registration, each with as many arguments as it has parameters, up to the first that faults, and the
fault is that of the event. The loop of a backend fires events in the same way. Meanwhile it is one
of these handlers that runs above the frames that there were. What is registered then, by a handler
or by what runs within it, comes behind all that had been registered, so it is not run before the
event is fired again. -/
theorem events_run_snapshot (h : Attained setup machine) :
    machine.Registered setup.program ∧
      ∀ (fuel : Nat) (event : String) (arguments : List Value),
        (∀ fault after,
          (Request.fire event arguments).serve setup fuel machine = some (fault, after) ↔
            machine.Fires setup fuel event arguments fault after) ∧
        (∀ fault after,
          (machine.dispatch setup fuel event arguments).ending = some (fault, after) ↔
            ∃ last, machine.Fires setup fuel event arguments fault last ∧
              after = if fault.isNone then last.takePending.2 else last) ∧
        (∀ found, (Request.fire event arguments).Visits setup machine found →
          machine.Appends setup.program found ∧
            found.FrameAt machine.frames.length fun frame =>
              ∃ handler ∈ machine.handlers event,
                setup.program.get? handler = some frame.function) ∧
        ∀ fault after, machine.Fires setup fuel event arguments fault after →
          machine.Appends setup.program after ∧
            ∀ other, machine.handlers other <+: after.handlers other := by
  have hregistered := h.registered
  refine ⟨hregistered, fun fuel event arguments => ⟨fun _ _ => hregistered.fire_iff,
    fun _ _ => hregistered.dispatch_iff, fun found hvisits => ⟨hvisits.appends, ?_⟩,
    fun fault after hfires => ?_⟩⟩
  · cases hvisits with
    | fire hhandlers => exact hhandlers.frameOf
  · have hserve : (Request.fire event arguments).serve setup fuel machine = some (fault, after) :=
      hregistered.fire_iff.2 hfires
    -- Handlers are only ever added behind those that are there.
    have happends := Request.appends_of_serve hserve
    exact ⟨happends, happends.handlers⟩

/-- A function that registers itself for an event and prints its second argument. -/
def renewing : CompiledFunction Constant where
  name := "M.again"
  code := #[Opcode.pushConst.byte, 0, 0, Opcode.pushConst.byte, 1, 0, Opcode.onEvent.byte,
    Opcode.loadLocal.byte, 1, 0, Opcode.print.byte, Opcode.halt.byte]
  constants := #[.scalar (.string "tick"), .scalar (.string "M.again")]
  localCount := 2
  paramCount := 2

/-- The machine after a first request and after a second one, if both go well. -/
def Machine.servedTwice (machine : Machine σ γ) (setup : Setup σ γ) (fuel : Nat)
    (first second : Request) : Option (Machine σ γ × Machine σ γ) :=
  match first.serve setup fuel machine with
  | some (none, middle) =>
      match second.serve setup fuel middle with
      | some (none, after) => some (middle, after)
      | _ => none
  | _ => none

theorem serve_of_servedTwice {middle : Machine σ γ} {first second : Request}
    (h : machine.servedTwice setup fuel first second = some (middle, after)) :
    first.serve setup fuel machine = some (none, middle) ∧
      second.serve setup fuel middle = some (none, after) := by
  unfold Machine.servedTwice at h
  split at h
  next hfirst =>
    split at h
    next hsecond =>
      cases h
      exact ⟨hfirst, hsecond⟩
    next => cases h
  next => cases h

set_option maxRecDepth 100000 in
/-- The handler is run once, with null for the argument that is missing, although it registers
itself again. -/
theorem renewing_fires :
    ∃ (setup : Setup Rehearsal HeadlessGraphics) (machine after : Machine Rehearsal _) (fuel : Nat),
      Attained setup machine ∧ machine.handlers "tick" = ["M.again"] ∧
        machine.Fires setup fuel "tick" [.int 5] none after ∧
        after.handlers "tick" = ["M.again", "M.again"] ∧
        after.environment.transcript.texts = #["2", "null"] := by
  let setup : Setup Rehearsal HeadlessGraphics :=
    { program := ((FunctionTable.ofList [renewing]).link {}).1
      capabilities := Rehearsal.capabilities false false }
  let start := Machine.rehearsing ((FunctionTable.ofList [renewing]).link {}).2
  have hcheck : ((start.servedTwice setup 8 (.run "M.again" [.int 1, .int 2])
      (.fire "tick" [.int 5])).any fun (machine, after) =>
        machine.handlers "tick" = ["M.again"] ∧
          after.handlers "tick" = ["M.again", "M.again"] ∧
          after.environment.transcript.texts = #["2", "null"]) = true := by decide +kernel
  obtain ⟨⟨machine, after⟩, hserved, hafter⟩ := (Option.any_eq_true _ _).1 hcheck
  obtain ⟨hrun, hfire⟩ := serve_of_servedTwice hserved
  obtain ⟨hhandlers, hmore, htexts⟩ := of_decide_eq_true hafter
  have hattained : Attained setup machine := .served (.fresh rfl rfl) hrun
  have hfires := ((events_run_snapshot hattained).2 8 "tick" [.int 5]).1 none after
  exact ⟨setup, machine, after, 8, hattained, hhandlers, hfires.1 hfire, hmore, htexts⟩

end DocScript
