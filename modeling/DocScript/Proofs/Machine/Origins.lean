import DocScript.Proofs.Machine.Activations
import DocScript.Proofs.Machine.Requests

/-! # Where frames come from

A frame begins where a request enters its function, where an instruction calls a function, or where
a handler of an event is entered, be it that the host fires the event or that a loop dispatches it.
In every state of a run each frame has begun in one of these ways, and has not ended since.
-/

namespace DocScript

open Machine

/-- A frame of the function begins in the state with what the handler is passed, after the handlers
before it have run. -/
inductive HandlerBegins (setup : Setup σ γ) (event : String) (arguments : List Value)
    (function : CompiledFunction Value) (passed : List Value) (entered : Machine σ γ) :
    List String → Machine σ γ → Prop where
  | first {handler : String} {rest : List String} {machine middle : Machine σ γ}
      (hfunction : setup.program.get? handler = some function)
      (henter : Exec.enter setup function passed machine = .ok () middle)
      (hpassed : passed = arguments.take function.paramCount ++
        List.replicate (function.paramCount - arguments.length) Value.null)
      (hentered : entered = middle.based machine.frames.length) :
      HandlerBegins setup event arguments function passed entered (handler :: rest) machine
  | later {handler : String} {rest : List String} {machine middle after : Machine σ γ}
      {other : CompiledFunction Value} {given : List Value} {fuel : Nat}
      (hfunction : setup.program.get? handler = some other)
      (henter : Exec.enter setup other given machine = .ok () middle)
      (hgiven : given = arguments.take other.paramCount ++
        List.replicate (other.paramCount - arguments.length) Value.null)
      (hrun : runFrames (drain setup fuel) machine.frames.length middle = .done () after)
      (h : HandlerBegins setup event arguments function passed entered rest
        (after.truncateStack machine.stack.length)) :
      HandlerBegins setup event arguments function passed entered (handler :: rest) machine

/-- A frame of the function begins in the state with the arguments, because a visited state calls
the function or enters a loop in which it handles an event. -/
inductive Begins (setup : Setup σ γ) (visited : Machine σ γ → Prop)
    (function : CompiledFunction Value) (arguments : List Value) (entered : Machine σ γ) :
    Prop where
  | called {calling : Machine σ γ} {frame : Frame} {outer : List Frame} (h : visited calling)
      (hstep : Exec.step setup calling = .ok .proceed entered)
      (henters : Enters setup calling entered frame outer function arguments)
      (hcount : arguments.length = function.paramCount)
  | dispatched {calling middle state : Machine σ γ} {site : Site} {course : EventLoop γ}
      {event : String} {given : List Value} (h : visited calling)
      (hstep : Exec.step setup calling = .ok (.enterLoop site course) middle)
      (hdispatches : Dispatches setup course middle event given state)
      (hhandler : HandlerBegins setup event given function arguments entered (state.handlers event)
        { state with result := .null })

/-- A frame of the function begins in the state with the arguments while the machine serves the
request. -/
inductive Request.Begins (setup : Setup σ γ) (machine : Machine σ γ) :
    Request → CompiledFunction Value → List Value → Machine σ γ → Prop where
  | run {entry : String} {arguments : List Value} {function : CompiledFunction Value}
      {entered : Machine σ γ} (hfunction : setup.program.get? entry = some function)
      (henter : Exec.enter setup function arguments { machine with result := .null } =
        .ok () entered) :
      Begins setup machine (.run entry arguments) function arguments
        (entered.based machine.frames.length)
  | fire {event : String} {arguments passed : List Value} {function : CompiledFunction Value}
      {entered : Machine σ γ}
      (h : HandlerBegins setup event arguments function passed entered (machine.handlers event)
        { machine with result := .null }) :
      Begins setup machine (.fire event arguments) function passed entered
  | within {request : Request} {function : CompiledFunction Value} {arguments : List Value}
      {entered : Machine σ γ}
      (h : DocScript.Begins setup (request.Visits setup machine) function arguments entered) :
      Begins setup machine request function arguments entered

/-- The frame above a number of others has just begun in the one state, and it has not ended on the
way to the other. -/
structure Lives (setup : Setup σ γ) (depth : Nat) (function : CompiledFunction Value)
    (arguments : List Value) (entered found : Machine σ γ) : Prop where
  begins : ∃ below, entered.frames = .enter function arguments :: below ∧ below.length = depth
  visits : Visits setup depth entered found

variable {setup : Setup σ γ} {function : CompiledFunction Value} {arguments : List Value}
  {machine entered found : Machine σ γ} {depth : Nat}

theorem Begins.imp {visited others : Machine σ γ → Prop}
    (h : Begins setup visited function arguments entered)
    (himp : ∀ state, visited state → others state) :
    Begins setup others function arguments entered := by
  cases h with
  | called h hstep henters hcount => exact .called (himp _ h) hstep henters hcount
  | dispatched h hstep hdispatches hhandler =>
      exact .dispatched (himp _ h) hstep hdispatches hhandler

/-! ### What begins -/

/-- A function of the program begins, with an argument for each of its parameters. -/
structure Starts (setup : Setup σ γ) (function : CompiledFunction Value) (arguments : List Value) :
    Prop where
  known : ∃ name, setup.program.get? name = some function
  count : arguments.length = function.paramCount

theorem HandlerBegins.starts {event : String} {given : List Value} {handlers : List String}
    (h : HandlerBegins setup event given function arguments entered handlers machine) :
    Starts setup function arguments := by
  induction h with
  | first hfunction henter _ _ => exact ⟨⟨_, hfunction⟩, Exec.length_of_enter henter⟩
  | later _ _ _ _ _ ih => exact ih

theorem Request.Begins.starts {request : Request}
    (h : request.Begins setup machine function arguments entered) :
    Starts setup function arguments := by
  cases h with
  | run hfunction henter => exact ⟨⟨_, hfunction⟩, Exec.length_of_enter henter⟩
  | fire h => exact h.starts
  | within h =>
      cases h with
      | called _ _ henters hcount => exact ⟨⟨_, henters.known⟩, hcount⟩
      | dispatched _ _ _ hhandler => exact hhandler.starts

/-! ### Each frame has begun -/

theorem Lives.of_enter
    (henter : Exec.enter setup function arguments machine = .ok () entered)
    (hnew : machine.frames.length ≤ depth)
    (hvisits : Visits setup depth (entered.based machine.frames.length) found) :
    Lives setup depth function arguments (entered.based machine.frames.length) found := by
  have hframes : (entered.based machine.frames.length).frames =
      .enter function arguments :: machine.frames := by
    rw [Exec.enter_ok henter]
    rfl
  have habove := hvisits.goes
  rw [hframes, List.length_cons] at habove
  exact ⟨⟨_, hframes, by omega⟩, hvisits⟩

mutual

/-- A frame was there from the beginning of a run on, or it has begun on the way. -/
theorem Visits.origin {base : Nat} {machine found : Machine σ γ}
    (h : Visits setup base machine found) (hdepth : depth < found.frames.length) :
    Visits setup depth machine found ∨ ∃ function arguments entered,
      Begins setup (Visits setup base machine) function arguments entered ∧
        Lives setup depth function arguments entered found := by
  match h with
  | .here _ => exact .inl (.here ((hasFramesAbove_iff _ depth).2 hdepth))
  | .next hgoes hstep hafter =>
      rcases Visits.origin hafter hdepth with
        hvisits | ⟨function, arguments, entered, hbegins, hlives⟩
      · by_cases hthere : depth < machine.frames.length
        · exact .inl (.next ((hasFramesAbove_iff machine depth).2 hthere) hstep hvisits)
        -- The step that first reaches the depth is the call that begins the frame.
        · have habove := hvisits.goes
          obtain ⟨-, -, hgrows⟩ := length_of_step hgoes hstep
          have hbegun : Begun setup depth machine _ found := ⟨hstep, by omega, by omega, hvisits⟩
          obtain ⟨frame, outer, function, arguments, henters, hcount⟩ := hbegun.enters
          have hlength := hbegun.above
          rw [henters.begins, List.length_cons] at hlength
          exact .inr ⟨function, arguments, _, .called (.here hgoes) hstep henters hcount,
            ⟨_, henters.begins, Nat.succ.inj hlength⟩, hvisits⟩
      · exact .inr ⟨function, arguments, entered, hbegins.imp fun _ => .next hgoes hstep, hlives⟩
  | .inside hgoes hstep hloop =>
      rcases LoopVisits.origin hloop hdepth with
        hthere | ⟨function, arguments, entered, hbegins, hlives⟩
      · rw [length_of_enterLoop hgoes hstep] at hthere
        exact .inl (.inside ((hasFramesAbove_iff machine depth).2 hthere) hstep hloop)
      · refine .inr ⟨function, arguments, entered, ?_, hlives⟩
        rcases hbegins with ⟨event, given, state, hdispatches, hhandler⟩ | hwithin
        · exact .dispatched (.here hgoes) hstep hdispatches hhandler
        · exact hwithin.imp fun _ => .inside hgoes hstep
  | .behind hgoes hstep hloop hafter =>
      rcases Visits.origin hafter hdepth with
        hvisits | ⟨function, arguments, entered, hbegins, hlives⟩
      · -- The loop has left the frames alone, so the frame was there before.
        have hthere : depth < machine.frames.length := by
          have hlast := hvisits.goes
          have hloops := length_of_enterLoop hgoes hstep
          obtain ⟨hframes, -⟩ := length_of_layout (layout_of_followLoop hloop)
          exact hloops ▸ hframes ▸ hlast
        exact .inl (.behind ((hasFramesAbove_iff machine depth).2 hthere) hstep hloop hvisits)
      · exact .inr ⟨function, arguments, entered,
          hbegins.imp fun _ => .behind hgoes hstep hloop, hlives⟩

theorem LoopVisits.origin {course : EventLoop γ} {machine found : Machine σ γ}
    (h : LoopVisits setup course machine found) (hdepth : depth < found.frames.length) :
    depth < machine.frames.length ∨ ∃ function arguments entered,
      ((∃ event given state, Dispatches setup course machine event given state ∧
          HandlerBegins setup event given function arguments entered (state.handlers event)
            { state with result := .null }) ∨
        Begins setup (LoopVisits setup course machine) function arguments entered) ∧
        Lives setup depth function arguments entered found := by
  match h with
  | .handlers hhandlers =>
      refine (HandlerVisits.origin hhandlers hdepth).imp_right
        fun ⟨function, arguments, entered, hbegins, hlives⟩ =>
          ⟨function, arguments, entered, ?_, hlives⟩
      exact hbegins.imp (fun hhandler => ⟨_, _, machine, .here, hhandler⟩)
        fun hwithin => hwithin.imp fun _ => .handlers
  | .resumed hdispatch hrest =>
      have hsame := length_of_dispatch hdispatch fun _ h => h
      rw [← hsame]
      refine (LoopVisits.origin hrest hdepth).imp_right
        fun ⟨function, arguments, entered, hbegins, hlives⟩ =>
          ⟨function, arguments, entered, ?_, hlives⟩
      exact hbegins.imp
        (fun ⟨event, given, state, hdispatches, hhandler⟩ =>
          ⟨event, given, state, .resumed hdispatch hdispatches, hhandler⟩)
        fun hwithin => hwithin.imp fun _ => .resumed hdispatch
  | .failed hdispatch hrest =>
      have hsame := length_of_dispatch hdispatch fun _ h => h
      rw [← hsame]
      refine (LoopVisits.origin hrest hdepth).imp_right
        fun ⟨function, arguments, entered, hbegins, hlives⟩ =>
          ⟨function, arguments, entered, ?_, hlives⟩
      exact hbegins.imp
        (fun ⟨event, given, state, hdispatches, hhandler⟩ =>
          ⟨event, given, state, .failed hdispatch hdispatches, hhandler⟩)
        fun hwithin => hwithin.imp fun _ => .failed hdispatch

theorem HandlerVisits.origin {event : String} {given : List Value} {handlers : List String}
    {machine found : Machine σ γ} (h : HandlerVisits setup event given handlers machine found)
    (hdepth : depth < found.frames.length) :
    depth < machine.frames.length ∨ ∃ function arguments entered,
      (HandlerBegins setup event given function arguments entered handlers machine ∨
        Begins setup (HandlerVisits setup event given handlers machine) function arguments
          entered) ∧
        Lives setup depth function arguments entered found := by
  match h with
  | .first hfunction henter hpassed hrun =>
      rcases Visits.origin hrun hdepth with
        hvisits | ⟨function, arguments, entered, hbegins, hlives⟩
      -- The only frame of the run above the others is the one in which the handler begins.
      · rcases Nat.lt_or_ge depth machine.frames.length with hthere | hnew
        · exact .inl hthere
        · exact .inr ⟨_, _, _, .inl (.first hfunction henter hpassed rfl),
            .of_enter henter hnew hvisits⟩
      · exact .inr ⟨function, arguments, entered,
          .inr (hbegins.imp fun _ => .first hfunction henter hpassed), hlives⟩
  | .later hfunction henter hpassed hrun hrest =>
      have hsame := (length_of_layout (layout_of_handler henter hrun)).1
      rw [← hsame]
      refine (HandlerVisits.origin hrest hdepth).imp_right
        fun ⟨function, arguments, entered, hbegins, hlives⟩ =>
          ⟨function, arguments, entered, ?_, hlives⟩
      exact hbegins.imp (.later hfunction henter hpassed hrun)
        fun hwithin => hwithin.imp fun _ => .later hfunction henter hpassed hrun

end

/-- While a machine serves a request, each frame above those that were there has begun in one of the
ways that there are, and has not ended since. -/
theorem Request.Visits.origin {request : Request} (h : request.Visits setup machine found)
    (hbelow : machine.frames.length ≤ depth) (hdepth : depth < found.frames.length) :
    ∃ function arguments entered, request.Begins setup machine function arguments entered ∧
      Lives setup depth function arguments entered found := by
  cases h with
  | run hfunction henter hvisits =>
      rcases hvisits.origin hdepth with hthere | ⟨function, arguments, entered, hbegins, hlives⟩
      · have hlives := Lives.of_enter henter hbelow hthere
        exact ⟨_, _, _, .run hfunction henter, hlives⟩
      · exact ⟨function, arguments, entered,
          .within (hbegins.imp fun _ => .run hfunction henter), hlives⟩
  | fire hvisits =>
      rcases hvisits.origin hdepth with hthere | ⟨function, arguments, entered, hbegins, hlives⟩
      · exact absurd hthere (Nat.not_lt_of_ge hbelow)
      · refine ⟨function, arguments, entered, ?_, hlives⟩
        exact hbegins.elim .fire fun hwithin => .within (hwithin.imp fun _ => .fire)

end DocScript
