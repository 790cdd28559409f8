import DocScript.Machine.Step

/-!
# Runs

A run executes instructions until its own frames are done. The loop of a graphics backend dispatches
events from within an instruction, and each handler is a run of its own above the frames of the
others. Whether a program comes to an end is not known in general, so a run is given fuel: with `n`
units of fuel no run, outer or inner, takes more than `n` steps. A run that comes to a computation
without an end never ends, so no fuel is enough for it.
-/

namespace DocScript

/-- How a run ends. -/
inductive Outcome (σ γ α : Type) where
  | done (value : α) (machine : Machine σ γ)
  | faulted (fault : Fault) (machine : Machine σ γ)
  | outOfFuel

/-- How a run goes on at a fault: it ends there, or never if there is a computation without an
end. -/
def Outcome.atFault (fault : Fault) (machine : Machine σ γ) : Outcome σ γ α :=
  if fault.kind = .endless then .outOfFuel else .faulted fault machine

/-- Something that a machine goes through. -/
abbrev Course (σ γ α : Type) := Machine σ γ → Outcome σ γ α

namespace Machine

/-- Takes the rectangles that wait for the end of a dispatch. -/
def takePending (machine : Machine σ γ) : List Rect × Machine σ γ :=
  match machine.graphics with
  | .looping layer device pending =>
      (pending.toList, { machine with graphics := .looping layer device #[] })
  | _ => ([], machine)

/-- Keeps the outermost frames. -/
def truncateFrames (machine : Machine σ γ) (count : Nat) : Machine σ γ :=
  { machine with frames := machine.frames.drop (machine.frames.length - count) }

/-- Keeps the lowest values of the stack. -/
def truncateStack (machine : Machine σ γ) (height : Nat) : Machine σ γ :=
  { machine with stack := machine.stack.drop (machine.stack.length - height) }

/-! ### Runs inside a machine

Here `drain` is the course that executes instructions until only a number of frames is left. -/

variable (setup : Setup σ γ) (drain : Nat → Course σ γ Unit)

/-- Runs the frames above `base`. Afterwards the outer run goes on; a fault drops the frames. -/
def runFrames (base : Nat) : Course σ γ Unit := fun machine =>
  match drain base { machine with base } with
  | .done _ after => .done () { after with base := machine.base }
  | .faulted fault after =>
      .faulted fault ({ after with base := machine.base }.truncateFrames base)
  | .outOfFuel => .outOfFuel

/-- Runs handlers one after the other up to the first fault. Each gets as many arguments as it has
parameters, missing ones being null, and leaves nothing on the stack. -/
def runHandlers (event : String) (arguments : List Value) : List String → Course σ γ Unit
  | [], machine => .done () machine
  | handler :: rest, machine =>
      match setup.program.get? handler with
      | none => .faulted { cause := .unresolved (.handler handler event) } machine
      | some function =>
          let padding := List.replicate (function.paramCount - arguments.length) Value.null
          match Exec.enter setup function (arguments.take function.paramCount ++ padding)
            machine with
          | .error fault machine => .faulted fault machine
          | .ok () entered =>
              match runFrames drain machine.frames.length entered with
              | .done () after =>
                  runHandlers event arguments rest (after.truncateStack machine.stack.length)
              | .faulted fault after => .faulted fault (after.truncateStack machine.stack.length)
              | .outOfFuel => .outOfFuel

/-- Runs the handlers that an event has at this moment. The result of the run in progress is not
theirs to change. -/
def fireWith (event : String) (arguments : List Value) : Course σ γ Unit := fun machine =>
  match runHandlers setup drain event arguments (machine.handlers event)
    { machine with result := .null } with
  | .done () after => .done () { after with result := machine.result }
  | .faulted fault after => .faulted fault { after with result := machine.result }
  | .outOfFuel => .outOfFuel

/-- Fires an event and gives the rectangles that its handlers drew during a loop. -/
def dispatchWith (event : String) (arguments : List Value) : Course σ γ (List Rect) := fun machine =>
  match fireWith setup drain event arguments machine with
  | .done () after =>
      let (drawn, after) := after.takePending
      .done drawn after
  | .faulted fault after => .faulted fault after
  | .outOfFuel => .outOfFuel

/-- Follows a backend through its loop. -/
def followLoop : EventLoop γ → Course σ γ (Except Fault Unit × γ)
  | .finish result backend, machine => .done (result, backend) machine
  | .dispatch event arguments resume, machine =>
      match dispatchWith setup drain event arguments machine with
      | .done drawn after => followLoop (resume (.ok drawn)) after
      | .faulted fault after => followLoop (resume (.error fault)) after
      | .outOfFuel => .outOfFuel

end Machine

namespace Machine

variable (setup : Setup σ γ)

/-- Executes instructions until only the `base` outermost frames are left. -/
def drain : (fuel : Nat) → (base : Nat) → Course σ γ Unit
  | 0, _, _ => .outOfFuel
  | fuel + 1, base, machine =>
      if !machine.hasFramesAbove base then .done () machine
      else
        match Exec.step setup machine with
        | .error fault after => .atFault fault after
        | .ok .proceed after => drain fuel base after
        | .ok (.enterLoop site course) after =>
            match followLoop setup (drain fuel) course after with
            | .outOfFuel => .outOfFuel
            | .faulted fault after => .faulted fault after
            | .done (result, backend) after =>
                let after := { after with graphics := .ready backend }
                match result with
                | .ok () => drain fuel base after
                | .error fault => .atFault (fault.within site) after

/-- Runs a function of the program to its end and gives what it returned, or null. -/
def run (fuel : Nat) (entry : String) (arguments : List Value) : Course σ γ Value := fun machine =>
  match setup.program.get? entry with
  | none => .faulted { cause := .entryNotFound entry } machine
  | some function =>
      match Exec.enter setup function arguments { machine with result := .null } with
      | .error fault machine => .faulted fault machine
      | .ok () entered =>
          match runFrames (drain setup fuel) machine.frames.length entered with
          | .done () after => .done after.result { after with result := .null }
          | .faulted fault after => .faulted fault after
          | .outOfFuel => .outOfFuel

/-- Fires an event: its handlers run one after the other. -/
def fire (fuel : Nat) (event : String) (arguments : List Value) : Course σ γ Unit :=
  fireWith setup (drain setup fuel) event arguments

/-- Fires an event and gives the rectangles that its handlers drew during a loop. -/
def dispatch (fuel : Nat) (event : String) (arguments : List Value) : Course σ γ (List Rect) :=
  dispatchWith setup (drain setup fuel) event arguments

end Machine

end DocScript
