import DocScript.Machine.Capability
import DocScript.Machine.Program

/-!
# The state of a machine

A machine runs functions in frames that share one stack of operands. `Exec` is the type of what an
instruction does: it changes the state and may fault, and the state that it leaves behind then is
the one it had reached.
-/

namespace DocScript

/-- A function that is being run: the offset of its next instruction, and its locals. -/
structure Frame where
  function : CompiledFunction Value
  offset : Nat := 0
  locals : Array Value
  deriving DecidableEq, Inhabited, Repr

/-- The frame in which a function begins: the arguments are its first locals, all others null. -/
def Frame.enter (function : CompiledFunction Value) (arguments : List Value) : Frame where
  function
  locals :=
    (arguments ++ List.replicate (function.localCount - arguments.length) Value.null).toArray

/-- The graphics of a machine. While the loop of a backend runs, the backend holds its state alone;
the handles are kept for the program, and what handlers draw waits for the end of their dispatch. -/
inductive GraphicsSlot (γ : Type) where
  | absent
  | ready (backend : γ)
  | looping (layer device : UInt64) (pending : Array Rect)
  deriving Inhabited

/-- A handler of an event. -/
structure Registration where
  event : String
  handler : String
  deriving DecidableEq, Inhabited, Repr

/-- The state of a machine.

The innermost frame and the top of the stack come first. `base` is the number of frames that belong
to outer runs, and `result` is what the run in progress has returned. The handlers stand in the
order of their registration. -/
structure Machine (σ γ : Type) where
  frames : List Frame := []
  stack : List Value := []
  heap : Heap
  registrations : Array Registration := #[]
  base : Nat := 0
  result : Value := .null
  graphics : GraphicsSlot γ
  environment : σ

/-- Whether there are frames besides the `count` outermost ones. No more than `count` frames are
looked at. -/
def Machine.hasFramesAbove (machine : Machine σ γ) (count : Nat) : Bool :=
  !(machine.frames.drop count).isEmpty

theorem Machine.hasFramesAbove_iff (machine : Machine σ γ) (count : Nat) :
    machine.hasFramesAbove count = true ↔ count < machine.frames.length := by
  simp [hasFramesAbove]

/-- The handlers of an event in the order of their registration. -/
def Machine.handlers (machine : Machine σ γ) (event : String) : List String :=
  machine.registrations.toList.filterMap fun registration =>
    if registration.event = event then some registration.handler else none

/-- What a machine is built from: the functions that it runs, how many frames it may have, and what
it reaches outside. -/
structure Setup (σ γ : Type) where
  program : Program
  callDepthLimit : Nat := 128
  capabilities : Capabilities σ γ

/-- An action of the machine. -/
abbrev Exec (σ γ α : Type) := EStateM Fault (Machine σ γ) α

namespace Exec

/-- Ends the run. -/
def fault (cause : FaultCause) : Exec σ γ α := throw { cause }

/-- An action that reports its faults as those of an instruction. -/
def within (site : Site) (action : Exec σ γ α) : Exec σ γ α := fun machine =>
  match action machine with
  | .ok value machine => .ok value machine
  | .error fault machine => .error (fault.within site) machine

/-- Takes the value of a computation that may fail. -/
def ofExcept : Except FaultCause α → Exec σ γ α
  | .ok value => pure value
  | .error cause => fault cause

/-- An action on the surroundings of the machine. -/
def outside (service : Service σ α) : Exec σ γ α := fun machine =>
  match service machine.environment with
  | .ok value environment => .ok value { machine with environment }
  | .error fault environment => .error fault { machine with environment }

/-- An action on the surroundings of the machine that also reaches the arrays of the program. -/
def outsideWithHeap (service : Service (σ × Heap) α) : Exec σ γ α := fun machine =>
  match service (machine.environment, machine.heap) with
  | .ok value (environment, heap) => .ok value { machine with environment, heap }
  | .error fault (environment, heap) => .error fault { machine with environment, heap }

/-! ### The stack -/

def push (value : Value) : Exec σ γ Unit :=
  modify fun machine => { machine with stack := value :: machine.stack }

/-- Takes the value on top of the stack, if there is one. -/
def pop? : Exec σ γ (Option Value) := fun machine =>
  match machine.stack with
  | [] => .ok none machine
  | value :: stack => .ok (some value) { machine with stack }

/-- Takes the value on top of the stack. -/
def pop (shortage : Shortage) : Exec σ γ Value := do
  match ← pop? with
  | some value => return value
  | none => fault (.underflow shortage)

/-- Takes a number of values from the stack and gives them in the order in which they were
pushed. With too few of them the stack stays as it is. -/
def popMany (count : Nat) (shortage : Shortage) : Exec σ γ (List Value) := fun machine =>
  let values := machine.stack.take count
  if values.length = count then
    .ok values.reverse { machine with stack := machine.stack.drop count }
  else .error { cause := .underflow shortage } machine

/-- Takes a string that is an operand of an instruction. -/
def popText (op : Opcode) : Exec σ γ String := do
  match ← pop (.top op) with
  | .string text => return text
  | other => fault (.typeClash (.text op other.kind))

/-! ### Frames -/

/-- Changes the innermost frame. -/
def modifyFrame (change : Frame → Frame) : Exec σ γ Unit :=
  modify fun machine =>
    match machine.frames with
    | [] => machine
    | frame :: frames => { machine with frames := change frame :: frames }

/-- Goes on at an offset of the innermost function. -/
def goTo (offset : Nat) : Exec σ γ Unit := modifyFrame ({ · with offset })

/-- The locals of the innermost frame. -/
def locals : Exec σ γ (Array Value) := do
  return ((← get).frames.head?.map Frame.locals).getD #[]

/-- Leaves the innermost frame. -/
def leave : Exec σ γ Unit :=
  modify fun machine => { machine with frames := machine.frames.tail }

end Exec

end DocScript
