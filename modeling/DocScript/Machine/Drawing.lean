import DocScript.Machine.State
import DocScript.Native

/-!
# Native functions on graphics

The backend is at hand while its loop does not run. During the loop a window cannot be opened and no
second loop begun, but handlers may draw and may ask for the handles.
-/

namespace DocScript

/-- How the machine goes on after an instruction. -/
inductive Signal (γ : Type) where
  | proceed
  /-- The instruction at `site` runs the loop of the backend. -/
  | enterLoop (site : Site) (course : EventLoop γ)

/-- The rectangle of seven numbers; the first argument that is none is at fault. -/
def Rect.ofArguments (arguments : List Value) : Except FaultCause Rect :=
  match arguments.find? (·.float?.isNone) with
  | some misfit => .error (.typeClash (.rect misfit.kind))
  | none =>
      let number (position : Nat) := (arguments[position]?.bind Value.float?).getD .zero
      .ok ⟨number 0, number 1, number 2, number 3, number 4, number 5, number 6⟩

namespace Exec

/-- The fault of a native function for which the backend is not at hand. -/
def noBackend (native : Native) : GraphicsSlot γ → Exec σ γ α
  | .looping .. => fault (.unavailable (.whileLooping native.name))
  | _ => fault (.unavailable (.graphics native.name))

/-- An action of the backend. -/
def onBackend (native : Native) (service : Service γ α) : Exec σ γ α := fun machine =>
  match machine.graphics with
  | .ready backend =>
      match service backend with
      | .ok value backend => .ok value { machine with graphics := .ready backend }
      | .error fault backend => .error fault { machine with graphics := .ready backend }
  | slot => noBackend native slot machine

def openWindow (setup : Setup σ γ) (arguments : List Value) : Exec σ γ Unit :=
  match arguments with
  | [width, height, title] =>
      match width.int?, height.int?, title.string? with
      | some width, some height, some title =>
          onBackend .init (setup.capabilities.graphics.openWindow width height title)
      | _, _, _ => fault (.typeClash .window)
  | _ => fault (.typeClash .window)

/-- Draws a rectangle. During the loop it waits for the end of the dispatch. -/
def drawRect (setup : Setup σ γ) (arguments : List Value) : Exec σ γ Unit := do
  let rect ← ofExcept (Rect.ofArguments arguments)
  match (← get).graphics with
  | .looping .. =>
      modify fun machine =>
        match machine.graphics with
        | .looping layer device pending =>
            { machine with graphics := .looping layer device (pending.push rect) }
        | _ => machine
  | _ => onBackend .drawRect (setup.capabilities.graphics.draw rect)

/-- Hands the backend over to its loop. -/
def runLoop (setup : Setup σ γ) (site : Site) : Exec σ γ (Signal γ) := fun machine =>
  match machine.graphics with
  | .ready backend =>
      let graphics := setup.capabilities.graphics
      .ok (.enterLoop site (graphics.loop backend))
        { machine with graphics := .looping (graphics.layer backend) (graphics.device backend) #[] }
  | slot => noBackend .runLoop slot machine

/-- Pushes a handle of the backend: `ofBackend` asks the backend, `ofLoop` what was kept. -/
def pushHandle (native : Native) (ofBackend : γ → UInt64) (ofLoop : UInt64 → UInt64 → UInt64) :
    Exec σ γ Unit := do
  match (← get).graphics with
  | .ready backend => push (.pointer (ofBackend backend) StaticType.voidPointee)
  | .looping layer device _ => push (.pointer (ofLoop layer device) StaticType.voidPointee)
  | .absent => fault (.unavailable (.graphics native.name))

/-- Calls a native function. -/
def callNative (setup : Setup σ γ) (site : Site) (native : Native) (arguments : List Value) :
    Exec σ γ (Signal γ) := do
  let expected := native.params.length
  if arguments.length ≠ expected then
    fault (.arity (.native native.name expected arguments.length))
  match native with
  | .init => openWindow setup arguments; return .proceed
  | .drawRect => drawRect setup arguments; return .proceed
  | .runLoop => runLoop setup site
  | .getLayer =>
      pushHandle .getLayer setup.capabilities.graphics.layer fun layer _ => layer
      return .proceed
  | .getDevice =>
      pushHandle .getDevice setup.capabilities.graphics.device fun _ device => device
      return .proceed

end Exec

end DocScript
