import DocScript.Machine.Fault
import DocScript.Value.Heap

/-!
# Capabilities

What a running program reaches outside of the machine. The host, foreign functions and memory share
a state `σ`; a graphics backend has a state `γ` of its own, which it alone holds while its loop
runs. A capability may fail with a fault and may change its state even then.
-/

namespace DocScript

/-- An action on a state that may fail. -/
abbrev Service (σ α : Type) := EStateM Fault σ α

/-- An argument of a foreign call: the type it is passed as, and its value. -/
structure ForeignArgument where
  tag : String
  value : Value
  deriving DecidableEq, Inhabited, Repr

/-- A call of a foreign function. -/
structure ForeignCall where
  lib : String
  symbol : String
  arguments : List ForeignArgument
  returns : String
  deriving DecidableEq, Inhabited, Repr

/-- Foreign functions. They see the arrays of the program, may change them and may make new ones. -/
structure ForeignInterface (σ : Type) where
  invoke : ForeignCall → Service (σ × Heap) Value

/-- Raw memory. -/
structure MemoryInterface (σ : Type) where
  /-- The address of a fresh block of zeros. -/
  allocate : Nat → Service σ UInt64
  read : UInt64 → Nat → MemoryWidth → Service σ Value
  write : UInt64 → Nat → MemoryWidth → Value → Service σ Unit
  free : UInt64 → Service σ Unit

/-- A filled rectangle: its place, its size and its colour. -/
structure Rect where
  x : Binary64
  y : Binary64
  width : Binary64
  height : Binary64
  red : Binary64
  green : Binary64
  blue : Binary64
  deriving DecidableEq, Inhabited, Repr

/-- What a graphics backend does while its loop runs: it dispatches an event, is told the rectangles
that the handlers drew or the fault that ended them, and goes on as it likes; in the end it returns
its state and whether the loop went well. Every such course comes to an end. -/
inductive EventLoop (γ : Type) where
  | finish (result : Except Fault Unit) (backend : γ)
  | dispatch (event : String) (arguments : List Value)
      (resume : Except Fault (List Rect) → EventLoop γ)

/-- A graphics backend. -/
structure GraphicsInterface (γ : Type) where
  openWindow : Int64 → Int64 → String → Service γ Unit
  draw : Rect → Service γ Unit
  /-- The course of the loop that is run on the given state. -/
  loop : γ → EventLoop γ
  layer : γ → UInt64
  device : γ → UInt64

/-- Everything that a machine may be given. Without foreign functions or memory their operations
fault; whether there are graphics is part of the state of the machine. -/
structure Capabilities (σ γ : Type) where
  print : String → Service σ Unit
  foreign : Option (ForeignInterface σ)
  memory : Option (MemoryInterface σ)
  graphics : GraphicsInterface γ

end DocScript
