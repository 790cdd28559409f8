import DocScript.Machine.Drawing

/-!
# Calls

Functions are called by name. The native namespace is looked at first, then the program; the
arguments lie below the name in their order.
-/

namespace DocScript

namespace Exec

/-- Begins a function. The depth of the calls is looked at before the number of arguments. -/
def enter (setup : Setup σ γ) (function : CompiledFunction Value) (arguments : List Value) :
    Exec σ γ Unit := fun machine =>
  if setup.callDepthLimit ≤ machine.frames.length then
    fault (.callDepth setup.callDepthLimit function.name) machine
  else if arguments.length ≠ function.paramCount then
    fault (.arity (.function function.name function.paramCount arguments.length)) machine
  else .ok () { machine with frames := .enter function arguments :: machine.frames }

/-- Takes the name of the function to call. -/
def popCallee : Exec σ γ String := do
  match ← pop .callee with
  | .string name => return name
  | other => fault (.typeClash (.callee other.kind))

def call (setup : Setup σ γ) (site : Site) (count : Nat) : Exec σ γ (Signal γ) := do
  let callee ← popCallee
  let arguments ← popMany count (.arguments callee count)
  match Native.localName? callee with
  | some name =>
      match Native.ofName? name with
      | some native => callNative setup site native arguments
      | none => fault (.unresolved (.native name))
  | none =>
      match setup.program.get? callee with
      | some function => enter setup function arguments; return .proceed
      | none => fault (.unresolved (.function callee))

/-- Ends the innermost function with the value on top of the stack, or with null if there is none.
The value goes to the caller, or becomes the result if the caller belongs to an outer run. -/
def ret : Exec σ γ Unit := do
  let value := (← pop?).getD .null
  leave
  let machine ← get
  if machine.hasFramesAbove machine.base then push value
  else set { machine with result := value }

/-- Registers a handler, which must be a function of the program. -/
def onEvent (setup : Setup σ γ) : Exec σ γ Unit := do
  let handler ← popText .onEvent
  let event ← popText .onEvent
  if setup.program.contains handler then
    modify fun machine =>
      { machine with registrations := machine.registrations.push ⟨event, handler⟩ }
  else fault (.unresolved (.handler handler event))

/-- Takes the arguments of a foreign call, the last one first: each value lies above its tag.
`taken` are those that follow. -/
def popForeignArguments (shortage : Shortage) :
    (count : Nat) → (taken : List ForeignArgument) → Exec σ γ (List ForeignArgument)
  | 0, taken => return taken
  | count + 1, taken => do
      let value ← pop shortage
      let tag ← popText .ffiCall
      popForeignArguments shortage count (⟨tag, value⟩ :: taken)

/-- Calls a foreign function. Its result is pushed unless it has none by its type. -/
def foreignCall (setup : Setup σ γ) (count : Nat) : Exec σ γ Unit := do
  let symbol ← popText .ffiCall
  let lib ← popText .ffiCall
  let returns ← popText .ffiCall
  let arguments ← popForeignArguments (.foreignArguments symbol count) count []
  match setup.capabilities.foreign with
  | none => fault (.unavailable (.foreign lib symbol))
  | some foreign =>
      let value ← outsideWithHeap (foreign.invoke { lib, symbol, arguments, returns })
      if returns ≠ "void" then push value

end Exec

end DocScript
