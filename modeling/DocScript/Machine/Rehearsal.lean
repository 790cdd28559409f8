import DocScript.Graphics.Headless
import DocScript.Machine.Run
import DocScript.Machine.Transcript
import DocScript.Memory.Interface

/-!
# Rehearsals

In a rehearsal a machine runs without an outer world: what it prints is kept, foreign functions
answer from a script, memory is an arena and the graphics have no window.
-/

namespace DocScript

/-- What a foreign function answers. -/
inductive ForeignAnswer where
  | value (value : Value)
  /-- The value of one of its arguments. -/
  | argument (position : Nat)
  | failure (message : String)
  deriving DecidableEq, Inhabited, Repr

/-- A foreign call as it was made: each argument with its tag and what it held at that time. -/
structure RecordedCall where
  lib : String
  symbol : String
  arguments : List (String × Constant)
  returns : String
  deriving Inhabited, Repr

/-- The record of a call. -/
def ForeignCall.record? (call : ForeignCall) (heap : Heap) : Option RecordedCall := do
  let arguments ← call.arguments.mapM fun argument => do
    return (argument.tag, ← heap.snapshot? argument.value)
  return { lib := call.lib, symbol := call.symbol, arguments, returns := call.returns }

/-- The surroundings of a machine in a rehearsal. The host takes `printLimit` texts, if there is
such a limit, and refuses all others. A foreign function without an answer answers null. -/
structure Rehearsal where
  transcript : Transcript := {}
  printLimit : Option Nat := none
  answers : List (String × ForeignAnswer) := []
  calls : Array RecordedCall := #[]
  arena : Arena := {}

namespace Rehearsal

def print (text : String) : Service Rehearsal Unit := fun rehearsal =>
  if rehearsal.printLimit.any (· ≤ rehearsal.transcript.texts.size) then
    .error { cause := .reported .hostError "host closed" } rehearsal
  else .ok () { rehearsal with transcript := rehearsal.transcript.print text }

/-- Foreign functions that answer from the script. Every call is recorded first. -/
def foreign : ForeignInterface Rehearsal where
  invoke call := fun (rehearsal, heap) =>
    match call.record? heap with
    | none => .error { cause := .endless } (rehearsal, heap)
    | some record =>
        let recorded := ({ rehearsal with calls := rehearsal.calls.push record }, heap)
        match rehearsal.answers.lookup call.symbol with
        | none => .ok .null recorded
        | some (.value value) => .ok value recorded
        | some (.argument position) =>
            .ok ((call.arguments[position]?.map ForeignArgument.value).getD .null) recorded
        | some (.failure message) => .error { cause := .reported .hostError message } recorded

def memory : MemoryInterface Rehearsal :=
  Arena.interface Rehearsal.arena fun rehearsal arena => { rehearsal with arena }

/-- The capabilities of a rehearsal, with or without foreign functions and memory. -/
def capabilities (hasForeign hasMemory : Bool) : Capabilities Rehearsal HeadlessGraphics where
  print := print
  foreign := if hasForeign then some foreign else none
  memory := if hasMemory then some memory else none
  graphics := HeadlessGraphics.interface

end Rehearsal

end DocScript
