import DocScript.Compile.Lowering.Stmt
import DocScript.Machine.Capability
import DocScript.Proofs.Source.Allocation

/-! # What statements ask of capabilities

A statement that calls a foreign function or works on raw memory evaluates its operands in the
order in which they are written, checks those that name a size or a place, and then asks a
capability once. What comes back goes to a local if the statement names one.
-/

namespace DocScript

/-! ### Calls -/

/-- A call of a foreign function or of memory. -/
inductive CapabilityCall where
  | foreign (call : ForeignCall)
  | allocate (size : Nat)
  | write (address : UInt64) (offset : Nat) (width : MemoryWidth) (value : Value)
  | read (address : UInt64) (offset : Nat) (width : MemoryWidth)
  | free (address : UInt64)

namespace CapabilityCall

/-- Whether there is a result to hand on. A foreign function has none if it returns nothing by its
type. -/
def hasResult : CapabilityCall → Bool
  | .foreign call => call.returns ≠ LoweringScope.voidResult
  | .allocate _ | .read _ _ _ => true
  | .write _ _ _ _ | .free _ => false

/-- A service that does not reach the arrays. -/
def besideHeap (service : Service σ α) : Service (σ × Heap) α := fun (environment, heap) =>
  match service environment with
  | .ok value environment => .ok value (environment, heap)
  | .error fault environment => .error fault (environment, heap)

/-- The service that is asked for, if there is one, with the result that it hands on. -/
def service? (capabilities : Capabilities σ γ) :
    CapabilityCall → Option (Service (σ × Heap) (Option Value))
  | .foreign call => capabilities.foreign.map fun foreign => do
      let value ← foreign.invoke call
      return if call.returns = LoweringScope.voidResult then none else some value
  | .allocate size => capabilities.memory.map fun memory => do
      let address ← besideHeap (memory.allocate size)
      return some (.pointer address StaticType.voidPointee)
  | .write address offset width value => capabilities.memory.map fun memory => do
      besideHeap (memory.write address offset width value)
      return none
  | .read address offset width => capabilities.memory.map fun memory => do
      let value ← besideHeap (memory.read address offset width)
      return some value
  | .free address => capabilities.memory.map fun memory => do
      besideHeap (memory.free address)
      return none

theorem returned_of_ok {action : Service σ α} {returned : α → β} {state after : σ} {result : β}
    (h : (do let value ← action; return returned value : Service σ β) state = .ok result after) :
    ∃ value, result = returned value := by
  change EStateM.bind action _ state = _ at h
  unfold EStateM.bind at h
  cases haction : action state with
  | ok value middle =>
      rw [haction] at h
      cases h
      exact ⟨value, rfl⟩
  | error fault middle =>
      rw [haction] at h
      cases h

/-- A service hands on a result exactly if there is one by the call. -/
theorem isSome_of_ok {capabilities : Capabilities σ γ} {call : CapabilityCall}
    {service : Service (σ × Heap) (Option Value)} {state after : σ × Heap} {result : Option Value}
    (hservice : call.service? capabilities = some service) (h : service state = .ok result after) :
    result.isSome = call.hasResult := by
  cases call with
  | foreign call =>
      obtain ⟨foreign, -, rfl⟩ := Option.map_eq_some_iff.1 hservice
      obtain ⟨value, rfl⟩ := returned_of_ok h
      by_cases hvoid : call.returns = LoweringScope.voidResult <;> simp [hasResult, hvoid]
  | allocate size | read address offset width =>
      obtain ⟨memory, -, rfl⟩ := Option.map_eq_some_iff.1 hservice
      obtain ⟨value, rfl⟩ := returned_of_ok h
      rfl
  | write address offset width value | free address =>
      obtain ⟨memory, -, rfl⟩ := Option.map_eq_some_iff.1 hservice
      obtain ⟨-, rfl⟩ := returned_of_ok h
      rfl

end CapabilityCall

/-! ### Operands -/

theorem areCallFree_append (first second : List Expr) :
    areCallFree (first ++ second) = (areCallFree first && areCallFree second) := by
  induction first with
  | nil => rfl
  | cons item rest ih => rw [List.cons_append, areCallFree, areCallFree, ih, Bool.and_assoc]

namespace Value

/-- A size or an offset: a number that is not negative. A float loses its fraction. -/
def natural (value : Value) : Except FaultKind Nat :=
  match value.int? with
  | none => .error .typeMismatch
  | some number => if number < 0 then .error .memoryFault else .ok number.toInt.toNat

/-- The address of a pointer; null stands for address zero. -/
def address : Value → Except FaultKind UInt64
  | .pointer address _ => .ok address
  | .null => .ok 0
  | _ => .error .typeMismatch

/-- The place that a pointer and an offset name. The offset is looked at first. -/
def place (pointer offset : Value) : Except FaultKind (UInt64 × Nat) := do
  let offset ← offset.natural
  let address ← pointer.address
  return (address, offset)

end Value

/-- Evaluates the operands of a foreign call one after the other, each for its tag. -/
def evaluateTagged (store : Store) : List (String × Expr) → Evaluation (List ForeignArgument)
  | [] => pure []
  | (tag, operand) :: rest => do
      let value ← operand.evaluate store
      let arguments ← evaluateTagged store rest
      return ⟨tag, value⟩ :: arguments

/-- Evaluates an offset, which is zero if none is written. -/
def evaluateOffset (store : Store) : Option Expr → Evaluation Value
  | some offset => offset.evaluate store
  | none => pure (.int 0)

/-! ### Statements -/

/-- A statement that asks a capability, with all its fields in place. -/
inductive Errand where
  | foreign (lib symbol returns : String) (operands : List (String × Expr)) (into : Option String)
  | allocate (size : Expr) (into : String)
  | write (width : MemoryWidth) (pointer : Expr) (offset : Option Expr) (value : Expr)
  | read (width : MemoryWidth) (pointer : Expr) (offset : Option Expr) (into : String)
  | release (pointer : Expr)

namespace Errand

/-- The operands in the order in which they are evaluated. -/
def operands : Errand → List Expr
  | .foreign _ _ _ operands _ => operands.map Prod.snd
  | .allocate size _ => [size]
  | .write _ pointer offset value => pointer :: (offset.toList ++ [value])
  | .read _ pointer offset _ => pointer :: offset.toList
  | .release pointer => [pointer]

/-- The local for the result. -/
def into : Errand → Option String
  | .foreign _ _ _ _ into => into
  | .allocate _ into | .read _ _ _ into => some into
  | .write _ _ _ _ | .release _ => none

/-- Whether there is a result. -/
def hasResult : Errand → Bool
  | .foreign _ _ returns _ _ => returns ≠ LoweringScope.voidResult
  | .allocate _ _ | .read _ _ _ _ => true
  | .write _ _ _ _ | .release _ => false

/-- Evaluates the operands and checks them. What comes of it is the call that is to be made. -/
def call (store : Store) : Errand → Evaluation CapabilityCall
  | .foreign lib symbol returns operands _ => do
      let arguments ← evaluateTagged store operands
      return .foreign { lib, symbol, arguments, returns }
  | .allocate size _ => do
      let value ← size.evaluate store
      let size ← .ofExcept value.natural
      return .allocate size
  | .write width pointer offset value => do
      let pointer ← pointer.evaluate store
      let offset ← evaluateOffset store offset
      let value ← value.evaluate store
      let (address, offset) ← .ofExcept (pointer.place offset)
      return .write address offset width value
  | .read width pointer offset _ => do
      let pointer ← pointer.evaluate store
      let offset ← evaluateOffset store offset
      let (address, offset) ← .ofExcept (pointer.place offset)
      return .read address offset width
  | .release pointer => do
      let pointer ← pointer.evaluate store
      let address ← .ofExcept pointer.address
      return .free address

/-- The call has a result exactly if the errand has one. -/
theorem hasResult_of_call {errand : Errand} {store : Store} {heap after : Heap}
    {call : CapabilityCall} (h : errand.call store heap = .ok call after) :
    call.hasResult = errand.hasResult := by
  cases errand with
  | foreign lib symbol returns operands into =>
      obtain ⟨_, _, -, h⟩ := Evaluation.bind_ok h
      cases h
      rfl
  | allocate size into | release pointer =>
      obtain ⟨_, _, -, h⟩ := Evaluation.bind_ok h
      obtain ⟨_, _, -, h⟩ := Evaluation.bind_ok h
      cases h
      rfl
  | write width pointer offset value =>
      obtain ⟨_, _, -, h⟩ := Evaluation.bind_ok h
      obtain ⟨_, _, -, h⟩ := Evaluation.bind_ok h
      obtain ⟨_, _, -, h⟩ := Evaluation.bind_ok h
      obtain ⟨_, _, -, h⟩ := Evaluation.bind_ok h
      cases h
      rfl
  | read width pointer offset into =>
      obtain ⟨_, _, -, h⟩ := Evaluation.bind_ok h
      obtain ⟨_, _, -, h⟩ := Evaluation.bind_ok h
      obtain ⟨_, _, -, h⟩ := Evaluation.bind_ok h
      cases h
      rfl

end Errand

/-- What is written in a field that may be absent. -/
def Field.optional? : Field α → Option (Option α)
  | .absent => some none
  | .misshapen => none
  | .given value => some (some value)

/-- The tag and the value of an operand of a foreign call. -/
def ForeignOperand.tagged? : ForeignOperand → Option (String × Expr)
  | .operand _ (.given tag) (some value) => some (tag, value)
  | _ => none

namespace Stmt

/-- Whether the statement is of a form that asks a capability. -/
def asks : Stmt → Bool
  | .overfull _ _ body => body.asks
  | .foreign _ _ _ _ _ _ | .allocate _ _ _ | .writeMemory _ _ _ _ _ | .readMemory _ _ _ _ _
  | .release _ => true
  | _ => false

/-- What a statement asks of a capability. A foreign function without a result type returns
nothing. -/
def errand? : Stmt → Option Errand
  | .overfull _ _ body => body.errand?
  | .foreign _ (.given lib) (.given symbol) returns operands into => do
      let returns := (← returns.optional?).getD LoweringScope.voidResult
      let operands ← ((← operands.optional?).getD []).mapM ForeignOperand.tagged?
      let into ← into.optional?
      return .foreign lib symbol returns operands into
  | .allocate _ (some size) (.given into) => some (.allocate size into)
  | .writeMemory _ (.given width) (some pointer) offset (some value) => do
      let width ← MemoryWidth.ofName? width
      return .write width pointer offset value
  | .readMemory _ (.given width) (some pointer) offset (.given into) => do
      let width ← MemoryWidth.ofName? width
      return .read width pointer offset into
  | .release pointer => some (.release pointer)
  | _ => none

end Stmt

end DocScript
