import DocScript.Proofs.Bytecode.Assembly
import DocScript.Compile.Signature

/-! # The flow of code

Where code goes from one instruction to the next, and what it is known to have put on
the stack by then. A point leads to an exit if every way from it either comes to the
exit, or ends by itself, or goes on forever; nowhere does it take more than it has put
there before.
-/

namespace DocScript

/-- The number of values that a call leaves. -/
def Signature.results (signature : Signature) : Nat := if signature.isVoid then 0 else 1

/-- The numbers of values that an operation takes and gives. Operations that go elsewhere, or
for which these numbers depend on a name, have no such effect. -/
def Opcode.effect? (op : Opcode) (operand : Nat) : Option (Nat × Nat) :=
  match op with
  | .nop => some (0, 0)
  | .loadLocal => some (0, 1)
  | .storeLocal | .storeLocalInt | .print | .memFree => some (1, 0)
  | .add | .sub | .mul | .div | .mod | .eq | .gt | .lt | .and | .or | .makeArray =>
      some (operand, 1)
  | .neg | .not | .arrayLen | .memAlloc => some (1, 1)
  | .arrayGet => some (2, 1)
  | .arrayPush | .onEvent => some (2, 0)
  | .arraySet => some (3, 0)
  | .memRead => some (3, 1)
  | .memWrite => some (4, 0)
  | .pushConst | .jmp | .jmpIfFalse | .call | .ret | .ffiCall | .halt => none

theorem Opcode.no_call_of_effect? {op : Opcode} {operand : Nat} {effect : Nat × Nat}
    (h : op.effect? operand = some effect) : op ≠ .call ∧ op ≠ .ffiCall := by
  constructor <;> rintro rfl <;> cases h

/-- A point of a function that runs: the offset of the next instruction, the constants that were
pushed last, and the number of other values that the function has on the stack. -/
structure Point where
  offset : Nat
  known : List Scalar
  depth : Nat

/-- The number of values that the function has on the stack. -/
def Point.height (point : Point) : Nat := point.known.length + point.depth

/-- What the flow of a function depends on. Of what an instruction gives, the values that it leaves
to nobody do not count. A function is tidy if apart from these it has nothing on the stack but what
the statement in progress has put there. -/
structure FlowScope where
  code : Array UInt8
  pool : List Constant
  signatures : SignatureTable
  valued : Bool
  tidy : Bool
  /-- The number of values that the instruction at an offset leaves to nobody. -/
  left : Nat → Nat

namespace FlowScope

variable (scope : FlowScope) (next : Point → Prop) (point : Point)

/-- The command may be run at the point and goes on at a next point, if it goes on at all. -/
inductive Goes : Command → Prop where
  | push {position : Nat} {value : Scalar}
      (hconstant : scope.pool[position]? = some (.scalar value))
      (hnext : next ⟨point.offset + 3, value :: point.known, point.depth⟩) :
      Goes ⟨.pushConst, position⟩
  | plain {op : Opcode} {operand taken given below : Nat}
      (heffect : op.effect? operand = some (taken, given)) (htaken : point.height = taken + below)
      (hnext : next ⟨point.offset + op.width, [], below + given⟩) : Goes ⟨op, operand⟩
  | jump {target : Nat} (hnext : next ⟨target, [], point.height⟩) : Goes ⟨.jmp, target⟩
  | branch {target below : Nat} (htaken : point.height = below + 1)
      (hholds : next ⟨point.offset + 3, [], below⟩) (hfails : next ⟨target, [], below⟩) :
      Goes ⟨.jmpIfFalse, target⟩
  | call {count below kept : Nat} {callee : String} {others : List Scalar} {signature : Signature}
      (hknown : point.known = .string callee :: others)
      (hsignature : scope.signatures.get? callee = some signature)
      (htaken : others.length + point.depth = count + below)
      (hkept : scope.left point.offset + kept = signature.results)
      (hnext : next ⟨point.offset + 2, [], below + kept⟩) : Goes ⟨.call, count⟩
  | foreign {count below kept : Nat} {symbol lib result : String} {others : List Scalar}
      (hknown : point.known = .string symbol :: .string lib :: .string result :: others)
      (htaken : others.length + point.depth = 2 * count + below)
      (hkept : scope.left point.offset + kept = if result = "void" then 0 else 1)
      (hnext : next ⟨point.offset + 2, [], below + kept⟩) : Goes ⟨.ffiCall, count⟩
  | giveBack (hvalued : scope.valued = true) (hvalue : 1 ≤ point.height)
      (htidy : scope.tidy = true → point.height = 1) : Goes ⟨.ret, 0⟩
  | halt (hvalued : scope.valued = false) (htidy : scope.tidy = true → point.height = 0) :
      Goes ⟨.halt, 0⟩

/-- The instruction at the point goes on at a next point, if it goes on at all. -/
def Flows : Prop :=
  ∃ command : Command, Instruction.decode? scope.code point.offset = some command.instruction ∧
    scope.Goes next point command

/-- Every way from the point comes to an exit, ends by itself, or goes on forever. -/
def Leads (exits : Point → Prop) (point : Point) : Prop :=
  ∃ safe : Point → Prop, safe point ∧ ∀ other, safe other → exits other ∨ scope.Flows safe other

variable {scope} {next others exits middle : Point → Prop} {point : Point}

theorem Flows.mono (h : scope.Flows next point) (hnext : ∀ point, next point → others point) :
    scope.Flows others point := by
  obtain ⟨command, hdecode, hgoes⟩ := h
  refine ⟨command, hdecode, ?_⟩
  cases hgoes with
  | push hconstant h => exact .push hconstant (hnext _ h)
  | plain heffect htaken h => exact .plain heffect htaken (hnext _ h)
  | jump h => exact .jump (hnext _ h)
  | branch htaken hholds hfails => exact .branch htaken (hnext _ hholds) (hnext _ hfails)
  | call hknown hsignature htaken hkept h => exact .call hknown hsignature htaken hkept (hnext _ h)
  | foreign hknown htaken hkept h => exact .foreign hknown htaken hkept (hnext _ h)
  | giveBack hvalued hvalue htidy => exact .giveBack hvalued hvalue htidy
  | halt hvalued htidy => exact .halt hvalued htidy

namespace Leads

theorem here (h : exits point) : scope.Leads exits point :=
  ⟨exits, h, fun _ hexit => .inl hexit⟩

theorem cases (h : scope.Leads exits point) :
    exits point ∨ scope.Flows (scope.Leads exits) point := by
  obtain ⟨safe, hpoint, hsafe⟩ := h
  exact (hsafe point hpoint).imp_right (·.mono fun other hother => ⟨safe, hother, hsafe⟩)

theorem step (h : scope.Flows (scope.Leads exits) point) : scope.Leads exits point := by
  refine ⟨fun other => other = point ∨ scope.Leads exits other, .inl rfl, ?_⟩
  intro other hother
  rcases hother with rfl | hother
  · exact .inr (h.mono fun _ => .inr)
  · exact hother.cases.imp_right (·.mono fun _ => .inr)

/-- What leads to where every way leads on to an exit leads to that exit. -/
theorem trans (h : scope.Leads middle point) (hmiddle : ∀ other, middle other →
    scope.Leads exits other) : scope.Leads exits point := by
  refine ⟨fun other => scope.Leads middle other ∨ scope.Leads exits other, .inl h, ?_⟩
  have hlast (other : Point) (hother : scope.Leads exits other) : exits other ∨
      scope.Flows (fun other => scope.Leads middle other ∨ scope.Leads exits other) other :=
    hother.cases.imp_right (·.mono fun _ => .inr)
  intro other hother
  rcases hother with hother | hother
  · rcases hother.cases with harrived | hflows
    · exact hlast other (hmiddle other harrived)
    · exact .inr (hflows.mono fun _ => .inl)
  · exact hlast other hother

theorem mono (h : scope.Leads exits point) (hexits : ∀ other, exits other → others other) :
    scope.Leads others point :=
  h.trans fun other hother => here (hexits other hother)

/-- Code that comes back to where it began may go round forever, as long as each round takes a
step. -/
theorem round (hround : ∀ other, middle other →
      scope.Flows (scope.Leads fun last => exits last ∨ middle last) other)
    (h : middle point) : scope.Leads exits point := by
  refine ⟨scope.Leads fun last => exits last ∨ middle last, here (.inr h), ?_⟩
  intro other hother
  rcases hother.cases with harrived | hflows
  · exact harrived.imp_right (hround other)
  · exact .inr hflows

/-- If there is a step where the code arrives, then there is a step where it begins. -/
theorem progress (h : scope.Leads middle point)
    (hmiddle : ∀ other, middle other → scope.Flows (scope.Leads exits) other) :
    scope.Flows (scope.Leads exits) point := by
  rcases h.cases with harrived | hflows
  · exact hmiddle point harrived
  · exact hflows.mono fun other hother => hother.trans fun last hlast => step (hmiddle last hlast)

end Leads

end FlowScope

end DocScript
