import DocScript.Proofs.Machine.Stepping
import DocScript.Proofs.Source.Evaluation

/-! # What instructions do with their operands

An instruction that finds its operands on the stack does with them what the structured
reading of the text does, or faults for the same reason.
-/

namespace DocScript

namespace Exec

/-- The action ends as a result says: with the stack that goes with its value, or with a fault of
its kind. The arrays are those of the result, and all else stays as it is. -/
def Performs (machine : Machine σ γ) (stacked : β → List Value)
    (result : EStateM.Result FaultKind Heap β) (value : α)
    (outcome : EStateM.Result Fault (Machine σ γ) α) : Prop :=
  match result with
  | .ok given heap => outcome = .ok value { machine with stack := stacked given, heap }
  | .error kind heap => ∃ fault stack, outcome = .error fault { machine with stack, heap } ∧
      fault.kind = kind

variable {machine : Machine σ γ} {rest : List Value} {site : Site}

theorem Performs.proceeding {stacked : β → List Value} {result : EStateM.Result FaultKind Heap β}
    {action : Exec σ γ Unit} (h : Performs machine stacked result () (action machine)) :
    Performs machine stacked result .proceed
      ((within site action >>= fun _ => pure .proceed : Exec σ γ (Signal γ)) machine) := by
  cases result with
  | ok given heap => exact proceeding_ok h
  | error kind heap =>
      obtain ⟨fault, stack, haction, hkind⟩ := h
      exact ⟨fault.within site, stack, proceeding_error haction, hkind⟩

theorem performs_push (value : Value) (rest : List Value) :
    Performs machine (· :: rest) (.ok value machine.heap) ()
      (push value { machine with stack := rest }) := rfl

theorem performs_fault {stacked : β → List Value} {value : α} (cause : FaultCause)
    (stack : List Value) :
    Performs machine stacked (.error cause.kind machine.heap) value
      (fault cause { machine with stack }) :=
  ⟨_, stack, rfl, rfl⟩

theorem performs_pushConst {function : CompiledFunction Value} {position : Nat} {value : Value}
    (hconstant : function.constants[position]? = some value) :
    Performs machine (· :: machine.stack) (.ok value machine.heap) ()
      (pushConst function position machine) := by
  unfold pushConst
  rw [hconstant]
  rfl

theorem locals_eq {frame : Frame} {outer : List Frame} (hframes : machine.frames = frame :: outer) :
    locals machine = .ok frame.locals machine := by
  unfold locals
  simp only [bind_eq, get_eq]
  rw [hframes]
  rfl

theorem performs_loadLocal {slot : Nat} {frame : Frame} {outer : List Frame} {value : Value}
    (hframes : machine.frames = frame :: outer) (hslot : frame.locals[slot]? = some value) :
    Performs machine (· :: machine.stack) (.ok value machine.heap) () (loadLocal slot machine) := by
  unfold loadLocal
  rw [bind_eq, locals_eq hframes]
  simp only [hslot]
  rfl

/-- The operation of an operator combines values with it. -/
theorem execute_operator (setup : Setup σ γ) (site : Site) (function : CompiledFunction Value)
    (count : Nat) (operator : Operator) (machine : Machine σ γ) :
    execute setup site function count operator.opcode machine =
      (within site (combine operator count) >>= fun _ => pure .proceed : Exec σ γ (Signal γ))
        machine := by
  cases operator with
  | arithmetic op => cases op <;> rfl
  | eq | gt | lt | and | or => rfl

theorem performs_combine {operator : Operator} {values : List Value} (hsome : values ≠ [])
    (hstack : machine.stack = values.reverse ++ rest) :
    Performs machine (· :: rest) (Evaluation.ofExcept
        ((operator.apply machine.heap values).mapError FaultCause.kind) machine.heap) ()
      (combine operator values.length machine) := by
  have hcount : values.length ≠ 0 := fun h => hsome (List.eq_nil_of_length_eq_zero h)
  unfold combine
  simp only [hcount, if_false, bind_eq, popMany_eq hstack, get_eq]
  cases operator.apply machine.heap values with
  | error cause => exact performs_fault cause rest
  | ok value => exact performs_push value rest

theorem performs_neg {value : Value} (hstack : machine.stack = value :: rest) :
    Performs machine (· :: rest) (Evaluation.ofExcept value.negated machine.heap) ()
      (neg machine) := by
  unfold neg
  simp only [bind_eq, pop_cons hstack]
  match value with
  | .int number => exact performs_push _ rest
  | .float number => exact performs_push _ rest
  | .string _ | .bool _ | .null | .pointer _ _ | .array _ => exact performs_fault _ rest

theorem performs_not {value : Value} (hstack : machine.stack = value :: rest) :
    Performs machine (· :: rest) (Evaluation.ofExcept value.inverted machine.heap) ()
      (not machine) := by
  unfold not
  simp only [bind_eq, pop_cons hstack]
  match value with
  | .bool truth => exact performs_push _ rest
  | .int _ | .float _ | .string _ | .null | .pointer _ _ | .array _ => exact performs_fault _ rest

/-! ### Arrays -/

theorem object_eq (handle : Nat) (machine : Machine σ γ) :
    object handle machine = .ok (machine.heap.object handle) machine := rfl

theorem performs_arrayLen {value : Value} (hstack : machine.stack = value :: rest) :
    Performs machine (· :: rest) (Evaluation.ofExcept (machine.heap.measure value) machine.heap) ()
      (arrayLen machine) := by
  unfold arrayLen
  simp only [bind_eq, pop_cons hstack]
  match value with
  | .array handle => exact performs_push _ rest
  | .string text => exact performs_push _ rest
  | .int _ | .float _ | .bool _ | .null | .pointer _ _ => exact performs_fault _ rest

/-- Taking an index takes an integer, or there is a fault. -/
theorem popIndex_cases {value : Value} (hstack : machine.stack = value :: rest) (op : Opcode) :
    (∃ index, value = .int index ∧
      popIndex op machine = .ok index { machine with stack := rest }) ∨
    ((∀ index, value ≠ .int index) ∧ ∃ clash, popIndex op machine =
      .error { cause := .typeClash clash } { machine with stack := rest }) := by
  unfold popIndex
  simp only [bind_eq, pop_cons hstack]
  split
  next index => exact .inl ⟨index, rfl, rfl⟩
  next hother => exact .inr ⟨hother, _, rfl⟩

/-- Taking an array takes a handle, or there is a fault. -/
theorem popArray_cases {value : Value} (hstack : machine.stack = value :: rest) (op : Opcode) :
    (∃ handle, value = .array handle ∧
      popArray op machine = .ok handle { machine with stack := rest }) ∨
    ((∀ handle, value ≠ .array handle) ∧ ∃ clash, popArray op machine =
      .error { cause := .typeClash clash } { machine with stack := rest }) := by
  unfold popArray
  simp only [bind_eq, pop_cons hstack]
  split
  next handle => exact .inl ⟨handle, rfl, rfl⟩
  next hother => exact .inr ⟨hother, _, rfl⟩

theorem performs_arrayGet {array index : Value} (hstack : machine.stack = index :: array :: rest) :
    Performs machine (· :: rest)
      (Evaluation.ofExcept (machine.heap.element array index) machine.heap) ()
      (arrayGet machine) := by
  have hbelow : { machine with stack := array :: rest }.stack = array :: rest := rfl
  unfold arrayGet Heap.element
  rw [bind_eq]
  rcases popIndex_cases hstack .arrayGet with ⟨index, rfl, hindex⟩ | ⟨hother, clash, hindex⟩
  · rw [hindex]
    simp only [bind_eq]
    rcases popArray_cases hbelow .arrayGet with ⟨handle, rfl, harray⟩ | ⟨hother, clash, harray⟩
    · rw [harray]
      simp only [object_eq]
      cases (position? index (machine.heap.object handle).items.size).bind
        ((machine.heap.object handle).items[·]?) with
      | none => exact performs_fault _ rest
      | some item => exact performs_push _ rest
    · rw [harray]
      split
      next => exact absurd rfl (hother _)
      next => exact ⟨_, rest, rfl, rfl⟩
  · rw [hindex]
    split
    next => exact absurd rfl (hother _)
    next => exact ⟨_, _, rfl, rfl⟩

theorem performs_makeArray {values : List Value} (hstack : machine.stack = values.reverse ++ rest) :
    Performs machine (· :: rest) (Evaluation.makeArray values machine.heap) ()
      (makeArray values.length machine) := by
  unfold makeArray Evaluation.makeArray
  simp only [bind_eq, popMany_eq hstack]
  cases firstMisfit? values with
  | some clash => exact performs_fault _ rest
  | none => rfl

/-- An array takes a value unless the kind that it keeps refuses it. -/
theorem takes_eq (heap : Heap) (handle : Nat) (value : Value) :
    heap.takes handle value =
      ((heap.object handle).element.filter fun element => !value.kind.fits element).isNone := by
  unfold Heap.takes
  cases (heap.object handle).element with
  | none => rfl
  | some element => cases hfits : value.kind.fits element <;> simp [Option.filter, hfits]

/-- What an instruction that changes arrays does with the stack and the arrays. -/
def changed (result : Except FaultKind Heap) (heap : Heap) : EStateM.Result FaultKind Heap Unit :=
  match result with
  | .ok heap => .ok () heap
  | .error kind => .error kind heap

theorem performs_arraySet {array index value : Value}
    (hstack : machine.stack = value :: index :: array :: rest) :
    Performs machine (fun _ => rest)
      (changed (machine.heap.setElement array index value) machine.heap) ()
      (arraySet machine) := by
  have hindexed : { machine with stack := index :: array :: rest }.stack =
    index :: array :: rest := rfl
  have hbelow : { machine with stack := array :: rest }.stack = array :: rest := rfl
  unfold arraySet Heap.setElement
  rw [bind_eq, pop_cons hstack]
  simp only [bind_eq]
  rcases popIndex_cases hindexed .arraySet with ⟨index, rfl, hindex⟩ | ⟨hother, clash, hindex⟩
  · rw [hindex]
    simp only
    rcases popArray_cases hbelow .arraySet with ⟨handle, rfl, harray⟩ | ⟨hother, clash, harray⟩
    · rw [harray]
      simp only [object_eq, takes_eq]
      -- The kind of the new item is looked at before the position.
      cases (machine.heap.object handle).element.filter
        fun element => !value.kind.fits element with
      | some kind => exact performs_fault _ rest
      | none =>
          simp only [Option.isNone_none, if_true]
          cases position? index (machine.heap.object handle).items.size with
          | none => exact performs_fault _ rest
          | some position => rfl
    · rw [harray]
      split
      next => exact absurd rfl (hother _)
      next => exact ⟨_, rest, rfl, rfl⟩
  · rw [hindex]
    split
    next => exact absurd rfl (hother _)
    next => exact ⟨_, _, rfl, rfl⟩

theorem performs_arrayPush {array value : Value} (hstack : machine.stack = value :: array :: rest) :
    Performs machine (fun _ => rest)
      (changed (machine.heap.pushElement array value) machine.heap) ()
      (arrayPush machine) := by
  have hbelow : { machine with stack := array :: rest }.stack = array :: rest := rfl
  unfold arrayPush Heap.pushElement
  rw [bind_eq, pop_cons hstack]
  simp only [bind_eq]
  rcases popArray_cases hbelow .arrayPush with ⟨handle, rfl, harray⟩ | ⟨hother, clash, harray⟩
  · rw [harray]
    simp only [object_eq, takes_eq]
    cases (machine.heap.object handle).element.filter fun element => !value.kind.fits element with
    | some kind => exact performs_fault _ rest
    | none => rfl
  · rw [harray]
    split
    next => exact absurd rfl (hother _)
    next => exact ⟨_, rest, rfl, rfl⟩

/-! ### Locals, jumps and printing -/

section Frames

variable {frame : Frame} {outer : List Frame} {value : Value} {slot : Nat}

theorem setLocal_eq (hframes : machine.frames = frame :: outer) (value : Value)
    (hslot : slot < frame.locals.size) :
    setLocal slot value machine = .ok () { machine with
      frames := { frame with locals := frame.locals.setIfInBounds slot value } :: outer } := by
  unfold setLocal
  rw [bind_eq, locals_eq hframes]
  simp only [hslot, if_true]
  exact modifyFrame_cons hframes _

theorem storeLocal_eq (hstack : machine.stack = value :: rest)
    (hframes : machine.frames = frame :: outer) (hslot : slot < frame.locals.size) :
    storeLocal slot machine = .ok () { machine with
      stack := rest
      frames := { frame with locals := frame.locals.setIfInBounds slot value } :: outer } := by
  unfold storeLocal
  have hbelow : { machine with stack := rest }.frames = frame :: outer := hframes
  rw [bind_eq, pop_cons hstack]
  exact setLocal_eq hbelow value hslot

theorem storeLocalInt_eq {number : Int64} (hstack : machine.stack = value :: rest)
    (hnumber : value.int? = some number) (hframes : machine.frames = frame :: outer)
    (hslot : slot < frame.locals.size) :
    storeLocalInt slot machine = .ok () { machine with
      stack := rest
      frames := { frame with locals := frame.locals.setIfInBounds slot (.int number) } :: outer } := by
  unfold storeLocalInt
  have hbelow : { machine with stack := rest }.frames = frame :: outer := hframes
  rw [bind_eq, pop_cons hstack]
  simp only [hnumber]
  exact setLocal_eq hbelow (.int number) hslot

theorem storeLocalInt_error (hstack : machine.stack = value :: rest) (hnone : value.int? = none)
    (slot : Nat) :
    storeLocalInt slot machine =
      .error { cause := .typeClash (.intLocal value.kind) } { machine with stack := rest } := by
  unfold storeLocalInt
  rw [bind_eq, pop_cons hstack]
  simp only [hnone]
  rfl

theorem jump_eq {function : CompiledFunction Value} {target : Nat}
    (htarget : target ≤ function.code.size) (hframes : machine.frames = frame :: outer) :
    jump function target machine = .ok () (machine.moved frame outer target) := by
  unfold jump
  rw [if_neg (Nat.not_lt.2 htarget)]
  exact goTo_eq hframes target

/-- A branch stays on its way if the condition holds. -/
theorem jumpIfFalse_eq {function : CompiledFunction Value} {target : Nat}
    (htarget : target ≤ function.code.size) (hstack : machine.stack = value :: rest)
    (hframes : machine.frames = frame :: outer) :
    jumpIfFalse function target machine = .ok () (if value.holds then { machine with stack := rest }
      else { machine with stack := rest }.moved frame outer target) := by
  unfold jumpIfFalse
  have hbelow : { machine with stack := rest }.frames = frame :: outer := hframes
  rw [bind_eq, pop_cons hstack]
  by_cases hholds : value.holds = true
  · simp only [hholds, if_true]
    rfl
  · simp only [hholds]
    exact jump_eq htarget hbelow

theorem print_eq {setup : Setup σ γ} {environment : σ} {text : String}
    (hstack : machine.stack = value :: rest) (htext : machine.heap.text? value = some text)
    (hprint : setup.capabilities.print text machine.environment = .ok () environment)
    (site : Site) :
    print setup site machine = .ok () { machine with stack := rest, environment } := by
  unfold print
  rw [bind_eq, within_ok (pop_cons hstack _)]
  simp only [bind_eq, get_eq]
  rw [htext]
  change outside (setup.capabilities.print text) { machine with stack := rest } = _
  unfold outside
  rw [hprint]

/-- Printing has no end if the text of the value has none. -/
theorem print_endless (setup : Setup σ γ) (hstack : machine.stack = value :: rest)
    (htext : machine.heap.text? value = none) (site : Site) :
    print setup site machine = .error { cause := .endless } { machine with stack := rest } := by
  unfold print
  rw [bind_eq, within_ok (pop_cons hstack _)]
  simp only [bind_eq, get_eq]
  rw [htext]
  rfl

end Frames

end Exec

end DocScript
