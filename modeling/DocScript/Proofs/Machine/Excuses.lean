import DocScript.Proofs.Machine.Stepping

/-! # Faults that are excused

Some faults come from what lies on the stack or is not there outside of the machine, others tell of
code that no compiler should have made, and capabilities have faults of their own accord.
-/

namespace DocScript

/-- The faults that come from what lies on the stack or is not there outside of the machine. Arrays
that are part of themselves count as well. -/
def FaultKind.isOperational : FaultKind → Bool
  | .stackUnderflow | .stackOverflow | .typeMismatch | .divisionByZero | .indexOutOfBounds
  | .capabilityMissing | .memoryFault | .endless => true
  | _ => false

/-- The faults that tell of code that no compiler should have made. -/
def FaultKind.isStructural : FaultKind → Bool
  | .unknownOpcode | .malformedBytecode | .invalidLocal | .arityMismatch => true
  | _ => false

/-! ### Capabilities -/

/-- If the service fails, then its fault is excused. -/
def ExcusedService (excuses : FaultKind → Prop) (service : Service σ α) : Prop :=
  ∀ state fault after, service state = .error fault after → excuses fault.kind

/-- The fault with which a backend ends its loop is excused, unless a handler that it has
dispatched had one that is not. -/
def EventLoop.Excused (excuses : FaultKind → Prop) : EventLoop γ → Prop
  | .finish result _ => ∀ fault, result = .error fault → excuses fault.kind
  | .dispatch _ _ resume => ∀ outcome,
      (∀ fault, outcome = .error fault → excuses fault.kind) → (resume outcome).Excused excuses

/-- Whatever faults the capabilities have of their own accord are excused. -/
structure Capabilities.Excused (excuses : FaultKind → Prop) (capabilities : Capabilities σ γ) :
    Prop where
  print : ∀ text, ExcusedService excuses (capabilities.print text)
  foreign : ∀ foreign, capabilities.foreign = some foreign →
    ∀ call, ExcusedService excuses (foreign.invoke call)
  allocate : ∀ memory, capabilities.memory = some memory →
    ∀ size, ExcusedService excuses (memory.allocate size)
  read : ∀ memory, capabilities.memory = some memory →
    ∀ address offset width, ExcusedService excuses (memory.read address offset width)
  write : ∀ memory, capabilities.memory = some memory →
    ∀ address offset width value, ExcusedService excuses (memory.write address offset width value)
  free : ∀ memory, capabilities.memory = some memory →
    ∀ address, ExcusedService excuses (memory.free address)
  openWindow : ∀ width height title,
    ExcusedService excuses (capabilities.graphics.openWindow width height title)
  draw : ∀ rect, ExcusedService excuses (capabilities.graphics.draw rect)
  loop : ∀ backend, (capabilities.graphics.loop backend).Excused excuses

theorem EventLoop.excused_of_all {excuses : FaultKind → Prop} (h : ∀ kind, excuses kind)
    (course : EventLoop γ) : course.Excused excuses := by
  induction course with
  | finish result backend => exact fun fault _ => h fault.kind
  | dispatch event arguments resume ih => exact fun outcome _ => ih outcome

theorem Capabilities.excused_of_all {excuses : FaultKind → Prop} (h : ∀ kind, excuses kind)
    (capabilities : Capabilities σ γ) : capabilities.Excused excuses where
  print _ _ fault _ _ := h fault.kind
  foreign _ _ _ _ fault _ _ := h fault.kind
  allocate _ _ _ _ fault _ _ := h fault.kind
  read _ _ _ _ _ _ fault _ _ := h fault.kind
  write _ _ _ _ _ _ _ fault _ _ := h fault.kind
  free _ _ _ _ fault _ _ := h fault.kind
  openWindow _ _ _ _ fault _ _ := h fault.kind
  draw _ _ fault _ _ := h fault.kind
  loop backend := (capabilities.graphics.loop backend).excused_of_all h

/-! ### Operators -/

namespace Exec

theorem error_of_map {result : Except ε α} {change : α → β} {cause : ε}
    (h : result.map change = .error cause) : result = .error cause := by
  cases result <;> cases h
  rfl

end Exec

theorem Arithmetic.operational_onInts {op : Arithmetic} {a b : Int64} {cause : FaultCause}
    (h : op.onInts a b = .error cause) : cause.kind.isOperational = true := by
  cases op with
  | modulo =>
      rw [Arithmetic.onInts] at h
      split at h <;> cases h
      rfl
  | _ => cases h

theorem Arithmetic.operational_apply {op : Arithmetic} {heap : Heap} {left right : Value}
    {cause : FaultCause} (h : op.apply heap left right = .error cause) :
    cause.kind.isOperational = true := by
  unfold Arithmetic.apply at h
  split at h
  · split at h <;> cases h
    rfl
  · split at h
    · exact operational_onInts h
    · split at h <;> cases h
      rfl

theorem Arithmetic.operational_fold {op : Arithmetic} {heap : Heap} {first : Value}
    {rest : List Value} {cause : FaultCause} (h : op.fold heap first rest = .error cause) :
    cause.kind.isOperational = true := by
  induction rest generalizing first with
  | nil => cases h
  | cons operand rest ih =>
      rw [Arithmetic.fold] at h
      split at h
      next hfault =>
        cases h
        exact operational_apply hfault
      next => exact ih h

theorem Operator.operational_numbers {op : Opcode} {values : List Value} {cause : FaultCause}
    (h : Operator.numbers op values = .error cause) : cause.kind.isOperational = true := by
  induction values with
  | nil => cases h
  | cons value rest ih =>
      rw [Operator.numbers] at h
      split at h
      next =>
        cases h
        rfl
      next =>
        split at h
        next hfault =>
          cases h
          exact ih hfault
        next => cases h

theorem Operator.operational_truths {op : Opcode} {values : List Value} {cause : FaultCause}
    (h : Operator.truths op values = .error cause) : cause.kind.isOperational = true := by
  induction values with
  | nil => cases h
  | cons value rest ih =>
      unfold Operator.truths at h
      split at h
      next hvalues => cases hvalues
      next hvalues =>
        cases hvalues
        split at h
        next hfault =>
          cases h
          exact ih hfault
        next => cases h
      next =>
        cases h
        rfl

theorem operational_ended {result : Option α} {cause : FaultCause}
    (h : FaultCause.ended result = .error cause) : cause.kind.isOperational = true := by
  cases result <;> cases h
  rfl

/-- Operators only have faults about their operands. -/
theorem Operator.operational_error {operator : Operator} {heap : Heap} {operands : List Value}
    {cause : FaultCause} (h : operator.apply heap operands = .error cause) :
    cause.kind.isOperational = true := by
  cases operator with
  | arithmetic op =>
      cases operands with
      | nil => cases h
      | cons first rest => exact Arithmetic.operational_fold h
  | eq => exact operational_ended (Exec.error_of_map h)
  | gt | lt => exact operational_numbers (Exec.error_of_map h)
  | and | or => exact operational_truths (Exec.error_of_map h)

theorem Arithmetic.scalar_onInts {op : Arithmetic} {a b : Int64} {value : Value}
    (h : op.onInts a b = .ok value) : ∃ result, value = .scalar result := by
  cases op with
  | modulo =>
      rw [Arithmetic.onInts] at h
      split at h <;> cases h
      exact ⟨_, rfl⟩
  | _ =>
      cases h
      exact ⟨_, rfl⟩

theorem Arithmetic.scalar_apply {op : Arithmetic} {heap : Heap} {left right value : Value}
    (h : op.apply heap left right = .ok value) : ∃ result, value = .scalar result := by
  unfold Arithmetic.apply at h
  split at h
  · split at h <;> cases h
    exact ⟨_, rfl⟩
  · split at h
    · exact scalar_onInts h
    · split at h <;> cases h
      exact ⟨_, rfl⟩

/-- A single operand is its own result. -/
theorem Arithmetic.value_fold {op : Arithmetic} {heap : Heap} {first value : Value}
    {rest : List Value} (h : op.fold heap first rest = .ok value) :
    value = first ∨ ∃ result, value = .scalar result := by
  induction rest generalizing first with
  | nil =>
      cases h
      exact .inl rfl
  | cons operand rest ih =>
      rw [Arithmetic.fold] at h
      split at h
      next => cases h
      next hstep =>
        obtain ⟨result, rfl⟩ := scalar_apply hstep
        rcases ih h with rfl | hscalar
        · exact .inr ⟨result, rfl⟩
        · exact .inr hscalar

/-- The result of an operator is a scalar or one of its operands. -/
theorem Operator.value_ok {operator : Operator} {heap : Heap} {operands : List Value}
    {value : Value} (h : operator.apply heap operands = .ok value) :
    value ∈ operands ∨ ∃ result, value = .scalar result := by
  cases operator with
  | arithmetic op =>
      cases operands with
      | nil =>
          cases h
          exact .inr ⟨_, rfl⟩
      | cons first rest =>
          refine (Arithmetic.value_fold h).imp_left ?_
          rintro rfl
          exact List.mem_cons_self
  | eq | gt | lt | and | or =>
      obtain ⟨truth, rfl⟩ := exists_truth_of_apply rfl h
      exact .inr ⟨_, rfl⟩

end DocScript
