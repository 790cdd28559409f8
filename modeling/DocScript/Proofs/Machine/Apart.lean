import DocScript.Proofs.Machine.Regime

/-! # What instructions leave alone

Most instructions work on the stack, on the arrays and on what lies outside of the machine, and go
on elsewhere in their function. So they uphold every regime that looks at none of these, for
instance that the graphics are as they were, or the locals of all frames.
-/

namespace DocScript

/-- The condition looks neither at the stack, the arrays or the handlers nor at what lies outside of
the machine, it does not matter for it where the innermost frame stands in its code, and all faults
are excused. -/
structure Regime.Apart (regime : Regime σ γ) : Prop where
  stack : ∀ machine stack, regime.holds machine → regime.holds { machine with stack }
  heap : ∀ machine heap, regime.holds machine → regime.holds { machine with heap }
  registrations : ∀ machine registrations, regime.holds machine →
    regime.holds { machine with registrations }
  environment : ∀ machine environment, regime.holds machine →
    regime.holds { machine with environment }
  goes : ∀ machine frame outer offset, machine.frames = frame :: outer → regime.holds machine →
    regime.holds (machine.moved frame outer offset)
  excuses : ∀ kind, regime.excuses kind

namespace Regime.Apart

variable {regime : Regime σ γ} (hapart : regime.Apart)

include hapart

/-! ### Building blocks -/

theorem fault (cause : FaultCause) : regime.Upholds (Exec.fault cause : Exec σ γ α) :=
  .excused (hapart.excuses _)

theorem ofExcept (result : Except FaultCause α) :
    regime.Upholds (Exec.ofExcept result : Exec σ γ α) := by
  cases result with
  | ok value => exact .pure value
  | error cause => exact hapart.fault cause

omit hapart in
theorem get : regime.Upholds (MonadState.get : Exec σ γ (Machine σ γ)) := fun _ h => h

theorem outside (service : Service σ α) :
    regime.Upholds (Exec.outside service : Exec σ γ α) := by
  intro machine h
  unfold Exec.outside
  cases service machine.environment with
  | ok value environment => exact hapart.environment machine environment h
  | error fault environment =>
      exact ⟨hapart.environment machine environment h, hapart.excuses fault.kind⟩

theorem outsideWithHeap (service : Service (σ × Heap) α) :
    regime.Upholds (Exec.outsideWithHeap service : Exec σ γ α) := by
  intro machine h
  have hafter (environment : σ) (heap : Heap) :
      regime.holds { machine with environment, heap } :=
    hapart.heap _ heap (hapart.environment machine environment h)
  unfold Exec.outsideWithHeap
  cases service (machine.environment, machine.heap) with
  | ok value after => exact hafter after.1 after.2
  | error fault after => exact ⟨hafter after.1 after.2, hapart.excuses fault.kind⟩

theorem push (value : Value) : regime.Upholds (Exec.push value : Exec σ γ Unit) :=
  .update fun machine h => hapart.stack machine _ h

theorem pop? : regime.Upholds (Exec.pop? : Exec σ γ (Option Value)) := by
  intro machine h
  rw [Exec.pop?_eq]
  exact hapart.stack machine _ h

theorem pop (shortage : Shortage) : regime.Upholds (Exec.pop shortage : Exec σ γ Value) := by
  refine .bind hapart.pop? fun found => ?_
  cases found with
  | none => exact hapart.fault _
  | some value => exact .pure value

theorem popMany (count : Nat) (shortage : Shortage) :
    regime.Upholds (Exec.popMany count shortage : Exec σ γ (List Value)) := by
  intro machine h
  unfold Exec.popMany
  simp only
  split
  next => exact hapart.stack machine _ h
  next => exact ⟨h, hapart.excuses _⟩

theorem popText (op : Opcode) : regime.Upholds (Exec.popText op : Exec σ γ String) := by
  refine .bind (hapart.pop (.top op)) fun value => ?_
  split
  next text => exact .pure text
  next => exact hapart.fault _

theorem popCallee : regime.Upholds (Exec.popCallee : Exec σ γ String) := by
  refine .bind (hapart.pop .callee) fun value => ?_
  split
  next name => exact .pure name
  next => exact hapart.fault _

/-! ### Operators and locals -/

theorem pushConst (function : CompiledFunction Value) (position : Nat) :
    regime.Upholds (Exec.pushConst function position : Exec σ γ Unit) := by
  unfold Exec.pushConst
  split
  next value _ => exact hapart.push value
  next => exact hapart.fault _

theorem loadLocal (slot : Nat) : regime.Upholds (Exec.loadLocal slot : Exec σ γ Unit) := by
  refine .bind (.bind get fun _ => .pure _) fun values => ?_
  split
  next value _ => exact hapart.push value
  next => exact hapart.fault _

theorem combine (operator : Operator) (count : Nat) :
    regime.Upholds (Exec.combine operator count : Exec σ γ Unit) := by
  unfold Exec.combine
  split
  next => exact hapart.fault _
  next =>
    refine .bind (hapart.popMany count _) fun operands => .bind get fun machine => ?_
    exact .bind (hapart.ofExcept _) fun value => hapart.push value

theorem neg : regime.Upholds (Exec.neg : Exec σ γ Unit) := by
  refine .bind (hapart.pop _) fun value => ?_
  split
  next number => exact hapart.push _
  next number => exact hapart.push _
  next => exact hapart.fault _

theorem not : regime.Upholds (Exec.not : Exec σ γ Unit) := by
  refine .bind (hapart.pop _) fun value => ?_
  split
  next truth => exact hapart.push _
  next => exact hapart.fault _

theorem goTo (offset : Nat) : regime.Upholds (Exec.goTo offset : Exec σ γ Unit) := by
  intro machine h
  cases hframes : machine.frames with
  | nil =>
      unfold Exec.goTo
      rw [Exec.modifyFrame_nil hframes]
      exact h
  | cons frame outer =>
      rw [Exec.goTo_eq hframes]
      exact hapart.goes machine frame outer offset hframes h

theorem jump (function : CompiledFunction Value) (target : Nat) :
    regime.Upholds (Exec.jump function target : Exec σ γ Unit) := by
  unfold Exec.jump
  split
  next => exact hapart.fault _
  next => exact hapart.goTo target

theorem jumpIfFalse (function : CompiledFunction Value) (target : Nat) :
    regime.Upholds (Exec.jumpIfFalse function target : Exec σ γ Unit) := by
  refine .bind (hapart.pop .condition) fun value => ?_
  split
  next => exact .pure ()
  next => exact hapart.jump function target

/-! ### Arrays -/

theorem updateArray (handle : Nat) (change : ArrayObject → ArrayObject) :
    regime.Upholds (Exec.updateArray handle change : Exec σ γ Unit) :=
  .update fun machine h => hapart.heap machine _ h

theorem allocateArray (object : ArrayObject) :
    regime.Upholds (Exec.allocateArray object : Exec σ γ Value) :=
  fun machine h => hapart.heap machine _ h

omit hapart in
theorem object (handle : Nat) : regime.Upholds (Exec.object handle : Exec σ γ ArrayObject) :=
  .bind get fun _ => .pure _

theorem popIndex (op : Opcode) : regime.Upholds (Exec.popIndex op : Exec σ γ Int64) := by
  refine .bind (hapart.pop (.top op)) fun value => ?_
  split
  next index => exact .pure index
  next => exact hapart.fault _

theorem popArray (op : Opcode) : regime.Upholds (Exec.popArray op : Exec σ γ Nat) := by
  refine .bind (hapart.pop (.top op)) fun value => ?_
  split
  next handle => exact .pure handle
  next => exact hapart.fault _

theorem makeArray (count : Nat) : regime.Upholds (Exec.makeArray count : Exec σ γ Unit) := by
  refine .bind (hapart.popMany count _) fun items => ?_
  split
  next => exact hapart.fault _
  next => exact .bind (hapart.allocateArray _) fun value => hapart.push value

theorem arrayGet : regime.Upholds (Exec.arrayGet : Exec σ γ Unit) := by
  refine .bind (hapart.popIndex _) fun index => .bind (hapart.popArray _) fun handle => ?_
  refine .bind (object handle) fun found => ?_
  simp only
  split
  next item _ => exact hapart.push item
  next => exact hapart.fault _

theorem arraySet : regime.Upholds (Exec.arraySet : Exec σ γ Unit) := by
  refine .bind (hapart.pop _) fun value => .bind (hapart.popIndex _) fun index => ?_
  refine .bind (hapart.popArray _) fun handle => .bind (object handle) fun found => ?_
  simp only
  split
  next => exact hapart.fault _
  next =>
    split
    next => exact hapart.fault _
    next => exact hapart.updateArray handle _

theorem arrayPush : regime.Upholds (Exec.arrayPush : Exec σ γ Unit) := by
  refine .bind (hapart.pop _) fun value => .bind (hapart.popArray _) fun handle => ?_
  refine .bind (object handle) fun found => ?_
  simp only
  split
  next => exact hapart.fault _
  next => exact hapart.updateArray handle _

theorem arrayLen : regime.Upholds (Exec.arrayLen : Exec σ γ Unit) := by
  refine .bind (hapart.pop _) fun value => ?_
  split
  next handle => exact .bind (object handle) fun found => hapart.push _
  next text => exact hapart.push _
  next => exact hapart.fault _

/-! ### The host -/

variable (setup : Setup σ γ)

theorem print (site : Site) : regime.Upholds (Exec.print setup site) := by
  refine .bind ((hapart.pop _).within site) fun value => ?_
  exact .bind get fun machine => .bind (hapart.ofExcept _) fun text => hapart.outside _

theorem onEvent : regime.Upholds (Exec.onEvent setup) := by
  refine .bind (hapart.popText _) fun handler => .bind (hapart.popText _) fun event => ?_
  split
  next => exact .update fun machine h => hapart.registrations machine _ h
  next => exact hapart.fault _

theorem foreignRequest (count : Nat) :
    regime.Upholds (Exec.foreignRequest count : Exec σ γ ForeignCall) := by
  have harguments (shortage : Shortage) (count : Nat) (taken : List ForeignArgument) :
      regime.Upholds (Exec.popForeignArguments shortage count taken : Exec σ γ _) := by
    induction count generalizing taken with
    | zero => exact .pure taken
    | succ count ih =>
        refine .bind (hapart.pop shortage) fun value => ?_
        exact .bind (hapart.popText _) fun tag => ih _
  refine .bind (hapart.popText _) fun symbol => .bind (hapart.popText _) fun lib => ?_
  refine .bind (hapart.popText _) fun returns => ?_
  exact .bind (harguments _ count []) fun arguments => .pure _

theorem foreignCall (count : Nat) : regime.Upholds (Exec.foreignCall setup count) := by
  rw [Exec.foreignCall_asked]
  refine .bind (hapart.foreignRequest count) fun call => ?_
  unfold Exec.answerForeign
  split
  next => exact hapart.fault _
  next foreign _ =>
    refine .bind (hapart.outsideWithHeap _) fun value => ?_
    split
    next => exact hapart.push value
    next => exact .pure ()

theorem memory (op : Opcode) : regime.Upholds (Exec.memory setup op) := by
  unfold Exec.memory
  split
  next memory _ => exact .pure memory
  next => exact hapart.fault _

theorem popNumber (op : Opcode) (what : MemoryNumber) :
    regime.Upholds (Exec.popNumber op what : Exec σ γ Nat) := by
  refine .bind (hapart.pop _) fun value => ?_
  split
  next => exact hapart.fault _
  next =>
    split
    next => exact hapart.fault _
    next => exact .pure _

theorem popAddress (op : Opcode) : regime.Upholds (Exec.popAddress op : Exec σ γ UInt64) := by
  refine .bind (hapart.pop _) fun value => ?_
  split
  next address _ => exact .pure address
  next => exact .pure 0
  next => exact hapart.fault _

theorem popWidth (op : Opcode) : regime.Upholds (Exec.popWidth op : Exec σ γ MemoryWidth) := by
  refine .bind (hapart.popText op) fun name => ?_
  split
  next width _ => exact .pure width
  next => exact hapart.fault _

theorem memAlloc : regime.Upholds (Exec.memAlloc setup) := by
  refine .bind (hapart.popNumber _ _) fun size => .bind (hapart.memory setup _) fun memory => ?_
  exact .bind (hapart.outside _) fun address => hapart.push _

theorem memRead : regime.Upholds (Exec.memRead setup) := by
  refine .bind (hapart.popWidth _) fun width => .bind (hapart.popNumber _ _) fun offset => ?_
  refine .bind (hapart.popAddress _) fun address => .bind (hapart.memory setup _) fun memory => ?_
  exact .bind (hapart.outside _) fun value => hapart.push value

theorem memWrite : regime.Upholds (Exec.memWrite setup) := by
  refine .bind (hapart.popWidth _) fun width => .bind (hapart.pop _) fun value => ?_
  refine .bind (hapart.popNumber _ _) fun offset => .bind (hapart.popAddress _) fun address => ?_
  exact .bind (hapart.memory setup _) fun memory => hapart.outside _

theorem memFree : regime.Upholds (Exec.memFree setup) := by
  refine .bind (hapart.popAddress _) fun address => .bind (hapart.memory setup _) fun memory => ?_
  exact hapart.outside _

/-! ### Instructions -/

/-- All instructions but those that begin or end frames and those that store into locals. -/
theorem execute (site : Site) (function : CompiledFunction Value) (operand : Nat) {op : Opcode}
    (hop : ¬ (op = .call ∨ op = .ret ∨ op = .halt ∨ op = .storeLocal ∨ op = .storeLocalInt)) :
    regime.Upholds (Exec.execute setup site function operand op) := by
  -- Most instructions only act on the operand stack and go on.
  have hproceeds {action : Exec σ γ Unit} (h : regime.Upholds action) : regime.Upholds
      (Exec.within site action >>= fun _ => Pure.pure .proceed : Exec σ γ (Signal γ)) :=
    (h.within site).returning _
  cases op with
  | call | ret | halt | storeLocal | storeLocalInt => simp at hop
  | nop => exact .pure _
  | pushConst => exact hproceeds (hapart.pushConst function operand)
  | loadLocal => exact hproceeds (hapart.loadLocal operand)
  | add | sub | mul | div | mod | eq | gt | lt | and | or =>
      exact hproceeds (hapart.combine _ operand)
  | neg => exact hproceeds hapart.neg
  | not => exact hproceeds hapart.not
  | jmp => exact hproceeds (hapart.jump function operand)
  | jmpIfFalse => exact hproceeds (hapart.jumpIfFalse function operand)
  | print => exact (hapart.print setup site).returning _
  | makeArray => exact hproceeds (hapart.makeArray operand)
  | arrayGet => exact hproceeds hapart.arrayGet
  | arraySet => exact hproceeds hapart.arraySet
  | arrayPush => exact hproceeds hapart.arrayPush
  | arrayLen => exact hproceeds hapart.arrayLen
  | onEvent => exact hproceeds (hapart.onEvent setup)
  | ffiCall => exact hproceeds (hapart.foreignCall setup operand)
  | memAlloc => exact hproceeds (hapart.memAlloc setup)
  | memRead => exact hproceeds (hapart.memRead setup)
  | memWrite => exact hproceeds (hapart.memWrite setup)
  | memFree => exact hproceeds (hapart.memFree setup)

end Regime.Apart

end DocScript
