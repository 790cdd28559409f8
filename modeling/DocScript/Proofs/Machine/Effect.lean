import DocScript.Machine.Step
import DocScript.Proofs.Bytecode.Flow

/-! # Stack effects

Apart from calls and returns an instruction takes a number of values from the stack and
leaves a number of values there instead. What lies below stays as it is, and so do the
frames, except that locals may change. Even an instruction that faults takes no more.
-/

namespace DocScript

/-- Where a frame stands: its function and the offset of its next instruction. -/
def Frame.place (frame : Frame) : CompiledFunction Value × Nat := (frame.function, frame.offset)

/-- Where all frames stand, the innermost one first. -/
def Machine.places (machine : Machine σ γ) : List (CompiledFunction Value × Nat) :=
  machine.frames.map Frame.place

/-- The frames stand where they stood, in the same run. -/
structure Machine.Keeps (before after : Machine σ γ) : Prop where
  places : after.places = before.places
  base : after.base = before.base

namespace Machine.Keeps

variable {before middle after : Machine σ γ}

theorem refl (machine : Machine σ γ) : machine.Keeps machine := ⟨rfl, rfl⟩

theorem trans (hfirst : before.Keeps middle) (hsecond : middle.Keeps after) :
    before.Keeps after :=
  ⟨hsecond.places.trans hfirst.places, hsecond.base.trans hfirst.base⟩

end Machine.Keeps

namespace Exec

theorem bind_eq (first : Exec σ γ α) (next : α → Exec σ γ β) (machine : Machine σ γ) :
    (first >>= next) machine =
      match first machine with
      | .ok value middle => next value middle
      | .error fault middle => .error fault middle := by
  change EStateM.bind first next machine = _
  unfold EStateM.bind
  cases first machine <;> rfl

/-- An action that comes after another one is done only if that one was. -/
theorem bind_ok {first : Exec σ γ α} {next : α → Exec σ γ β} {machine after : Machine σ γ}
    {result : β} (h : (first >>= next) machine = .ok result after) :
    ∃ value middle, first machine = .ok value middle ∧ next value middle = .ok result after := by
  rw [bind_eq] at h
  cases hresult : first machine with
  | error fault middle =>
      rw [hresult] at h
      cases h
  | ok value middle =>
      rw [hresult] at h
      exact ⟨value, middle, rfl, h⟩

/-- Without a frame there is none to change. -/
theorem modifyFrame_nil {machine : Machine σ γ} (hframes : machine.frames = [])
    (change : Frame → Frame) : modifyFrame change machine = .ok () machine := by
  change EStateM.Result.ok () _ = _
  simp only [hframes]

theorem modifyFrame_cons {machine : Machine σ γ} {frame : Frame} {outer : List Frame}
    (hframes : machine.frames = frame :: outer) (change : Frame → Frame) :
    modifyFrame change machine = .ok () { machine with frames := change frame :: outer } := by
  change EStateM.Result.ok () _ = _
  simp only [hframes]

/-- The frames stand where they stood, whether there was a fault or not. -/
def Kept (before : Machine σ γ) : EStateM.Result Fault (Machine σ γ) α → Prop
  | .ok _ after | .error _ after => before.Keeps after

/-- There are a number of new values on top of the rest, or there was a fault above the rest. -/
def Leaves (rest : List Value) (given : Nat) : EStateM.Result Fault (Machine σ γ) α → Prop
  | .ok _ after => ∃ pushed, after.stack = pushed ++ rest ∧ pushed.length = given
  | .error _ after => ∃ kept, after.stack = kept ++ rest

/-- The action takes a number of values from the stack and leaves a number of values there.
If it faults, it still leaves everything below. -/
structure Effect (taken given : Nat) (action : Exec σ γ α) : Prop where
  keeps : ∀ machine, Kept machine (action machine)
  leaves : ∀ (machine : Machine σ γ) popped rest, machine.stack = popped ++ rest →
    popped.length = taken → Leaves rest given (action machine)

theorem kept_bind {first : Exec σ γ α} {next : α → Exec σ γ β}
    (hfirst : ∀ machine, Kept machine (first machine))
    (hnext : ∀ value machine, Kept machine (next value machine)) (machine : Machine σ γ) :
    Kept machine ((first >>= next) machine) := by
  have hdone := hfirst machine
  rw [bind_eq]
  cases hresult : first machine with
  | error fault after =>
      rw [hresult] at hdone
      exact hdone
  | ok value middle =>
      rw [hresult] at hdone
      have hlast := hnext value middle
      simp only
      cases hafter : next value middle <;> rw [hafter] at hlast <;> exact hdone.trans hlast

namespace Effect

variable {taken more given : Nat} {action first : Exec σ γ α} {next : α → Exec σ γ β}

theorem pure (value : α) : Effect 0 0 (Pure.pure value : Exec σ γ α) where
  keeps machine := .refl machine
  leaves _ popped _ hstack htaken := ⟨popped, hstack, htaken⟩

theorem fault (cause : FaultCause) : Effect taken given (Exec.fault cause : Exec σ γ α) where
  keeps machine := .refl machine
  leaves _ popped _ hstack _ := ⟨popped, hstack⟩

/-- First one action takes what lies on top, then another one takes what lies below. -/
theorem bind (hfirst : Effect taken 0 first) (hnext : ∀ value, Effect more given (next value)) :
    Effect (more + taken) given (first >>= next) where
  keeps := kept_bind hfirst.keeps fun value => (hnext value).keeps
  leaves := by
    intro machine popped rest hstack hlength
    -- What is taken off falls into what the first action takes and what the second one does.
    have hsplit : machine.stack = popped.take taken ++ (popped.drop taken ++ rest) := by
      rw [← List.append_assoc, List.take_append_drop, hstack]
    have htaken : (popped.take taken).length = taken := by
      rw [List.length_take]
      omega
    have hmore : (popped.drop taken).length = more := by
      rw [List.length_drop]
      omega
    have hdone := hfirst.leaves machine _ _ hsplit htaken
    rw [bind_eq]
    cases hresult : first machine with
    | error fault after =>
        rw [hresult] at hdone
        obtain ⟨kept, hkept⟩ := hdone
        exact ⟨kept ++ popped.drop taken, by rw [hkept, List.append_assoc]⟩
    | ok value middle =>
        rw [hresult] at hdone
        obtain ⟨pushed, hpushed, hnone⟩ := hdone
        rw [List.eq_nil_of_length_eq_zero hnone, List.nil_append] at hpushed
        exact (hnext value).leaves middle _ rest hpushed hmore

/-- An action that leaves the stack alone may come first. -/
theorem after (hfirst : Effect 0 0 first) (hnext : ∀ value, Effect taken given (next value)) :
    Effect taken given (first >>= next) :=
  hfirst.bind hnext

/-- After the last value has been taken the stack may only grow. -/
theorem last (hfirst : Effect taken 0 first) (hnext : ∀ value, Effect 0 given (next value)) :
    Effect taken given (first >>= next) := by
  have h := hfirst.bind hnext
  rwa [Nat.zero_add] at h

/-- A change of the result and of the fault does not matter. -/
theorem of_same {other : Exec σ γ β} (h : Effect taken given action)
    (hsame : ∀ machine, match action machine, other machine with
      | .ok _ after, .ok _ after' | .error _ after, .error _ after' => after = after'
      | _, _ => False) : Effect taken given other where
  keeps := by
    intro machine
    have hdone := h.keeps machine
    have hmachine := hsame machine
    cases hresult : action machine <;> cases hother : other machine <;>
      rw [hresult] at hdone hmachine <;> rw [hother] at hmachine <;>
      first | exact hmachine.elim | exact hmachine ▸ hdone
  leaves := by
    intro machine popped rest hstack htaken
    have hdone := h.leaves machine popped rest hstack htaken
    have hmachine := hsame machine
    cases hresult : action machine <;> cases hother : other machine <;>
      rw [hresult] at hdone hmachine <;> rw [hother] at hmachine <;>
      first | exact hmachine.elim | exact hmachine ▸ hdone

/-- What is made of the result in the end does not matter. -/
theorem returning (hfirst : Effect taken given first) (result : α → β) :
    Effect taken given (first >>= fun value => Pure.pure (result value)) := by
  refine hfirst.of_same fun machine => ?_
  rw [bind_eq]
  cases first machine <;> rfl

/-- The site of a fault does not matter either. -/
theorem within (site : Site) (h : Effect taken given action) :
    Effect taken given (Exec.within site action) := by
  refine h.of_same fun machine => ?_
  unfold Exec.within
  cases action machine <;> rfl

/-- An action that changes neither the stack nor where the frames stand. -/
theorem of_keeps (h : ∀ machine, match action machine with
    | .ok _ after | .error _ after => machine.Keeps after ∧ after.stack = machine.stack) :
    Effect 0 0 action where
  keeps := by
    intro machine
    have hdone := h machine
    cases hresult : action machine <;> rw [hresult] at hdone <;> exact hdone.1
  leaves := by
    intro machine popped rest hstack htaken
    have hdone := h machine
    cases hresult : action machine with
    | error fault after =>
        rw [hresult] at hdone
        exact ⟨popped, hdone.2.trans hstack⟩
    | ok value after =>
        rw [hresult] at hdone
        exact ⟨popped, hdone.2.trans hstack, htaken⟩

/-! ### The stack -/

theorem push (value : Value) : Effect 0 1 (Exec.push value : Exec σ γ Unit) where
  keeps _ := ⟨rfl, rfl⟩
  leaves _ popped _ hstack htaken :=
    ⟨value :: popped, congrArg (value :: ·) hstack, congrArg (· + 1) htaken⟩

theorem pop? : Effect 1 0 (Exec.pop? : Exec σ γ (Option Value)) where
  keeps := by
    intro machine
    unfold Exec.pop?
    split <;> exact ⟨rfl, rfl⟩
  leaves := by
    intro machine popped rest hstack htaken
    obtain ⟨value, rfl⟩ := List.length_eq_one_iff.1 htaken
    unfold Exec.pop?
    rw [hstack]
    exact ⟨[], rfl, rfl⟩

theorem pop (shortage : Shortage) : Effect 1 0 (Exec.pop shortage : Exec σ γ Value) := by
  refine pop?.bind fun found => ?_
  cases found with
  | none => exact fault _
  | some value => exact pure value

theorem popMany (count : Nat) (shortage : Shortage) :
    Effect count 0 (Exec.popMany count shortage : Exec σ γ (List Value)) where
  keeps := by
    intro machine
    unfold Exec.popMany
    simp only
    split <;> exact ⟨rfl, rfl⟩
  leaves := by
    intro machine popped rest hstack htaken
    unfold Exec.popMany
    rw [hstack, List.take_left' htaken, List.drop_left' htaken, if_pos htaken]
    exact ⟨[], rfl, rfl⟩

theorem popText (op : Opcode) : Effect 1 0 (Exec.popText op : Exec σ γ String) := by
  refine (pop (.top op)).bind fun value => ?_
  split
  next text => exact pure text
  next => exact fault _

/-! ### Everything else -/

theorem get : Effect 0 0 (MonadState.get : Exec σ γ (Machine σ γ)) :=
  of_keeps fun machine => ⟨.refl machine, rfl⟩

theorem locals : Effect 0 0 (Exec.locals : Exec σ γ (Array Value)) :=
  get.returning _

theorem ofExcept (result : Except FaultCause α) :
    Effect 0 0 (Exec.ofExcept result : Exec σ γ α) := by
  cases result with
  | ok value => exact pure value
  | error cause => exact fault cause

theorem outside (service : Service σ α) : Effect 0 0 (Exec.outside service : Exec σ γ α) := by
  refine of_keeps fun machine => ?_
  unfold Exec.outside
  cases service machine.environment <;> exact ⟨⟨rfl, rfl⟩, rfl⟩

theorem outsideWithHeap (service : Service (σ × Heap) α) :
    Effect 0 0 (Exec.outsideWithHeap service : Exec σ γ α) := by
  refine of_keeps fun machine => ?_
  unfold Exec.outsideWithHeap
  cases service (machine.environment, machine.heap) <;> exact ⟨⟨rfl, rfl⟩, rfl⟩

theorem modifyFrame {change : Frame → Frame} (h : ∀ frame, (change frame).place = frame.place) :
    Effect 0 0 (Exec.modifyFrame change : Exec σ γ Unit) := by
  refine of_keeps fun machine => ?_
  cases hframes : machine.frames with
  | nil =>
      rw [modifyFrame_nil hframes]
      exact ⟨.refl machine, rfl⟩
  | cons frame frames =>
      rw [modifyFrame_cons hframes]
      refine ⟨⟨?_, rfl⟩, rfl⟩
      rw [Machine.places, Machine.places, hframes, List.map_cons, List.map_cons, h]

theorem update {change : Machine σ γ → Machine σ γ}
    (h : ∀ machine, machine.Keeps (change machine) ∧ (change machine).stack = machine.stack) :
    Effect 0 0 (modify change : Exec σ γ Unit) :=
  of_keeps h

theorem setLocal (slot : Nat) (value : Value) :
    Effect 0 0 (Exec.setLocal slot value : Exec σ γ Unit) := by
  refine locals.after fun values => ?_
  split
  next => exact modifyFrame fun frame => rfl
  next => exact fault _

/-! ### Instructions -/

variable (setup : Setup σ γ) (site : Site)

theorem pushConst (function : CompiledFunction Value) (position : Nat) :
    Effect 0 1 (Exec.pushConst function position : Exec σ γ Unit) := by
  unfold Exec.pushConst
  split
  next value _ => exact push value
  next => exact fault _

theorem loadLocal (slot : Nat) : Effect 0 1 (Exec.loadLocal slot : Exec σ γ Unit) := by
  refine locals.after fun values => ?_
  split
  next value _ => exact push value
  next => exact fault _

theorem storeLocal (slot : Nat) : Effect 1 0 (Exec.storeLocal slot : Exec σ γ Unit) :=
  (pop _).bind fun value => setLocal slot value

theorem storeLocalInt (slot : Nat) : Effect 1 0 (Exec.storeLocalInt slot : Exec σ γ Unit) := by
  refine (pop _).bind fun value => ?_
  split
  next number _ => exact setLocal slot _
  next => exact fault _

theorem combine (operator : Operator) (count : Nat) :
    Effect count 1 (Exec.combine operator count : Exec σ γ Unit) := by
  unfold Exec.combine
  split
  next => exact fault _
  next =>
    refine (popMany count _).last fun operands => ?_
    exact get.after fun machine => (ofExcept _).after fun value => push value

theorem neg : Effect 1 1 (Exec.neg : Exec σ γ Unit) := by
  refine (pop _).bind fun value => ?_
  split
  next number => exact push _
  next number => exact push _
  next => exact fault _

theorem not : Effect 1 1 (Exec.not : Exec σ γ Unit) := by
  refine (pop _).bind fun value => ?_
  split
  next truth => exact push _
  next => exact fault _

theorem print : Effect 1 0 (Exec.print setup site) := by
  refine ((pop _).within site).bind fun value => ?_
  exact get.after fun machine => (ofExcept _).after fun text => outside _

theorem onEvent : Effect 2 0 (Exec.onEvent setup) := by
  refine (popText _).bind fun handler => (popText _).bind fun event => ?_
  split
  next => exact update fun _ => ⟨⟨rfl, rfl⟩, rfl⟩
  next => exact fault _

/-! ### Arrays -/

theorem popIndex (op : Opcode) : Effect 1 0 (Exec.popIndex op : Exec σ γ Int64) := by
  refine (pop _).bind fun value => ?_
  split
  next index => exact pure index
  next => exact fault _

theorem popArray (op : Opcode) : Effect 1 0 (Exec.popArray op : Exec σ γ Nat) := by
  refine (pop _).bind fun value => ?_
  split
  next handle => exact pure handle
  next => exact fault _

theorem object (handle : Nat) : Effect 0 0 (Exec.object handle : Exec σ γ ArrayObject) :=
  get.returning _

theorem updateArray (handle : Nat) (change : ArrayObject → ArrayObject) :
    Effect 0 0 (Exec.updateArray handle change : Exec σ γ Unit) :=
  update fun _ => ⟨⟨rfl, rfl⟩, rfl⟩

theorem allocateArray (object : ArrayObject) :
    Effect 0 0 (Exec.allocateArray object : Exec σ γ Value) :=
  of_keeps fun _ => ⟨⟨rfl, rfl⟩, rfl⟩

theorem makeArray (count : Nat) : Effect count 1 (Exec.makeArray count : Exec σ γ Unit) := by
  refine (popMany count _).last fun items => ?_
  split
  next => exact fault _
  next => exact (allocateArray _).after fun value => push value

theorem arrayGet : Effect 2 1 (Exec.arrayGet : Exec σ γ Unit) := by
  refine (popIndex _).bind fun index => (popArray _).bind fun handle => ?_
  refine (object handle).after fun found => ?_
  simp only
  split
  next item _ => exact push item
  next => exact fault _

theorem arraySet : Effect 3 0 (Exec.arraySet : Exec σ γ Unit) := by
  refine (pop _).bind fun value => (popIndex _).bind fun index => (popArray _).bind fun handle => ?_
  refine (object handle).after fun found => ?_
  simp only
  split
  next => exact fault _
  next =>
    split
    next => exact fault _
    next => exact updateArray handle _

theorem arrayPush : Effect 2 0 (Exec.arrayPush : Exec σ γ Unit) := by
  refine (pop _).bind fun value => (popArray _).bind fun handle => ?_
  refine (object handle).after fun found => ?_
  simp only
  split
  next => exact fault _
  next => exact updateArray handle _

theorem arrayLen : Effect 1 1 (Exec.arrayLen : Exec σ γ Unit) := by
  refine (pop _).bind fun value => ?_
  split
  next handle => exact (object handle).after fun found => push _
  next text => exact push _
  next => exact fault _

/-! ### Memory -/

theorem memory (op : Opcode) : Effect 0 0 (Exec.memory setup op) := by
  unfold Exec.memory
  split
  next memory _ => exact pure memory
  next => exact fault _

theorem popNumber (op : Opcode) (what : MemoryNumber) :
    Effect 1 0 (Exec.popNumber op what : Exec σ γ Nat) := by
  refine (pop _).bind fun value => ?_
  split
  next => exact fault _
  next number _ =>
    split
    next => exact fault _
    next => exact pure _

theorem popAddress (op : Opcode) : Effect 1 0 (Exec.popAddress op : Exec σ γ UInt64) := by
  refine (pop _).bind fun value => ?_
  split
  next address _ => exact pure address
  next => exact pure 0
  next => exact fault _

theorem popWidth (op : Opcode) : Effect 1 0 (Exec.popWidth op : Exec σ γ MemoryWidth) := by
  refine (popText op).bind fun name => ?_
  split
  next width _ => exact pure width
  next => exact fault _

theorem memAlloc : Effect 1 1 (Exec.memAlloc setup) :=
  (popNumber _ _).bind fun _ => (memory setup _).after fun _ =>
    (outside _).after fun _ => push _

theorem memRead : Effect 3 1 (Exec.memRead setup) :=
  (popWidth _).bind fun _ => (popNumber _ _).bind fun _ =>
    (popAddress _).bind fun _ => (memory setup _).after fun _ =>
      (outside _).after fun _ => push _

theorem memWrite : Effect 4 0 (Exec.memWrite setup) :=
  (popWidth _).bind fun _ => (pop _).bind fun _ => (popNumber _ _).bind fun _ =>
    (popAddress _).bind fun _ => (memory setup _).after fun _ => outside _

theorem memFree : Effect 1 0 (Exec.memFree setup) :=
  (popAddress _).bind fun _ => (memory setup _).after fun _ => outside _

/-! ### Foreign functions -/

theorem popForeignArguments (shortage : Shortage) (count : Nat) (taken : List ForeignArgument) :
    Effect (2 * count) 0
      (Exec.popForeignArguments shortage count taken : Exec σ γ (List ForeignArgument)) := by
  induction count generalizing taken with
  | zero => exact pure taken
  | succ count ih =>
      exact (pop shortage).bind fun value => (popText _).bind fun tag => ih (⟨tag, value⟩ :: taken)

/-! ### Native functions -/

theorem onBackend (native : Native) (service : Service γ Unit) :
    Effect 0 0 (Exec.onBackend native service : Exec σ γ Unit) := by
  refine of_keeps fun machine => ?_
  unfold Exec.onBackend
  cases machine.graphics with
  | absent => exact ⟨.refl machine, rfl⟩
  | looping => exact ⟨.refl machine, rfl⟩
  | ready backend =>
      simp only
      cases service backend <;> exact ⟨⟨rfl, rfl⟩, rfl⟩

theorem openWindow (arguments : List Value) : Effect 0 0 (Exec.openWindow setup arguments) := by
  unfold Exec.openWindow
  split
  next =>
    split
    next => exact onBackend _ _
    next => exact fault _
  next => exact fault _

theorem drawRect (arguments : List Value) : Effect 0 0 (Exec.drawRect setup arguments) := by
  refine (ofExcept _).after fun rect => get.after fun machine => ?_
  split
  next =>
    refine update fun machine => ?_
    split <;> exact ⟨⟨rfl, rfl⟩, rfl⟩
  next => exact onBackend _ _

theorem runLoop : Effect 0 0 (Exec.runLoop setup site) := by
  refine of_keeps fun machine => ?_
  unfold Exec.runLoop
  cases machine.graphics with
  | absent => exact ⟨.refl machine, rfl⟩
  | looping => exact ⟨.refl machine, rfl⟩
  | ready backend => exact ⟨⟨rfl, rfl⟩, rfl⟩

theorem pushHandle (native : Native) (ofBackend : γ → UInt64)
    (ofLoop : UInt64 → UInt64 → UInt64) :
    Effect 0 1 (Exec.pushHandle native ofBackend ofLoop : Exec σ γ Unit) := by
  refine get.after fun machine => ?_
  split
  next backend _ => exact push _
  next layer device _ _ => exact push _
  next => exact fault _

/-- A native function leaves as many values as it has results. -/
theorem callNative (native : Native) (arguments : List Value) :
    Effect 0 (SignatureTable.native native).results
      (Exec.callNative setup site native arguments) := by
  unfold Exec.callNative
  simp only
  split
  next => exact fault _
  next =>
    cases native with
    | init => exact (openWindow setup arguments).returning _
    | drawRect => exact (drawRect setup arguments).returning _
    | runLoop => exact runLoop setup site
    | getLayer => exact (pushHandle _ _ _).returning _
    | getDevice => exact (pushHandle _ _ _).returning _

end Effect

end Exec

end DocScript
