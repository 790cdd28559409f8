import DocScript.Proofs.Machine.Custody

/-! # What instructions uphold

A regime is a condition on machines together with the faults that it excuses. Most
instructions work on the stack, on the heap and outside of the machine. They uphold
every regime that looks at none of these and excuses faults about operands and about
capabilities that are not there.
-/

namespace DocScript

/-- What is to hold of a machine, and the faults that are excused. -/
structure Regime (σ γ : Type) where
  holds : Machine σ γ → Prop
  excuses : FaultKind → Prop

namespace Regime

/-- The condition holds of the machine that is left, and if there was a fault then it is excused. -/
def Upheld (regime : Regime σ γ) : EStateM.Result Fault (Machine σ γ) α → Prop
  | .ok _ after => regime.holds after
  | .error fault after => regime.holds after ∧ regime.excuses fault.kind

/-- Wherever the condition holds, the action upholds the regime. -/
def Upholds (regime : Regime σ γ) (action : Exec σ γ α) : Prop :=
  ∀ machine, regime.holds machine → regime.Upheld (action machine)

/-- The condition looks neither at the stack or the heap nor at what lies outside of the machine,
and faults about these are excused. -/
structure Fair (regime : Regime σ γ) : Prop where
  stack : ∀ machine stack, regime.holds machine → regime.holds { machine with stack }
  heap : ∀ machine heap, regime.holds machine → regime.holds { machine with heap }
  graphics : ∀ machine graphics, regime.holds machine → regime.holds { machine with graphics }
  environment : ∀ machine environment, regime.holds machine →
    regime.holds { machine with environment }
  excuses : ∀ kind, kind.isOperational = true → regime.excuses kind

/-- A regime is a custody in which every value is trusted. -/
def custody (regime : Regime σ γ) : Custody σ γ where
  holds := regime.holds
  trusts _ _ := True
  excuses := regime.excuses

theorem custody_passes {regime : Regime σ γ} {before after : Machine σ γ} :
    regime.custody.Passes before after ↔ regime.holds after :=
  ⟨fun h => h.holds, fun h => ⟨h, fun _ _ => trivial⟩⟩

theorem Fair.closed {regime : Regime σ γ} (hfair : regime.Fair) : regime.custody.Closed where
  scalar _ _ := trivial
  stacked _ _ _ _ := trivial
  stack machine stack h _ := custody_passes.2 (hfair.stack machine stack h)
  items _ _ _ _ _ _ := trivial
  update machine _ _ h _ _ _ := custody_passes.2 (hfair.heap machine _ h)
  allocate machine _ h _ _ := ⟨custody_passes.2 (hfair.heap machine _ h), trivial⟩
  graphics machine slot h _ := custody_passes.2 (hfair.graphics machine slot h)
  environment machine environment h :=
    custody_passes.2 (hfair.environment machine environment h)
  excuses := hfair.excuses

/-- Whatever a capability gives, if only its faults are excused. -/
theorem Fair.supplied {regime : Regime σ γ} (hfair : regime.Fair) {setup : Setup σ γ}
    (hexcused : setup.capabilities.Excused regime.excuses) (op : Opcode) (operand : Nat)
    (machine : Machine σ γ) : regime.custody.Supplied setup op operand machine where
  foreign foreign call calling _ hforeign _ hpasses _ := by
    have hafter (environment : σ) (heap : Heap) :
        regime.holds { calling with environment, heap } :=
      hfair.heap _ heap (hfair.environment calling environment hpasses.holds)
    unfold Exec.outsideWithHeap
    cases hresult : foreign.invoke call (calling.environment, calling.heap) with
    | ok value after => exact ⟨custody_passes.2 (hafter after.1 after.2), fun _ _ => trivial⟩
    | error fault after =>
        exact ⟨custody_passes.2 (hafter after.1 after.2),
          hexcused.foreign foreign hforeign call _ _ _ hresult⟩
  read memory address offset width calling _ hmemory _ hpasses := by
    unfold Exec.outside
    cases hresult : memory.read address offset width calling.environment with
    | ok value after =>
        exact ⟨custody_passes.2 (hfair.environment calling after hpasses.holds),
          fun _ _ => trivial⟩
    | error fault after =>
        exact ⟨custody_passes.2 (hfair.environment calling after hpasses.holds),
          hexcused.read memory hmemory address offset width _ _ _ hresult⟩

namespace Upheld

variable {regime : Regime σ γ} {action : Exec σ γ α} {machine : Machine σ γ}

theorem bind {next : α → Exec σ γ β} (h : regime.Upheld (action machine))
    (hnext : ∀ value middle, action machine = .ok value middle → regime.holds middle →
      regime.Upheld (next value middle)) :
    regime.Upheld ((action >>= next) machine) := by
  rw [Exec.bind_eq]
  cases hresult : action machine with
  | error fault after =>
      rw [hresult] at h
      exact h
  | ok value middle =>
      rw [hresult] at h
      exact hnext value middle hresult h

/-- The site of a fault does not matter. -/
theorem within (h : regime.Upheld (action machine)) (site : Site) :
    regime.Upheld (Exec.within site action machine) := by
  rw [Exec.within]
  cases hresult : action machine <;> rw [hresult] at h <;> exact h

theorem proceeding {action : Exec σ γ Unit} (h : regime.Upheld (action machine)) (site : Site) :
    regime.Upheld
      ((Exec.within site action >>= fun _ => pure .proceed : Exec σ γ (Signal γ)) machine) :=
  (h.within site).bind fun _ _ _ hmiddle => hmiddle

theorem of_custody {result : EStateM.Result Fault (Machine σ γ) α} {given : α → List Value}
    (h : regime.custody.Upheld machine given result) : regime.Upheld result := by
  cases result with
  | ok value after => exact h.1.holds
  | error fault after => exact ⟨h.1.holds, h.2⟩

end Upheld

namespace Upholds

variable {regime : Regime σ γ} {action first : Exec σ γ α} {next : α → Exec σ γ β}

theorem pure (value : α) : regime.Upholds (Pure.pure value : Exec σ γ α) := fun _ h => h

theorem bind (hfirst : regime.Upholds first) (hnext : ∀ value, regime.Upholds (next value)) :
    regime.Upholds (first >>= next) := fun machine h =>
  (hfirst machine h).bind fun value middle _ hmiddle => hnext value middle hmiddle

theorem within (h : regime.Upholds action) (site : Site) :
    regime.Upholds (Exec.within site action) :=
  fun machine hholds => (h machine hholds).within site

/-- What is made of the result does not matter. -/
theorem returning (h : regime.Upholds action) (result : α → β) :
    regime.Upholds (action >>= fun value => Pure.pure (result value)) :=
  h.bind fun value => pure (result value)

theorem update {change : Machine σ γ → Machine σ γ}
    (h : ∀ machine, regime.holds machine → regime.holds (change machine)) :
    regime.Upholds (modify change : Exec σ γ Unit) := h

theorem excused {cause : FaultCause} (h : regime.excuses cause.kind) :
    regime.Upholds (Exec.fault cause : Exec σ γ α) := fun _ hholds => ⟨hholds, h⟩

theorem of_gives {given : α → List Value} (h : regime.custody.Gives [] action given) :
    regime.Upholds action := fun machine hholds =>
  .of_custody (h machine hholds (.nil _ machine))

section Fair

variable {setup : Setup σ γ} (hfair : regime.Fair)

include hfair

theorem push (value : Value) : regime.Upholds (Exec.push value : Exec σ γ Unit) :=
  update fun machine h => hfair.stack machine _ h

theorem pop (shortage : Shortage) : regime.Upholds (Exec.pop shortage : Exec σ γ Value) :=
  of_gives (.pop hfair.closed shortage)

theorem popMany (count : Nat) (shortage : Shortage) :
    regime.Upholds (Exec.popMany count shortage : Exec σ γ (List Value)) :=
  of_gives (.popMany hfair.closed count shortage)

theorem popText (op : Opcode) : regime.Upholds (Exec.popText op : Exec σ γ String) :=
  of_gives (.popText hfair.closed op)

theorem neg : regime.Upholds (Exec.neg : Exec σ γ Unit) := of_gives (.neg hfair.closed)

theorem not : regime.Upholds (Exec.not : Exec σ γ Unit) := of_gives (.not hfair.closed)

theorem combine (operator : Operator) {count : Nat} (hcount : 1 ≤ count) :
    regime.Upholds (Exec.combine operator count : Exec σ γ Unit) :=
  of_gives (.combine hfair.closed operator hcount)

theorem pushConst {function : CompiledFunction Value} {position : Nat} {value : Value}
    (hconstant : function.constants[position]? = some value) :
    regime.Upholds (Exec.pushConst function position : Exec σ γ Unit) := by
  unfold Exec.pushConst
  rw [hconstant]
  exact push hfair value

theorem makeArray (count : Nat) : regime.Upholds (Exec.makeArray count : Exec σ γ Unit) :=
  of_gives (.makeArray hfair.closed count)

theorem arrayGet : regime.Upholds (Exec.arrayGet : Exec σ γ Unit) :=
  of_gives (.arrayGet hfair.closed)

theorem arraySet : regime.Upholds (Exec.arraySet : Exec σ γ Unit) :=
  of_gives (.arraySet hfair.closed)

theorem arrayPush : regime.Upholds (Exec.arrayPush : Exec σ γ Unit) :=
  of_gives (.arrayPush hfair.closed)

theorem arrayLen : regime.Upholds (Exec.arrayLen : Exec σ γ Unit) :=
  of_gives (.arrayLen hfair.closed)

variable (hexcused : setup.capabilities.Excused regime.excuses)

include hexcused

theorem print (site : Site) : regime.Upholds (Exec.print setup site) :=
  of_gives (.print hfair.closed hexcused site)

theorem memAlloc : regime.Upholds (Exec.memAlloc setup) :=
  of_gives (.memAlloc hfair.closed hexcused)

theorem memRead : regime.Upholds (Exec.memRead setup) := fun machine hholds =>
  .of_custody ((hfair.supplied hexcused .memRead 0 machine).memRead hfair.closed hholds)

theorem memWrite : regime.Upholds (Exec.memWrite setup) :=
  of_gives (.memWrite hfair.closed hexcused)

theorem memFree : regime.Upholds (Exec.memFree setup) :=
  of_gives (.memFree hfair.closed hexcused)

theorem foreignCall (count : Nat) : regime.Upholds (Exec.foreignCall setup count) :=
  fun machine hholds =>
    .of_custody ((hfair.supplied hexcused .ffiCall count machine).foreignCall hfair.closed hholds)

omit hexcused in
theorem runLoop (site : Site) : regime.Upholds (Exec.runLoop setup site) := by
  intro machine h
  unfold Exec.runLoop
  cases machine.graphics with
  | absent => exact ⟨h, hfair.excuses _ rfl⟩
  | looping layer device pending => exact ⟨h, hfair.excuses _ rfl⟩
  | ready backend => exact hfair.graphics machine _ h

/-- A native function that is given as many arguments as it has parameters. -/
theorem callNative (site : Site) {native : Native} {arguments : List Value}
    (harguments : arguments.length = native.params.length) :
    regime.Upholds (Exec.callNative setup site native arguments) := by
  by_cases hloop : native = .runLoop
  · subst hloop
    unfold Exec.callNative
    simp only
    rw [if_neg (not_not_intro harguments)]
    exact runLoop hfair site
  · exact of_gives (.callNative hfair.closed hexcused site hloop harguments)

end Fair

end Upholds

/-! ### Code that may be wrong -/

/-- The condition looks neither at the frames nor at the result either, and the faults of code that
no compiler should have made are excused as well. -/
structure Lax (regime : Regime σ γ) : Prop extends regime.Fair where
  frames : ∀ machine frames, regime.holds machine → regime.holds { machine with frames }
  result : ∀ machine value, regime.holds machine → regime.holds { machine with result := value }
  structural : ∀ kind, kind.isStructural = true → regime.excuses kind

namespace Lax

variable {regime : Regime σ γ} {setup : Setup σ γ} (hlax : regime.Lax)

include hlax

theorem framed : regime.custody.Framed where
  toClosed := hlax.toFair.closed
  locals _ _ _ _ _ _ _ := trivial
  frame machine _ _ _ h _ _ _ := custody_passes.2 (hlax.frames machine _ h)
  structural := hlax.structural

theorem fault {cause : FaultCause} (h : cause.kind.isStructural = true) :
    regime.Upholds (Exec.fault cause : Exec σ γ α) :=
  .excused (hlax.structural _ h)

theorem leave : regime.Upholds (Exec.leave : Exec σ γ Unit) :=
  .update fun machine h => hlax.frames machine _ h

theorem ret : regime.Upholds (Exec.ret : Exec σ γ Unit) := by
  intro machine h
  have hleft := hlax.frames machine machine.frames.tail h
  rw [Exec.ret_eq]
  unfold Machine.returned
  split
  · exact hlax.stack _ _ hleft
  · exact hlax.result _ _ (hlax.stack _ _ hleft)

theorem enter (function : CompiledFunction Value) (arguments : List Value) :
    regime.Upholds (Exec.enter setup function arguments) := by
  intro machine h
  rcases Exec.enter_faults setup function arguments machine with
    ⟨fault, henter, hkind | ⟨hkind, -⟩⟩ | henter
  · rw [henter]
    exact ⟨h, hlax.excuses _ (hkind ▸ rfl)⟩
  · rw [henter]
    exact ⟨h, hlax.structural _ (hkind ▸ rfl)⟩
  · rw [henter]
    exact hlax.frames machine _ h

variable (hexcused : setup.capabilities.Excused regime.excuses)

include hexcused

/-- All instructions but those that look names up in the program. -/
theorem execute (site : Site) (operand : Nat) {op : Opcode} (hop : ¬ (op = .call ∨ op = .onEvent))
    {machine : Machine σ γ} {frame : Frame} {outer : List Frame}
    (hframes : machine.frames = frame :: outer) (hholds : regime.holds machine) :
    regime.Upheld (Exec.execute setup site frame.function operand op machine) := by
  by_cases hleaves : op = .ret ∨ op = .halt
  · rcases hleaves with rfl | rfl
    · exact (hlax.ret.within site).returning _ machine hholds
    · exact (hlax.leave.within site).returning _ machine hholds
  · have hother : ¬ (op = .call ∨ op = .onEvent ∨ op = .ret ∨ op = .halt) := fun h =>
      h.elim (fun hcall => hop (.inl hcall)) fun h =>
        h.elim (fun hevent => hop (.inr hevent)) hleaves
    exact .of_custody (hlax.framed.execute hexcused site hother hframes hholds (fun _ _ => trivial)
      (hlax.toFair.supplied hexcused op operand machine))

/-- A step upholds the regime if it does so where it looks a name up in the program. -/
theorem step {machine : Machine σ γ} (h : regime.holds machine)
    (hlooks : ∀ frame rest op operand, machine.frames = frame :: rest →
      Instruction.decode? frame.function.code frame.offset = some (.operation op operand) →
      op = .call ∨ op = .onEvent →
      regime.Upheld (Exec.execute setup ⟨frame.function.name, frame.offset⟩ frame.function operand
        op (machine.moved frame rest (frame.offset + op.width)))) :
    regime.Upheld (Exec.step setup machine) := by
  cases hframes : machine.frames with
  | nil =>
      rw [Exec.step_idle setup hframes]
      exact h
  | cons frame rest =>
      cases hdecode : Instruction.decode? frame.function.code frame.offset with
      | none =>
          rw [Exec.step_exhausted setup hframes hdecode]
          exact hlax.frames machine rest h
      | some instruction =>
          cases instruction with
          | operation op operand =>
              by_cases hop : op = .call ∨ op = .onEvent
              · rw [Exec.step_eq hframes hdecode]
                exact hlooks frame rest op operand hframes hdecode hop
              · rw [Exec.step_eq hframes hdecode]
                have hmoved : (machine.moved frame rest (frame.offset + op.width)).frames =
                    { frame with offset := frame.offset + op.width } :: rest := rfl
                have hexecute := hlax.execute hexcused ⟨frame.function.name, frame.offset⟩ operand
                  hop hmoved (hlax.frames machine _ h)
                exact hexecute
          | unknown byte =>
              rw [Exec.step_unknown setup hframes hdecode]
              exact ((hlax.fault rfl).within _) machine h
          | truncated op =>
              rw [Exec.step_truncated setup hframes hdecode]
              exact ((hlax.fault rfl).within _) machine h

end Lax

end Regime

end DocScript
