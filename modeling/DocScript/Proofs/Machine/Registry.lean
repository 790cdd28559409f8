import DocScript.Proofs.Machine.CallResolution

/-! # Handlers are only added

The code of a program may be anything. Still a step registers at most one handler, behind all that
there were, and it is a function of the program. So whatever a machine goes through, its handlers
are those that it had before with others behind them.
-/

namespace DocScript

open Machine

/-! ### One step -/

/-- The handlers are those that there were, or there is one more behind them. -/
def Machine.Registers (program : Program) (before after : Machine σ γ) : Prop :=
  after.registrations = before.registrations ∨
    ∃ registration, program.contains registration.handler = true ∧
      after.registrations = before.registrations.push registration

/-- The handlers are to be those that there were. -/
def Machine.unregistered (machine : Machine σ γ) : Regime σ γ where
  holds after := after.registrations = machine.registrations
  excuses _ := True

theorem Machine.unregistered_lax (machine : Machine σ γ) : machine.unregistered.Lax where
  stack _ _ h := h
  heap _ _ h := h
  graphics _ _ h := h
  environment _ _ h := h
  frames _ _ h := h
  result _ _ h := h
  excuses _ _ := trivial
  structural _ _ := trivial

/-- There is to be at most one handler more. -/
def Machine.registering (program : Program) (machine : Machine σ γ) : Regime σ γ where
  holds := machine.Registers program
  excuses _ := True

theorem Machine.registering_lax (program : Program) (machine : Machine σ γ) :
    (machine.registering program).Lax where
  stack _ _ h := h
  heap _ _ h := h
  graphics _ _ h := h
  environment _ _ h := h
  frames _ _ h := h
  result _ _ h := h
  excuses _ _ := trivial
  structural _ _ := trivial

theorem Regime.Upheld.registering {machine : Machine σ γ}
    {result : EStateM.Result Fault (Machine σ γ) α} (h : machine.unregistered.Upheld result)
    (program : Program) : (machine.registering program).Upheld result := by
  cases result with
  | ok value after => exact .inl h
  | error fault after => exact ⟨.inl h.1, trivial⟩

namespace Exec

variable (setup : Setup σ γ) (machine : Machine σ γ)

theorem callNamed_unregistered (site : Site) (callee : String) (arguments : List Value) :
    machine.unregistered.Upholds (callNamed setup site callee arguments) := by
  have hlax := machine.unregistered_lax
  have hexcused : setup.capabilities.Excused machine.unregistered.excuses :=
    setup.capabilities.excused_of_all fun _ => trivial
  unfold callNamed
  split
  next =>
    split
    next native _ =>
      by_cases harguments : arguments.length = native.params.length
      · exact .callNative hlax.toFair hexcused site harguments
      · unfold callNative
        simp only
        rw [if_pos harguments]
        exact .excused trivial
    next => exact .excused trivial
  next =>
    split
    next function _ => exact (hlax.enter function arguments).returning _
    next => exact .excused trivial

theorem call_unregistered (site : Site) (count : Nat) :
    machine.unregistered.Upholds (call setup site count) := by
  intro state hstate
  have hclosed := machine.unregistered_lax.toFair.closed
  rcases hclosed.call_takes setup site count hstate with
    ⟨fault, after, hcall, hafter, -⟩ | ⟨callee, arguments, middle, hmiddle, -, hcall⟩
  · rw [hcall]
    exact ⟨hafter.holds, trivial⟩
  · rw [hcall]
    exact callNamed_unregistered setup machine site callee arguments middle hmiddle.holds

/-- A handler is registered behind the others if it is a function of the program. -/
theorem onEvent_registers {state : Machine σ γ}
    (hstate : state.registrations = machine.registrations) :
    (machine.registering setup.program).Upheld (onEvent setup state) := by
  have hpop (state : Machine σ γ) (hstate : machine.unregistered.holds state) :=
    Regime.Upholds.popText machine.unregistered_lax.toFair .onEvent state hstate
  unfold onEvent
  refine ((hpop state hstate).registering _).bind fun handler middle hhandler _ => ?_
  have hmiddle := hpop state hstate
  rw [hhandler] at hmiddle
  refine ((hpop middle hmiddle).registering _).bind fun event last hevent _ => ?_
  have hlast := hpop middle hmiddle
  rw [hevent] at hlast
  split
  next hcontains =>
    have hsame : last.registrations = machine.registrations := hlast
    have hpush : last.registrations.push ⟨event, handler⟩ =
        machine.registrations.push ⟨event, handler⟩ := by rw [hsame]
    exact .inr ⟨⟨event, handler⟩, hcontains, hpush⟩
  next => exact ⟨.inl hlast, trivial⟩

/-- A step leaves the handlers alone, or adds one behind them. -/
theorem step_registers :
    (∀ signal after, step setup machine = .ok signal after →
        machine.Registers setup.program after) ∧
      ∀ fault after, step setup machine = .error fault after →
        machine.Registers setup.program after := by
  have hlax := machine.registering_lax setup.program
  have hupheld : (machine.registering setup.program).Upheld (step setup machine) := by
    refine hlax.step (setup.capabilities.excused_of_all fun _ => trivial) (.inl rfl)
      fun frame rest op operand hframes hdecode hop => ?_
    let state := machine.moved frame rest (frame.offset + op.width)
    have hstate : state.registrations = machine.registrations := rfl
    rcases hop with rfl | rfl
    · exact ((call_unregistered setup machine _ operand).within _ state hstate).registering _
    · exact (onEvent_registers setup machine hstate).proceeding _
  refine ⟨fun signal after hstep => ?_, fun fault after hstep => ?_⟩
  · rw [hstep] at hupheld
    exact hupheld
  · rw [hstep] at hupheld
    exact hupheld.1

end Exec

/-! ### Runs -/

/-- The later machine has the handlers of the earlier one, and behind them others that are functions
of the program. -/
def Machine.Appends (program : Program) (before after : Machine σ γ) : Prop :=
  ∃ added : List Registration,
    after.registrations.toList = before.registrations.toList ++ added ∧
      ∀ registration ∈ added, program.contains registration.handler = true

namespace Machine.Appends

variable {program : Program} {before middle after : Machine σ γ}

theorem of_same (h : after.registrations = before.registrations) : before.Appends program after :=
  ⟨[], by rw [h, List.append_nil], nofun⟩

theorem of_registers (h : before.Registers program after) : before.Appends program after := by
  rcases h with hsame | ⟨registration, hcontains, hpush⟩
  · exact .of_same hsame
  · refine ⟨[registration], by rw [hpush, Array.toList_push], fun other hmem => ?_⟩
    exact List.mem_singleton.1 hmem ▸ hcontains

theorem trans (hfirst : before.Appends program middle) (hsecond : middle.Appends program after) :
    before.Appends program after := by
  obtain ⟨first, hmiddle, hcontained⟩ := hfirst
  obtain ⟨second, hafter, hothers⟩ := hsecond
  refine ⟨first ++ second, by rw [hafter, hmiddle, List.append_assoc], fun registration hmem => ?_⟩
  exact (List.mem_append.1 hmem).elim (hcontained registration) (hothers registration)

/-- The handlers of an event come first that it had before. -/
theorem handlers (h : before.Appends program after) (event : String) :
    before.handlers event <+: after.handlers event := by
  obtain ⟨added, hafter, -⟩ := h
  unfold Machine.handlers
  rw [hafter, List.filterMap_append]
  exact List.prefix_append _ _

theorem registered (h : before.Appends program after) (hbefore : before.Registered program) :
    after.Registered program := by
  obtain ⟨added, hafter, hadded⟩ := h
  intro registration hmem
  rw [← Array.mem_toList_iff, hafter, List.mem_append] at hmem
  exact hmem.elim (fun hmem => hbefore registration (Array.mem_toList_iff.1 hmem))
    (hadded registration)

end Machine.Appends

/-- The machine is to have the handlers of an earlier one first. -/
def Setup.appending (setup : Setup σ γ) (start : Machine σ γ) : Regime σ γ where
  holds := start.Appends setup.program
  excuses _ := True

/-- Nothing but a step touches the handlers. -/
theorem appending_stepwise (setup : Setup σ γ) (start : Machine σ γ) :
    (setup.appending start).custody.Stepwise setup fun _ => True where
  scalar _ _ := trivial
  returned _ _ := trivial
  result _ _ h _ := Regime.custody_passes.2 h
  pending machine h := by
    refine Regime.custody_passes.2 (.trans h (.of_same ?_))
    unfold takePending
    split <;> rfl
  deep := trivial
  missing _ _ _ _ _ _ := trivial
  step machine h _ := by
    obtain ⟨hok, herror⟩ := Exec.step_registers setup machine
    cases hstep : Exec.step setup machine with
    | ok signal after =>
        exact ⟨Regime.custody_passes.2 (.trans h (.of_registers (hok signal after hstep))),
          fun _ _ => trivial⟩
    | error fault after =>
        exact ⟨Regime.custody_passes.2 (.trans h (.of_registers (herror fault after hstep))),
          trivial⟩
  course _ := EventLoop.excused_of_all (fun _ => trivial) _
  dispatched _ _ _ _ _ _ := trivial
  begin _ henter h _ := by
    rw [Exec.enter_ok henter]
    exact Regime.custody_passes.2 h
  base _ _ h := Regime.custody_passes.2 h
  frames _ _ h := Regime.custody_passes.2 h
  stack _ _ h := Regime.custody_passes.2 h
  graphics _ _ h := Regime.custody_passes.2 h

end DocScript
