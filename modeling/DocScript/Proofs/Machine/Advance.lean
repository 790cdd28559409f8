import DocScript.Proofs.Machine.Custody

/-! # What a step makes of the frames

Most steps stay in the innermost frame, whatever they make of it and even where they fault. The
others begin a frame of a function of the program, or end the innermost one, or lend the graphics to
the loop of a backend. None touches the frames around it, and only a return can write the result. So
it is for all code, whatever bytes it is made of.
-/

namespace DocScript

open Machine

/-- The run goes on in the innermost frame, and it has not written the result. -/
structure Machine.Stays (before : Machine σ γ) (frame : Frame) (outer : List Frame)
    (after : Machine σ γ) : Prop where
  base : after.base = before.base
  result : after.result = before.result
  frames : ∃ changed, frame.Becomes changed ∧ after.frames = changed :: outer

/-- The frame is at a return. -/
def Frame.Returns (frame : Frame) : Prop :=
  ∃ operand, Instruction.decode? frame.function.code frame.offset =
    some (.operation .ret operand)

/-- The frame ends without a value: it is at a halt or at the end of its code. -/
def Frame.Lapses (frame : Frame) : Prop :=
  (∃ operand, Instruction.decode? frame.function.code frame.offset =
    some (.operation .halt operand)) ∨
    Instruction.decode? frame.function.code frame.offset = none

/-- What a step leaves behind. -/
inductive Exec.Advances (setup : Setup σ γ) (machine : Machine σ γ) (frame : Frame)
    (outer : List Frame) : EStateM.Result Fault (Machine σ γ) (Signal γ) → Prop where
  | faulted {fault : Fault} {after : Machine σ γ} (h : machine.Stays frame outer after)
      (hmode : after.graphics.mode = machine.graphics.mode) :
      Advances setup machine frame outer (.error fault after)
  | stayed {after : Machine σ γ} (h : machine.Stays frame outer after)
      (hmode : after.graphics.mode = machine.graphics.mode) :
      Advances setup machine frame outer (.ok .proceed after)
  | entered {name : String} {callee : CompiledFunction Value} {arguments : List Value}
      {middle after : Machine σ γ} (hcallee : setup.program.get? name = some callee)
      (h : machine.Stays frame outer middle)
      (hmode : middle.graphics.mode = machine.graphics.mode)
      (henter : enter setup callee arguments middle = .ok () after) :
      Advances setup machine frame outer (.ok .proceed after)
  | returned (h : frame.Returns) : Advances setup machine frame outer
      (.ok .proceed (machine.returned (machine.stack.headD .null) machine.stack.tail))
  | left (h : frame.Lapses) :
      Advances setup machine frame outer (.ok .proceed { machine with frames := outer })
  | lent {site : Site} {course : EventLoop γ} {after : Machine σ γ}
      (h : machine.Stays frame outer after) (hready : machine.graphics.mode = .ready) :
      Advances setup machine frame outer (.ok (.enterLoop site course) after)

variable {setup : Setup σ γ} {machine : Machine σ γ} {frame : Frame} {outer : List Frame}

/-- The frames around the innermost one are the same. -/
theorem Machine.Stays.inner {after : Machine σ γ} (h : machine.Stays frame outer after) :
    ∃ inner, after.frames = inner ++ outer :=
  let ⟨changed, _, hframes⟩ := h.frames
  ⟨[changed], hframes⟩

/-! ### Instructions that stay in the frame -/

/-- The run is to go on in the frame, with the graphics in the same hands. -/
def Machine.staying (machine : Machine σ γ) (frame : Frame) (outer : List Frame) :
    Custody σ γ where
  holds after := machine.Stays frame outer after ∧
    after.graphics.mode = machine.graphics.mode
  trusts _ _ := True
  excuses _ := True

namespace Machine.staying

theorem passes_iff {before after : Machine σ γ} :
    (machine.staying frame outer).Passes before after ↔
      (machine.staying frame outer).holds after :=
  ⟨fun h => h.holds, fun h => ⟨h, fun _ _ => trivial⟩⟩

/-- Nothing but the frames, the base, the result and the hands in which the graphics are matters. -/
theorem passes_same {before after : Machine σ γ} (h : (machine.staying frame outer).holds before)
    (hbase : after.base = before.base) (hresult : after.result = before.result)
    (hframes : after.frames = before.frames)
    (hmode : after.graphics.mode = before.graphics.mode) :
    (machine.staying frame outer).Passes before after :=
  passes_iff.2 ⟨⟨hbase.trans h.1.base, hresult.trans h.1.result, hframes ▸ h.1.frames⟩,
    hmode.trans h.2⟩

theorem framed (machine : Machine σ γ) (frame : Frame) (outer : List Frame) :
    (machine.staying frame outer).Framed where
  scalar _ _ := trivial
  stacked _ _ _ _ := trivial
  stack _ _ h _ := passes_same h rfl rfl rfl rfl
  items _ _ _ _ _ _ := trivial
  update _ _ _ h _ _ _ := passes_same h rfl rfl rfl rfl
  allocate _ _ h _ _ := ⟨passes_same h rfl rfl rfl rfl, trivial⟩
  graphics _ _ h hmode := passes_same h rfl rfl rfl hmode
  environment _ _ h := passes_same h rfl rfl rfl rfl
  excuses _ _ := trivial
  locals _ _ _ _ _ _ _ := trivial
  frame _ _ _ changed h hframes hbecomes _ := by
    obtain ⟨middle, hmiddle, hinner⟩ := h.1.frames
    obtain ⟨rfl, rfl⟩ := List.cons.inj (hframes.symm.trans hinner)
    exact passes_iff.2
      ⟨⟨h.1.base, h.1.result, changed, hmiddle.trans hbecomes, rfl⟩, h.2⟩
  structural _ _ := trivial

theorem supplied (setup : Setup σ γ) (op : Opcode) (operand : Nat) (state : Machine σ γ) :
    (machine.staying frame outer).Supplied setup op operand state where
  foreign foreign call calling _ _ _ hpasses _ := by
    unfold Exec.outsideWithHeap
    cases foreign.invoke call (calling.environment, calling.heap) with
    | ok value after =>
        exact ⟨passes_same hpasses.holds rfl rfl rfl rfl, fun _ _ => trivial⟩
    | error fault after => exact ⟨passes_same hpasses.holds rfl rfl rfl rfl, trivial⟩
  read memory address offset width calling _ _ _ hpasses := by
    unfold Exec.outside
    cases memory.read address offset width calling.environment with
    | ok value after =>
        exact ⟨passes_same hpasses.holds rfl rfl rfl rfl, fun _ _ => trivial⟩
    | error fault after => exact ⟨passes_same hpasses.holds rfl rfl rfl rfl, trivial⟩

end Machine.staying

/-! ### Steps -/

namespace Exec

variable {site site' : Site} {state after : Machine σ γ} {course : EventLoop γ}

/-- An action that stays in the frame and does not enter the loop advances like that. -/
theorem advances_of_upheld {result : EStateM.Result Fault (Machine σ γ) (Signal γ)}
    {given : Signal γ → List Value}
    (h : (machine.staying frame outer).Upheld state given result)
    (hproceeds : ∀ site course after, result ≠ .ok (.enterLoop site course) after) :
    Advances setup machine frame outer result := by
  cases result with
  | error fault after => exact .faulted h.1.holds.1 h.1.holds.2
  | ok signal after =>
      cases signal with
      | enterLoop site course => exact absurd rfl (hproceeds site course after)
      | proceed => exact .stayed h.1.holds.1 h.1.holds.2

/-- The site of a fault does not matter. -/
theorem Advances.within {action : Exec σ γ (Signal γ)}
    (h : Advances setup machine frame outer (action state)) (site : Site) :
    Advances setup machine frame outer (Exec.within site action state) := by
  rw [Exec.within]
  cases hresult : action state with
  | ok signal after =>
      rw [hresult] at h
      exact h
  | error fault after =>
      rw [hresult] at h
      cases h with
      | faulted hstays hmode => exact .faulted hstays hmode

theorem call_advances (site : Site) (count : Nat)
    (hholds : (machine.staying frame outer).holds state) :
    Advances setup machine frame outer (call setup site count state) := by
  have hframed := Machine.staying.framed machine frame outer
  rcases hframed.call_takes setup site count hholds with
    ⟨fault, after, hcall, hpasses, -⟩ | ⟨callee, arguments, middle, hpasses, -, hcall⟩
  · rw [hcall]
    exact .faulted hpasses.holds.1 hpasses.holds.2
  · obtain ⟨hstays, hmode⟩ := hpasses.holds
    rw [hcall]
    rcases callNamed_cases setup site callee arguments middle with
      ⟨fault, hnamed⟩ | ⟨name, native, -, -, hnamed⟩ | ⟨function, -, hcallee, henter, hnamed⟩
    · rw [hnamed]
      exact .faulted hstays hmode
    · rw [hnamed]
      by_cases hloop : native = .runLoop
      · subst hloop
        rcases runLoop_cases setup site arguments middle with
          ⟨fault, hnative⟩ | ⟨backend, layer, device, hready, hnative⟩
        · rw [hnative]
          exact .faulted hstays hmode
        · rw [hnative]
          exact .lent ⟨hstays.base, hstays.result, hstays.frames⟩
            (hmode.symm.trans (by rw [hready]; rfl))
      · exact advances_of_upheld (hframed.callNative
          (setup.capabilities.excused_of_all fun _ => trivial) site hloop arguments middle
          hpasses.holds (.nil _ middle)) fun _ _ _ h => hloop (native_of_enterLoop h)
    · rw [hnamed]
      exact .entered hcallee hstays hmode henter

/-- An instruction, after the frame has moved behind it. -/
theorem execute_advances (site : Site) {operand : Nat} {op : Opcode}
    (hframes : machine.frames = frame :: outer)
    (hdecode : Instruction.decode? frame.function.code frame.offset =
      some (.operation op operand)) :
    Advances setup machine frame outer (execute setup site frame.function operand op
      (machine.moved frame outer (frame.offset + op.width))) := by
  have hframed := Machine.staying.framed machine frame outer
  have hmoved : (machine.staying frame outer).holds
      (machine.moved frame outer (frame.offset + op.width)) :=
    ⟨⟨rfl, rfl, _, .behind hdecode, rfl⟩, rfl⟩
  -- These begin and end frames or add a handler; all others stay within the innermost frame.
  by_cases hop : op = .call ∨ op = .onEvent ∨ op = .ret ∨ op = .halt
  · rcases hop with rfl | rfl | rfl | rfl
    · exact (call_advances site operand hmoved).within site
    · have hevent := hframed.onEvent setup
        (fun _ _ h => Machine.staying.passes_same h rfl rfl rfl rfl) trivial _ hmoved (.nil _ _)
      exact advances_of_upheld (hevent.proceeding site) fun _ _ _ h =>
        Opcode.noConfusion (call_of_enterLoop h)
    · have hreturned (value : Value) (stack : List Value) :
          (machine.moved frame outer (frame.offset + Opcode.ret.width)).returned value stack =
            machine.returned value stack := by
        rw [Machine.returned, Machine.returned, hframes]
        rfl
      rw [execute_ret, hreturned]
      exact .returned ⟨operand, hdecode⟩
    · rw [execute_halt]
      exact .left (.inl ⟨operand, hdecode⟩)
  · have hmiddle : (machine.moved frame outer (frame.offset + op.width)).frames =
        { frame with offset := frame.offset + op.width } :: outer := rfl
    have hexecute := hframed.execute (setup.capabilities.excused_of_all fun _ => trivial)
      site hop hmiddle hmoved (fun _ _ => trivial) (Machine.staying.supplied setup op operand _)
    exact advances_of_upheld hexecute fun _ _ _ h => hop (.inl (call_of_enterLoop h))

/-- A step takes one of the ways that there are, whatever the code is. -/
theorem step_advances (setup : Setup σ γ) (hframes : machine.frames = frame :: outer) :
    Advances setup machine frame outer (step setup machine) := by
  rcases step_cases setup hframes with ⟨hdecode, hend⟩ | ⟨fault, hfault⟩ | ⟨op, operand, hdecode⟩
  · rw [hend]
    exact .left (.inr hdecode)
  · rw [hfault]
    exact .faulted ⟨rfl, rfl, frame, .refl frame, hframes⟩ rfl
  · rw [step_eq hframes hdecode]
    exact execute_advances _ hframes hdecode

end Exec

end DocScript
