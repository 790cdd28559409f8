import DocScript.Proofs.Machine.Effect

/-! # What a step does

A step moves the innermost frame behind its instruction and runs the instruction there.
Most instructions then stay in that frame; jumps go elsewhere in it, a call begins a
frame of its own, and a return or a halt leaves the frame.
-/

namespace DocScript

/-- The machine with its innermost frame at an offset. -/
def Machine.moved (machine : Machine σ γ) (frame : Frame) (outer : List Frame) (offset : Nat) :
    Machine σ γ :=
  { machine with frames := { frame with offset } :: outer }

/-- The machine after a return. The value goes to the caller if it belongs to the same run. -/
def Machine.returned (machine : Machine σ γ) (value : Value) (stack : List Value) :
    Machine σ γ :=
  if machine.base < machine.frames.tail.length then
    { machine with frames := machine.frames.tail, stack := value :: stack }
  else { machine with frames := machine.frames.tail, stack, result := value }

namespace Exec

variable {setup : Setup σ γ} {machine after : Machine σ γ} {frame : Frame} {outer : List Frame}
  {op : Opcode} {operand : Nat}

theorem get_eq (machine : Machine σ γ) :
    (MonadState.get : Exec σ γ (Machine σ γ)) machine = .ok machine machine := rfl

theorem goTo_eq (hframes : machine.frames = frame :: outer) (offset : Nat) :
    goTo offset machine = .ok () (machine.moved frame outer offset) :=
  modifyFrame_cons hframes _

/-- Without a frame a step does nothing. -/
theorem step_idle (setup : Setup σ γ) (hframes : machine.frames = []) :
    step setup machine = .ok .proceed machine := by
  unfold step
  rw [bind_eq, get_eq]
  simp only [hframes]
  rfl

/-- A step runs the instruction at the offset of the innermost frame. -/
theorem step_eq (hframes : machine.frames = frame :: outer)
    (hdecode : Instruction.decode? frame.function.code frame.offset =
      some (.operation op operand)) :
    step setup machine =
      execute setup ⟨frame.function.name, frame.offset⟩ frame.function operand op
        (machine.moved frame outer (frame.offset + op.width)) := by
  unfold step
  rw [bind_eq, get_eq]
  simp only [hframes, hdecode]
  rw [bind_eq, goTo_eq hframes]

/-- Where there is no opcode a step only fails. -/
theorem step_unknown (setup : Setup σ γ) {byte : UInt8} (hframes : machine.frames = frame :: outer)
    (hdecode : Instruction.decode? frame.function.code frame.offset = some (.unknown byte)) :
    step setup machine = within ⟨frame.function.name, frame.offset⟩
      (fault (.unknownOpcode byte)) machine := by
  unfold step
  rw [bind_eq, get_eq]
  simp only [hframes, hdecode]

/-- So it does where the code ends within an operand. -/
theorem step_truncated (setup : Setup σ γ) (hframes : machine.frames = frame :: outer)
    (hdecode : Instruction.decode? frame.function.code frame.offset = some (.truncated op)) :
    step setup machine = within ⟨frame.function.name, frame.offset⟩
      (fault (.malformed (.truncatedOperand op))) machine := by
  unfold step
  rw [bind_eq, get_eq]
  simp only [hframes, hdecode]

theorem returning_eq {action : Exec σ γ α} {result : β} {signal : β}
    (h : (action >>= fun _ => pure result) machine = .ok signal after) : signal = result := by
  rw [bind_eq] at h
  cases haction : action machine with
  | error fault middle =>
      rw [haction] at h
      cases h
  | ok value middle =>
      rw [haction] at h
      cases h
      rfl

variable {site : Site} {function : CompiledFunction Value} {taken given : Nat}

theorem proceeding_effect {action : Exec σ γ Unit} (h : Effect taken given action) :
    Effect taken given
      (within site action >>= fun _ => pure .proceed : Exec σ γ (Signal γ)) :=
  (h.within site).returning _

/-- An instruction with an effect has that effect. -/
theorem execute_effect (heffect : op.effect? operand = some (taken, given)) :
    Effect taken given (execute setup site function operand op) := by
  cases op <;> cases heffect
  case nop => exact .pure _
  case loadLocal => exact proceeding_effect (.loadLocal operand)
  case storeLocal => exact proceeding_effect (.storeLocal operand)
  case storeLocalInt => exact proceeding_effect (.storeLocalInt operand)
  case add | sub | mul | div | mod | eq | gt | lt | and | or =>
    exact proceeding_effect (.combine _ operand)
  case neg => exact proceeding_effect .neg
  case not => exact proceeding_effect .not
  case print => exact (Effect.print setup site).returning _
  case makeArray => exact proceeding_effect (.makeArray operand)
  case arrayGet => exact proceeding_effect .arrayGet
  case arraySet => exact proceeding_effect .arraySet
  case arrayPush => exact proceeding_effect .arrayPush
  case arrayLen => exact proceeding_effect .arrayLen
  case onEvent => exact proceeding_effect (.onEvent setup)
  case memAlloc => exact proceeding_effect (.memAlloc setup)
  case memRead => exact proceeding_effect (.memRead setup)
  case memWrite => exact proceeding_effect (.memWrite setup)
  case memFree => exact proceeding_effect (.memFree setup)

/-! ### Instructions that push a constant or go elsewhere -/

theorem within_ok {action : Exec σ γ α} {value : α} (h : action machine = .ok value after)
    (site : Site) : within site action machine = .ok value after := by
  rw [within, h]

theorem ok_of_within {action : Exec σ γ α} {value : α}
    (h : within site action machine = .ok value after) : action machine = .ok value after := by
  rw [within] at h
  split at h
  next hdone =>
    cases h
    exact hdone
  next => cases h

theorem within_error {action : Exec σ γ α} {cause : Fault}
    (h : action machine = .error cause after) (site : Site) :
    within site action machine = .error (cause.within site) after := by
  rw [within, h]

theorem proceeding_ok {action : Exec σ γ Unit} (h : action machine = .ok () after) :
    (within site action >>= fun _ => pure .proceed : Exec σ γ (Signal γ)) machine =
      .ok .proceed after := by
  rw [bind_eq, within_ok h]
  rfl

theorem proceeding_error {action : Exec σ γ Unit} {cause : Fault}
    (h : action machine = .error cause after) :
    (within site action >>= fun _ => pure .proceed : Exec σ γ (Signal γ)) machine =
      .error (cause.within site) after := by
  rw [bind_eq, within_error h]

theorem execute_pushConst {value : Value} (hconstant : function.constants[operand]? = some value) :
    execute setup site function operand .pushConst machine =
      .ok .proceed { machine with stack := value :: machine.stack } := by
  refine proceeding_ok ?_
  unfold pushConst
  rw [hconstant]
  rfl

/-- A jump goes to its target, or faults and goes nowhere. -/
theorem jump_cases (function : CompiledFunction Value)
    (hframes : machine.frames = frame :: outer) (target : Nat) :
    jump function target machine = .ok () (machine.moved frame outer target) ∨
      ∃ cause, jump function target machine = .error cause machine := by
  unfold jump
  split
  next => exact .inr ⟨_, rfl⟩
  next => exact .inl (goTo_eq hframes target)

theorem pop_cons {value : Value} {rest : List Value} (hstack : machine.stack = value :: rest)
    (shortage : Shortage) :
    pop shortage machine = .ok value { machine with stack := rest } := by
  unfold pop
  rw [bind_eq, pop?, hstack]
  rfl

theorem pop_nil (hstack : machine.stack = []) (shortage : Shortage) :
    pop shortage machine = .error { cause := .underflow shortage } machine := by
  unfold pop
  rw [bind_eq, pop?, hstack]
  rfl

theorem frames_of_pop {shortage : Shortage} {value : Value}
    (h : pop shortage machine = .ok value after) : after.frames = machine.frames := by
  cases hstack : machine.stack with
  | nil =>
      rw [pop_nil hstack] at h
      cases h
  | cons top rest =>
      rw [pop_cons hstack] at h
      cases h
      rfl

theorem pop?_eq (machine : Machine σ γ) :
    pop? machine = .ok machine.stack.head? { machine with stack := machine.stack.tail } := by
  obtain ⟨frames, stack, heap, registrations, base, result, graphics, environment⟩ := machine
  cases stack <;> rfl

theorem ret_eq (machine : Machine σ γ) :
    ret machine = .ok () (machine.returned (machine.stack.headD .null) machine.stack.tail) := by
  unfold ret
  rw [bind_eq, pop?_eq]
  simp only [bind_eq]
  change (if Machine.hasFramesAbove { machine with frames := machine.frames.tail } machine.base
    then push _ else set _ : Exec σ γ Unit) _ = _
  have habove := Machine.hasFramesAbove_iff { machine with frames := machine.frames.tail }
    machine.base
  rw [List.headD_eq_head?_getD]
  unfold Machine.returned
  by_cases hinner : machine.base < machine.frames.tail.length
  · rw [if_pos (habove.2 hinner), if_pos hinner]
    rfl
  · rw [if_neg fun h => hinner (habove.1 h), if_neg hinner]
    rfl

theorem execute_ret : execute setup site function operand .ret machine =
    .ok .proceed (machine.returned (machine.stack.headD .null) machine.stack.tail) :=
  proceeding_ok (ret_eq machine)

theorem execute_halt :
    execute setup site function operand .halt machine =
      .ok .proceed { machine with frames := machine.frames.tail } :=
  proceeding_ok rfl

/-! ### Calls -/

/-- A function is only begun with as many arguments as it has parameters. -/
theorem length_of_enter {function : CompiledFunction Value} {arguments : List Value}
    {entered : Machine σ γ} (h : enter setup function arguments machine = .ok () entered) :
    arguments.length = function.paramCount := by
  unfold enter at h
  split at h
  · cases h
  · split at h
    · cases h
    next hsame => exact Decidable.not_not.1 hsame

/-- A function is only begun if there may be one frame more. -/
theorem depth_of_enter {function : CompiledFunction Value} {arguments : List Value}
    {entered : Machine σ γ} (h : enter setup function arguments machine = .ok () entered) :
    machine.frames.length < setup.callDepthLimit := by
  unfold enter at h
  split at h
  next => cases h
  next hdepth => exact Nat.lt_of_not_le hdepth

/-- A function is not begun if there are too many frames or if the number of arguments is wrong. -/
theorem enter_faults (setup : Setup σ γ) (function : CompiledFunction Value)
    (arguments : List Value) (machine : Machine σ γ) :
    (∃ fault : Fault, enter setup function arguments machine = .error fault machine ∧
        (fault.kind = .stackOverflow ∨
          fault.kind = .arityMismatch ∧ arguments.length ≠ function.paramCount)) ∨
      enter setup function arguments machine =
        .ok () { machine with frames := .enter function arguments :: machine.frames } := by
  unfold enter
  split
  next => exact .inl ⟨_, rfl, .inl rfl⟩
  next =>
    split
    next hwrong => exact .inl ⟨_, rfl, .inr ⟨rfl, hwrong⟩⟩
    next => exact .inr rfl

/-- A function is entered in a frame of its own, or there is a fault. -/
theorem enter_cases (setup : Setup σ γ) (function : CompiledFunction Value)
    (arguments : List Value) (machine : Machine σ γ) :
    (∃ cause, enter setup function arguments machine = .error cause machine) ∨
      enter setup function arguments machine =
        .ok () { machine with frames := .enter function arguments :: machine.frames } :=
  (enter_faults setup function arguments machine).imp_left fun ⟨fault, hfault, _⟩ =>
    ⟨fault, hfault⟩

/-- With as many arguments as there are parameters only the depth of the calls matters. -/
theorem enter_fits (setup : Setup σ γ) {function : CompiledFunction Value} {arguments : List Value}
    (harguments : arguments.length = function.paramCount) (machine : Machine σ γ) :
    (∃ fault : Fault, fault.kind = .stackOverflow ∧
        enter setup function arguments machine = .error fault machine) ∨
      enter setup function arguments machine =
        .ok () { machine with frames := .enter function arguments :: machine.frames } := by
  rcases enter_faults setup function arguments machine with ⟨fault, henter, hkind | hwrong⟩ | hok
  · exact .inl ⟨fault, hkind, henter⟩
  · exact absurd harguments hwrong.2
  · exact .inr hok

theorem enter_ok {arguments : List Value} {entered : Machine σ γ}
    (h : enter setup function arguments machine = .ok () entered) :
    entered = { machine with frames := .enter function arguments :: machine.frames } := by
  rcases enter_cases setup function arguments machine with ⟨cause, hcause⟩ | hok
  · rw [h] at hcause
    cases hcause
  · rw [h] at hok
    cases hok
    rfl

theorem places_of_enter {arguments : List Value} {entered : Machine σ γ}
    (h : enter setup function arguments machine = .ok () entered) :
    entered.places = [(function, 0)] ++ machine.places := by
  rw [enter_ok h]
  rfl

/-- What a call does once it has taken the name and the arguments. -/
def callNamed (setup : Setup σ γ) (site : Site) (callee : String) (arguments : List Value) :
    Exec σ γ (Signal γ) :=
  match Native.localName? callee with
  | some name =>
      match Native.ofName? name with
      | some native => callNative setup site native arguments
      | none => fault (.unresolved (.native name))
  | none =>
      match setup.program.get? callee with
      | some function => do enter setup function arguments; return .proceed
      | none => fault (.unresolved (.function callee))

theorem call_eq (setup : Setup σ γ) (site : Site) (count : Nat) :
    call setup site count = (popCallee >>= fun callee =>
      popMany count (.arguments callee count) >>= callNamed setup site callee) := rfl

/-- A name stands for a native function or for nothing, or else for a function of the program. -/
theorem callNamed_cases (setup : Setup σ γ) (site : Site) (callee : String)
    (arguments : List Value) (machine : Machine σ γ) :
    (∃ cause, callNamed setup site callee arguments machine = .error cause machine) ∨
      (∃ name native, Native.localName? callee = some name ∧ Native.ofName? name = some native ∧
        callNamed setup site callee arguments = callNative setup site native arguments) ∨
      ∃ function, Native.localName? callee = none ∧ setup.program.get? callee = some function ∧
        enter setup function arguments machine =
          .ok () { machine with frames := .enter function arguments :: machine.frames } ∧
        callNamed setup site callee arguments machine =
          .ok .proceed { machine with frames := .enter function arguments :: machine.frames } := by
  unfold callNamed
  cases hlocal : Native.localName? callee with
  | some name =>
      cases hnative : Native.ofName? name with
      | some native => exact .inr (.inl ⟨name, native, rfl, hnative, by simp only [hnative]⟩)
      | none => exact .inl ⟨_, by simp only [hnative]; rfl⟩
  | none =>
      cases hfunction : setup.program.get? callee with
      | none => exact .inl ⟨_, rfl⟩
      | some function =>
          simp only [bind_eq]
          rcases enter_cases setup function arguments machine with ⟨cause, henter⟩ | henter
          · exact .inl ⟨cause, by rw [henter]⟩
          · exact .inr (.inr ⟨function, trivial, rfl, henter, by rw [henter]; rfl⟩)

theorem popCallee_kept (machine : Machine σ γ) : Kept machine (popCallee machine) := by
  refine kept_bind (Effect.pop _).keeps (fun value machine => ?_) machine
  split <;> exact .refl machine

theorem popCallee_cons {callee : String} {rest : List Value}
    (hstack : machine.stack = .string callee :: rest) :
    popCallee machine = .ok callee { machine with stack := rest } := by
  unfold popCallee
  rw [bind_eq, pop_cons hstack]
  rfl

theorem popCallee_ok {callee : String} (h : popCallee machine = .ok callee after) :
    ∃ rest, machine.stack = .string callee :: rest ∧ after = { machine with stack := rest } := by
  unfold popCallee at h
  rw [bind_eq] at h
  cases hstack : machine.stack with
  | nil =>
      rw [pop_nil hstack] at h
      cases h
  | cons value rest =>
      rw [pop_cons hstack] at h
      simp only at h
      split at h
      next name =>
        cases h
        exact ⟨rest, rfl, rfl⟩
      next => cases h

theorem popMany_ok {count : Nat} {shortage : Shortage} {values : List Value}
    (h : popMany count shortage machine = .ok values after) :
    values.length = count ∧ after = { machine with stack := machine.stack.drop count } ∧
      machine.stack = values.reverse ++ machine.stack.drop count := by
  unfold popMany at h
  simp only at h
  split at h
  next hlength =>
    cases h
    refine ⟨(List.length_reverse).trans hlength, rfl, ?_⟩
    rw [List.reverse_reverse, List.take_append_drop]
  next => cases h

/-- A call that is done has taken its name and its arguments from the stack. -/
theorem callNamed_of_call {count : Nat} {result : Signal γ}
    (h : call setup site count machine = .ok result after) :
    ∃ callee rest, machine.stack = .string callee :: rest ∧ count ≤ rest.length ∧
      callNamed setup site callee (rest.take count).reverse
        { machine with stack := rest.drop count } = .ok result after := by
  rw [call_eq] at h
  obtain ⟨callee, first, hcallee, hcalled⟩ := bind_ok h
  obtain ⟨rest, hstack, rfl⟩ := popCallee_ok hcallee
  obtain ⟨arguments, second, hmany, hnamed⟩ := bind_ok hcalled
  unfold popMany at hmany
  simp only at hmany
  split at hmany
  next hlength =>
    cases hmany
    rw [List.length_take] at hlength
    exact ⟨callee, rest, hstack, by omega, hnamed⟩
  next => cases hmany

/-- A call begins a function of the program in a frame of its own, or leaves the frames alone. -/
theorem call_cases (setup : Setup σ γ) (site : Site) (count : Nat) (machine : Machine σ γ) :
    Kept machine (call setup site count machine) ∨
      ∃ name function arguments middle, setup.program.get? name = some function ∧
        machine.Keeps middle ∧ call setup site count machine =
          .ok .proceed { middle with frames := .enter function arguments :: middle.frames } := by
  rw [call_eq, bind_eq]
  have hcallee := popCallee_kept machine
  cases hpopped : popCallee machine with
  | error cause middle =>
      rw [hpopped] at hcallee
      exact .inl hcallee
  | ok callee first =>
      rw [hpopped] at hcallee
      simp only [bind_eq]
      have harguments := (Effect.popMany count (.arguments callee count)).keeps first
      cases hmany : popMany count (.arguments callee count) first with
      | error cause middle =>
          rw [hmany] at harguments
          exact .inl (hcallee.trans harguments)
      | ok arguments middle =>
          rw [hmany] at harguments
          have hkeeps := hcallee.trans harguments
          simp only
          rcases callNamed_cases setup site callee arguments middle with
            ⟨cause, hcall⟩ | ⟨name, native, -, -, hcall⟩ | ⟨function, -, hfunction, -, hcall⟩
          · rw [hcall]
            exact .inl hkeeps
          · rw [hcall]
            have hnative := (Effect.callNative setup site native arguments).keeps middle
            left
            cases hdone : callNative setup site native arguments middle <;>
              rw [hdone] at hnative <;> exact hkeeps.trans hnative
          · rw [hcall]
            exact .inr ⟨callee, function, arguments, middle, hfunction, hkeeps, rfl⟩

theorem popMany_eq {values rest : List Value} (hstack : machine.stack = values.reverse ++ rest)
    (shortage : Shortage) :
    popMany values.length shortage machine = .ok values { machine with stack := rest } := by
  unfold popMany
  simp [hstack]

/-- A call that finds the name and the arguments goes on with them. -/
theorem call_known {callee : String} {popped rest : List Value} (setup : Setup σ γ) (site : Site)
    (hstack : machine.stack = .string callee :: (popped ++ rest)) :
    call setup site popped.length machine =
      callNamed setup site callee popped.reverse { machine with stack := rest } := by
  rw [call_eq, bind_eq, popCallee_cons hstack]
  simp only [bind_eq]
  have hpopped : { machine with stack := popped ++ rest }.stack =
      popped.reverse.reverse ++ rest := by rw [List.reverse_reverse]
  rw [← List.length_reverse, popMany_eq hpopped]

/-- A step that calls with the name and the arguments on the stack. -/
theorem step_call {callee : String} {arguments rest : List Value} (setup : Setup σ γ)
    (hframes : machine.frames = frame :: outer)
    (hdecode : Instruction.decode? frame.function.code frame.offset =
      some (.operation .call arguments.length))
    (hstack : machine.stack = .string callee :: (arguments.reverse ++ rest)) :
    step setup machine = within ⟨frame.function.name, frame.offset⟩
      (callNamed setup ⟨frame.function.name, frame.offset⟩ callee arguments)
      { machine.moved frame outer (frame.offset + Opcode.call.width) with stack := rest } := by
  have hmoved : (machine.moved frame outer (frame.offset + Opcode.call.width)).stack =
      .string callee :: (arguments.reverse ++ rest) := hstack
  have hcall := call_known setup ⟨frame.function.name, frame.offset⟩ hmoved
  rw [List.length_reverse, List.reverse_reverse] at hcall
  rw [step_eq hframes hdecode]
  change within _ (call setup _ arguments.length) _ = _
  rw [within, hcall]
  rfl

/-! ### Foreign functions -/

/-- What a foreign call does once it has taken its names. -/
def foreignNamed (setup : Setup σ γ) (count : Nat) (lib symbol returns : String) :
    Exec σ γ Unit := do
  let arguments ← popForeignArguments (.foreignArguments symbol count) count []
  match setup.capabilities.foreign with
  | none => fault (.unavailable (.foreign lib symbol))
  | some foreign =>
      let value ← outsideWithHeap (foreign.invoke { lib, symbol, arguments, returns })
      if returns ≠ "void" then push value

theorem foreignCall_eq (setup : Setup σ γ) (count : Nat) :
    foreignCall setup count = (popText .ffiCall >>= fun symbol => popText .ffiCall >>= fun lib =>
      popText .ffiCall >>= fun returns => foreignNamed setup count lib symbol returns) := rfl

/-- A foreign function leaves its result unless it has none by its type. -/
theorem foreignNamed_effect (setup : Setup σ γ) (count : Nat) (lib symbol returns : String) :
    Effect (2 * count) (if returns = "void" then 0 else 1)
      (foreignNamed setup count lib symbol returns) := by
  refine (Effect.popForeignArguments _ count []).last fun arguments => ?_
  cases setup.capabilities.foreign with
  | none => exact .fault _
  | some foreign =>
      refine (Effect.outsideWithHeap _).after fun value => ?_
      by_cases hvoid : returns = "void"
      · rw [if_neg (not_not_intro hvoid), if_pos hvoid]
        exact .pure ()
      · rw [if_pos hvoid, if_neg hvoid]
        exact .push value

theorem foreignCall_kept (setup : Setup σ γ) (count : Nat) (machine : Machine σ γ) :
    Kept machine (foreignCall setup count machine) := by
  rw [foreignCall_eq]
  refine kept_bind (Effect.popText _).keeps (fun symbol => ?_) machine
  refine kept_bind (Effect.popText _).keeps fun lib => ?_
  refine kept_bind (Effect.popText _).keeps fun returns => ?_
  exact (foreignNamed_effect setup count lib symbol returns).keeps

theorem popText_cons {text : String} {rest : List Value}
    (hstack : machine.stack = .string text :: rest) (op : Opcode) :
    popText op machine = .ok text { machine with stack := rest } := by
  unfold popText
  rw [bind_eq, pop_cons hstack]
  rfl

/-- A foreign call that finds its names goes on with them. -/
theorem foreignCall_known {symbol lib result : String} {rest : List Value} (setup : Setup σ γ)
    (count : Nat)
    (hstack : machine.stack = .string symbol :: .string lib :: .string result :: rest) :
    foreignCall setup count machine =
      foreignNamed setup count lib symbol result { machine with stack := rest } := by
  rw [foreignCall_eq, bind_eq, popText_cons hstack]
  simp only [bind_eq]
  rw [popText_cons rfl]
  simp only
  rw [popText_cons rfl]

/-! ### Where a step leaves the frames -/

/-- Where frames stand in place of the innermost one after an instruction. -/
inductive Shift (setup : Setup σ γ) (frame : Frame) (op : Opcode) (operand : Nat) :
    List (CompiledFunction Value × Nat) → Prop where
  | behind (hgoes : op ≠ .jmp ∧ op ≠ .ret ∧ op ≠ .halt) :
      Shift setup frame op operand [(frame.function, frame.offset + op.width)]
  | target (hjump : op = .jmp ∨ op = .jmpIfFalse) :
      Shift setup frame op operand [(frame.function, operand)]
  | entered {name : String} {callee : CompiledFunction Value} (hcall : op = .call)
      (hcallee : setup.program.get? name = some callee) :
      Shift setup frame op operand [(callee, 0), (frame.function, frame.offset + op.width)]
  | left (hleaves : op = .ret ∨ op = .halt) : Shift setup frame op operand []

/-- One frame more is the most that there can be. -/
theorem Shift.length_le {inner : List (CompiledFunction Value × Nat)}
    (h : Shift setup frame op operand inner) : inner.length ≤ 2 := by
  cases h <;> simp

/-- The frames that stood around the innermost one stand where they stood. -/
def Shifts (setup : Setup σ γ) (before : Machine σ γ) (frame : Frame) (outer : List Frame)
    (op : Opcode) (operand : Nat) : EStateM.Result Fault (Machine σ γ) α → Prop
  | .ok _ after => after.base = before.base ∧ ∃ inner, Shift setup frame op operand inner ∧
      after.places = inner ++ outer.map Frame.place
  | .error _ after => after.base = before.base ∧ ∃ inner,
      after.places = inner ++ outer.map Frame.place

theorem shifts_of_kept (hgoes : op ≠ .jmp ∧ op ≠ .ret ∧ op ≠ .halt)
    {result : EStateM.Result Fault (Machine σ γ) α}
    (h : Kept (machine.moved frame outer (frame.offset + op.width)) result) :
    Shifts setup machine frame outer op operand result := by
  cases result with
  | ok value after => exact ⟨h.base, _, .behind hgoes, h.places⟩
  | error cause after =>
      exact ⟨h.base, [(frame.function, frame.offset + op.width)], h.places⟩

theorem kept_proceeding {action : Exec σ γ Unit} (h : Kept machine (action machine)) :
    Kept machine ((within site action >>= fun _ => pure .proceed : Exec σ γ (Signal γ)) machine) := by
  rw [bind_eq, within]
  cases haction : action machine <;> rw [haction] at h <;> exact h

theorem jumpIfFalse_cases (hframes : machine.frames = frame :: outer) (target : Nat) :
    Kept machine (jumpIfFalse function target machine) ∨
      ∃ middle : Machine σ γ, machine.Keeps middle ∧
        jumpIfFalse function target machine = .ok () (middle.moved frame outer target) := by
  unfold jumpIfFalse
  rw [bind_eq]
  cases hstack : machine.stack with
  | nil =>
      rw [pop_nil hstack]
      exact .inl (.refl machine)
  | cons value rest =>
      rw [pop_cons hstack]
      simp only
      cases value.holds with
      | true => exact .inl ⟨rfl, rfl⟩
      | false =>
          simp only [Bool.false_eq_true, if_false]
          have hmiddle : { machine with stack := rest }.frames = frame :: outer := hframes
          rcases jump_cases function hmiddle target with hjump | ⟨cause, hjump⟩
          · rw [hjump]
            exact .inr ⟨{ machine with stack := rest }, ⟨rfl, rfl⟩, rfl⟩
          · rw [hjump]
            exact .inl ⟨rfl, rfl⟩

/-- An instruction without an effect of its own, after the frame has moved behind it. -/
theorem execute_shifts (site : Site)
    (heffect : op.effect? operand = none) :
    Shifts setup machine frame outer op operand
      (execute setup site frame.function operand op
        (machine.moved frame outer (frame.offset + op.width))) := by
  generalize hmoved : machine.moved frame outer (frame.offset + op.width) = moved
  have hframes' : moved.frames = { frame with offset := frame.offset + op.width } :: outer := by
    rw [← hmoved]
    rfl
  have hbase : moved.base = machine.base := by
    rw [← hmoved]
    rfl
  have hkept {result : EStateM.Result Fault (Machine σ γ) (Signal γ)} (h : Kept moved result)
      (hgoes : op ≠ .jmp ∧ op ≠ .ret ∧ op ≠ .halt) :
      Shifts setup machine frame outer op operand result :=
    shifts_of_kept hgoes (hmoved ▸ h)
  cases op <;> cases heffect
  case pushConst => exact hkept (kept_proceeding ((Effect.pushConst _ _).keeps _)) (by decide)
  case ffiCall => exact hkept (kept_proceeding (foreignCall_kept setup operand _)) (by decide)
  case jmp =>
    rcases jump_cases frame.function hframes' operand with hjump | ⟨cause, hjump⟩
    · have hdone : execute setup site frame.function operand .jmp moved = .ok .proceed _ :=
        proceeding_ok hjump
      rw [hdone]
      exact ⟨hbase, _, .target (.inl rfl), rfl⟩
    · have hdone : execute setup site frame.function operand .jmp moved = .error _ moved :=
        proceeding_error hjump
      rw [hdone]
      exact ⟨hbase, [_], congrArg (List.map Frame.place) hframes'⟩
  case jmpIfFalse =>
    rcases jumpIfFalse_cases hframes' operand with hdone | ⟨middle, hmiddle, hjump⟩
    · exact hkept (kept_proceeding hdone) (by decide)
    · have hdone : execute setup site frame.function operand .jmpIfFalse moved = .ok .proceed _ :=
        proceeding_ok hjump
      rw [hdone]
      exact ⟨hmiddle.base.trans hbase, _, .target (.inr rfl), rfl⟩
  case call =>
    rcases call_cases setup site operand moved with hdone | ⟨name, callee, arguments, middle,
      hcallee, hmiddle, hcall⟩
    · refine hkept ?_ (by decide)
      change Kept moved (within site (call setup site operand) moved)
      rw [within]
      cases hresult : call setup site operand moved <;> rw [hresult] at hdone <;> exact hdone
    · have hdone : execute setup site frame.function operand .call moved = .ok .proceed _ :=
        within_ok hcall site
      rw [hdone]
      refine ⟨hmiddle.base.trans hbase, _, .entered rfl hcallee, ?_⟩
      have hplaces := hmiddle.places
      rw [Machine.places, Machine.places, hframes'] at hplaces
      exact congrArg (_ :: ·) hplaces
  case ret =>
    rw [execute_ret, Machine.returned, hframes', List.tail_cons]
    split
    next => exact ⟨hbase, [], .left (.inl rfl), rfl⟩
    next => exact ⟨hbase, [], .left (.inl rfl), rfl⟩
  case halt =>
    rw [execute_halt, hframes', List.tail_cons]
    exact ⟨hbase, [], .left (.inr rfl), rfl⟩

theorem step_shifts (setup : Setup σ γ) (hframes : machine.frames = frame :: outer)
    (hdecode : Instruction.decode? frame.function.code frame.offset =
      some (.operation op operand)) :
    Shifts setup machine frame outer op operand (step setup machine) := by
  rw [step_eq hframes hdecode]
  cases heffect : op.effect? operand with
  | none => exact execute_shifts _ heffect
  | some effect =>
      refine shifts_of_kept ?_ ((execute_effect heffect).keeps _)
      refine ⟨?_, ?_, ?_⟩ <;> rintro rfl <;> cases heffect

/-- At the end of its code the frame ends. -/
theorem step_exhausted (setup : Setup σ γ) (hframes : machine.frames = frame :: outer)
    (hdecode : Instruction.decode? frame.function.code frame.offset = none) :
    step setup machine = .ok .proceed { machine with frames := outer } := by
  unfold step
  rw [bind_eq, get_eq]
  simp only [hframes, hdecode, bind_eq]
  change EStateM.Result.ok Signal.proceed { machine with frames := machine.frames.tail } = _
  rw [hframes, List.tail_cons]

/-- Where there is no instruction the frame ends or there is a fault. -/
theorem step_cases (setup : Setup σ γ) (hframes : machine.frames = frame :: outer) :
    (Instruction.decode? frame.function.code frame.offset = none ∧
        step setup machine = .ok .proceed { machine with frames := outer }) ∨
      (∃ cause, step setup machine = .error cause machine) ∨
      ∃ op operand, Instruction.decode? frame.function.code frame.offset =
        some (.operation op operand) := by
  cases hdecode : Instruction.decode? frame.function.code frame.offset with
  | none => exact .inl ⟨rfl, step_exhausted setup hframes hdecode⟩
  | some instruction =>
      cases instruction with
      | unknown byte => exact .inr (.inl ⟨_, step_unknown setup hframes hdecode⟩)
      | truncated op => exact .inr (.inl ⟨_, step_truncated setup hframes hdecode⟩)
      | operation op operand => exact .inr (.inr ⟨op, operand, rfl⟩)

/-- Where frames stand after a step that may have failed: all but the innermost one stand where
they stood. -/
def Around (before : Machine σ γ) (outer : List Frame) :
    EStateM.Result Fault (Machine σ γ) α → Prop
  | .ok _ after => after.base = before.base ∧
      ∃ inner, after.places = inner ++ outer.map Frame.place ∧ inner.length ≤ 2
  | .error _ after => after.base = before.base ∧
      ∃ inner, after.places = inner ++ outer.map Frame.place

theorem step_around (setup : Setup σ γ) (hframes : machine.frames = frame :: outer) :
    Around machine outer (step setup machine) := by
  rcases step_cases setup hframes with ⟨-, hend⟩ | ⟨cause, hfault⟩ | ⟨op, operand, hdecode⟩
  · rw [hend]
    exact ⟨rfl, [], rfl, Nat.zero_le 2⟩
  · rw [hfault]
    exact ⟨rfl, [frame.place], congrArg (List.map Frame.place) hframes⟩
  · have hshifts := step_shifts setup hframes hdecode
    cases hresult : step setup machine with
    | error cause after =>
        rw [hresult] at hshifts
        exact hshifts
    | ok signal after =>
        rw [hresult] at hshifts
        obtain ⟨hbase, inner, hshift, hplaces⟩ := hshifts
        exact ⟨hbase, inner, hplaces, hshift.length_le⟩

/-- The loop of the backend is entered if the backend is at hand. -/
theorem runLoop_cases (setup : Setup σ γ) (site : Site) (arguments : List Value)
    (machine : Machine σ γ) :
    (∃ fault, callNative setup site .runLoop arguments machine = .error fault machine) ∨
      ∃ backend layer device, machine.graphics = .ready backend ∧
        callNative setup site .runLoop arguments machine =
          .ok (.enterLoop site (setup.capabilities.graphics.loop backend))
            { machine with graphics := .looping layer device #[] } := by
  unfold callNative
  simp only
  split
  next => exact .inl ⟨_, rfl⟩
  next =>
    change (∃ fault, runLoop setup site machine = _) ∨ ∃ _ _ _, _ ∧ runLoop setup site machine = _
    unfold runLoop
    cases machine.graphics with
    | absent => exact .inl ⟨_, rfl⟩
    | looping layer device pending => exact .inl ⟨_, rfl⟩
    | ready backend => exact .inr ⟨backend, _, _, rfl, rfl⟩

/-- Only one native function enters the loop of the backend. -/
theorem native_of_enterLoop {site' : Site} {course : EventLoop γ} {native : Native}
    {arguments : List Value}
    (h : callNative setup site native arguments machine = .ok (.enterLoop site' course) after) :
    native = .runLoop := by
  unfold callNative at h
  simp only at h
  split at h
  · cases h
  · cases native with
    | runLoop => rfl
    | _ => exact absurd (returning_eq h) nofun

theorem call_of_enterLoop {site' : Site} {course : EventLoop γ}
    (h : execute setup site function operand op machine = .ok (.enterLoop site' course) after) :
    op = .call := by
  cases op
  case call => rfl
  case nop => cases h
  all_goals exact absurd (returning_eq h) nofun

/-- An instruction that enters the loop of a backend leaves the frames where they stand. -/
theorem places_of_enterLoop {site' : Site} {course : EventLoop γ}
    (h : execute setup site function operand op machine = .ok (.enterLoop site' course) after) :
    after.places = machine.places := by
  obtain rfl := call_of_enterLoop h
  change within site (call setup site operand) machine = _ at h
  rcases call_cases setup site operand machine with hkept | ⟨_, _, _, _, _, _, hcall⟩
  · have hcall := ok_of_within h
    rw [hcall] at hkept
    exact hkept.places
  · rw [within_ok hcall] at h
    cases h

/-- The loop that is entered is that of the backend. -/
theorem loop_of_enterLoop {site' : Site} {course : EventLoop γ}
    (h : execute setup site function operand op machine = .ok (.enterLoop site' course) after) :
    ∃ backend, course = setup.capabilities.graphics.loop backend := by
  obtain rfl := call_of_enterLoop h
  change within site (call setup site operand) machine = _ at h
  obtain ⟨callee, rest, -, -, hnamed⟩ := callNamed_of_call (ok_of_within h)
  rcases callNamed_cases setup site callee (rest.take operand).reverse
      { machine with stack := rest.drop operand } with
    ⟨cause, hcalled⟩ | ⟨_, native, -, -, hcalled⟩ | ⟨function, -, -, -, hcalled⟩
  · rw [hcalled] at hnamed
    cases hnamed
  · rw [hcalled] at hnamed
    obtain rfl := native_of_enterLoop hnamed
    rcases runLoop_cases setup site _ _ with
      ⟨fault, hnative⟩ | ⟨backend, layer, device, -, hnative⟩
    · rw [hnative] at hnamed
      cases hnamed
    · rw [hnative] at hnamed
      cases hnamed
      exact ⟨backend, rfl⟩
  · rw [hcalled] at hnamed
    cases hnamed

theorem step_enterLoop (hframes : machine.frames = frame :: outer) {course : EventLoop γ}
    (h : step setup machine = .ok (.enterLoop site course) after) :
    after.frames.length = machine.frames.length := by
  rcases step_cases setup hframes with ⟨-, hend⟩ | ⟨cause, hfault⟩ | ⟨op, operand, hdecode⟩
  · rw [hend] at h
    cases h
  · rw [hfault] at h
    cases h
  · rw [step_eq hframes hdecode] at h
    have hlength := congrArg List.length (places_of_enterLoop h)
    rw [Machine.places, Machine.places, List.length_map, List.length_map] at hlength
    rw [hlength, hframes]
    rfl

theorem loop_of_step {site' : Site} {course : EventLoop γ}
    (h : step setup machine = .ok (.enterLoop site' course) after) :
    ∃ backend, course = setup.capabilities.graphics.loop backend := by
  cases hframes : machine.frames with
  | nil =>
      rw [step_idle setup hframes] at h
      cases h
  | cons frame outer =>
      rcases step_cases setup hframes with ⟨-, hend⟩ | ⟨cause, hfault⟩ | ⟨op, operand, hdecode⟩
      · rw [hend] at h
        cases h
      · rw [hfault] at h
        cases h
      · rw [step_eq hframes hdecode] at h
        exact loop_of_enterLoop h

end Exec

end DocScript
