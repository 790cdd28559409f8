import DocScript.Proofs.Machine.Entries
import DocScript.Proofs.Machine.Reach
import DocScript.Proofs.Machine.Sparing

/-! # Compiled code is never to blame

Every frame of a program that compiles stands where an instruction begins, with all its
locals. A frame that comes to a call has just pushed the name of a function that takes
as many arguments. So no step has a fault that the code is to blame for, whatever is on
the stack otherwise.
-/

namespace DocScript

open Machine

/-! ### Frames -/

namespace Stance

/-- The function belongs to the program, an instruction begins where the frame stands, and all
locals are there. -/
structure Sound (program : Program) (stance : Stance) : Prop where
  member : ∃ name, program.get? name = some stance.function
  entry : stance.function.HasEntry stance.offset
  locals : stance.locals = stance.function.localCount

/-- The frame does not stand at a call, so it may go on whatever is on the stack. -/
structure Settled (program : Program) (stance : Stance) : Prop extends Sound program stance where
  uncalled : ∀ count, ¬ stance.function.At stance.offset .call count

/-- The frame may stand at a call if the name of a known function is on top of the stack, and the
call takes as many arguments as that function has parameters. -/
structure Ready (signatures : SignatureTable) (program : Program) (stack : List Value)
    (stance : Stance) : Prop extends Sound program stance where
  named : ∀ count, stance.function.At stance.offset .call count → ∃ name signature rest,
    stack = .string name :: rest ∧ signatures.get? name = some signature ∧
      count = signature.params.length

theorem Settled.ready {program : Program} {stance : Stance} (h : stance.Settled program)
    (signatures : SignatureTable) (stack : List Value) : stance.Ready signatures program stack :=
  ⟨h.toSound, fun count hcall => (h.uncalled count hcall).elim⟩

end Stance

/-- The innermost frame of a run may be at a call, and the frames around it are not. -/
def RunReady (signatures : SignatureTable) (program : Program) (stack : List Value) :
    List Stance → Prop
  | [] => True
  | first :: others =>
      first.Ready signatures program stack ∧ ∀ other ∈ others, other.Settled program

theorem runReady_of_settled {signatures : SignatureTable} {program : Program} {stack : List Value}
    {stances : List Stance} (h : ∀ stance ∈ stances, stance.Settled program) :
    RunReady signatures program stack stances := by
  cases stances with
  | nil => trivial
  | cons first others =>
      exact ⟨(h first List.mem_cons_self).ready _ _,
        fun other hmem => h other (List.mem_cons_of_mem _ hmem)⟩

theorem RunReady.append {signatures : SignatureTable} {program : Program} {stack : List Value}
    {inner others : List Stance} (h : RunReady signatures program stack inner)
    (hothers : ∀ other ∈ others, other.Settled program) :
    RunReady signatures program stack (inner ++ others) := by
  cases inner with
  | nil => exact runReady_of_settled hothers
  | cons first rest =>
      exact ⟨h.1, fun other hmem => (List.mem_append.1 hmem).elim (h.2 other) (hothers other)⟩

/-- What a machine may rely on: the functions of its program, the natives, and its capabilities. -/
structure Setup.Reliable (setup : Setup σ γ) (signatures : SignatureTable) : Prop where
  sturdy : ∀ name function, setup.program.get? name = some function →
    function.Sturdy signatures
  natives : ∀ native, signatures.get? (SignatureTable.native native).name =
    some (SignatureTable.native native)
  spare : setup.capabilities.Spare

section Steps

variable {signatures : SignatureTable} {setup : Setup σ γ} {machine : Machine σ γ} {frame : Frame}
  {rest : List Frame} {op : Opcode} {operand : Nat} {site : Site}
  (hreliable : setup.Reliable signatures)

include hreliable

theorem settled_behind {stance : Stance} (h : stance.Sound setup.program)
    (hat : stance.function.At stance.offset op operand)
    (hgoes : op ≠ .jmp ∧ op ≠ .ret ∧ op ≠ .halt) (hpush : op ≠ .pushConst) :
    Stance.Settled setup.program { stance with offset := stance.offset + op.width } := by
  obtain ⟨name, hget⟩ := h.member
  have hsturdy := hreliable.sturdy name _ hget
  refine ⟨⟨h.member, hsturdy.behind _ _ _ hat hgoes, h.locals⟩, fun count hcall => ?_⟩
  exact hpush (hsturdy.called _ _ _ count hat hcall).1

theorem ready_behind_push {stance : Stance} (h : stance.Sound setup.program)
    (hat : stance.function.At stance.offset .pushConst operand) {value : Value}
    (hvalue : stance.function.constants[operand]? = some value) (stack : List Value) :
    Stance.Ready signatures setup.program (value :: stack)
      { stance with offset := stance.offset + Opcode.pushConst.width } := by
  obtain ⟨name, hget⟩ := h.member
  have hsturdy := hreliable.sturdy name _ hget
  refine ⟨⟨h.member, hsturdy.behind _ _ _ hat (by decide), h.locals⟩, fun count hcall => ?_⟩
  obtain ⟨-, callee, signature, hconstant, hknown, hcount⟩ := hsturdy.called _ _ _ count hat hcall
  cases hvalue.symm.trans hconstant
  exact ⟨callee, signature, stack, rfl, hknown, hcount⟩

theorem settled_target {stance : Stance} (h : stance.Sound setup.program)
    (hat : stance.function.At stance.offset op operand) (hjump : op.isJump = true) :
    Stance.Settled setup.program { stance with offset := operand } ∧
      operand ≤ stance.function.code.size := by
  obtain ⟨name, hget⟩ := h.member
  have hsturdy := hreliable.sturdy name _ hget
  obtain ⟨hentry, hinside⟩ := hsturdy.target _ _ _ hat hjump
  refine ⟨⟨⟨h.member, hentry, h.locals⟩, fun count hcall => ?_⟩, hinside⟩
  have hnone := (hsturdy.guarded _ count hcall).2 _ _ hat
  exact absurd (hnone.symm.trans hjump) nofun

/-- A function begins with all its locals, and not with a call. -/
theorem settled_enter {name : String} {function : CompiledFunction Value}
    (hget : setup.program.get? name = some function) {arguments : List Value}
    (harguments : arguments.length = function.paramCount) :
    (Frame.enter function arguments).stance.Settled setup.program := by
  have hsturdy := hreliable.sturdy name _ hget
  refine ⟨⟨⟨name, hget⟩, hsturdy.begins, ?_⟩, fun count hcall => ?_⟩
  · have hparams := hsturdy.params
    simp only [Frame.stance, Frame.enter, List.size_toArray, List.length_append,
      List.length_replicate]
    omega
  · exact (hsturdy.guarded _ count hcall).1 rfl

/-! ### Steps -/

/-- A step has put other frames in place of the innermost one, or the code is not to blame. -/
def StepsWell (signatures : SignatureTable) (setup : Setup σ γ) (before : Machine σ γ)
    (outer : List Stance) : EStateM.Result Fault (Machine σ γ) (Signal γ) → Prop
  | .ok .proceed after => ∃ inner, after.poise = (inner ++ outer, before.base) ∧
      RunReady signatures setup.program after.stack inner
  | .ok (.enterLoop _ course) after => course.Spares ∧ ∃ inner,
      after.poise = (inner ++ outer, before.base) ∧
        ∀ stance ∈ inner, stance.Settled setup.program
  | .error fault after => fault.SparesCode ∧ ∃ inner, after.poise = (inner ++ outer, before.base)

omit hreliable in
/-- An instruction that leaves the frames alone goes on behind itself. -/
theorem stepsWell_of_spared {result : EStateM.Result Fault (Machine σ γ) (Signal γ)}
    {offset : Nat} (h : Exec.Spared (machine.moved frame rest offset) result)
    (hsettled : Stance.Settled setup.program { frame.stance with offset })
    (hcourse : ∀ site course after, result = .ok (.enterLoop site course) after → course.Spares) :
    StepsWell signatures setup machine (rest.map Frame.stance) result := by
  have hinner : ∀ stance ∈ [{ frame.stance with offset }], stance.Settled setup.program := by
    intro stance hmem
    rw [List.mem_singleton] at hmem
    exact hmem ▸ hsettled
  cases result with
  | error fault after => exact ⟨h.2, [{ frame.stance with offset }], h.1⟩
  | ok signal after =>
      cases signal with
      | proceed => exact ⟨[{ frame.stance with offset }], h, runReady_of_settled hinner⟩
      | enterLoop site course =>
          exact ⟨hcourse site course after rfl, [{ frame.stance with offset }], h, hinner⟩

omit hreliable in
theorem stepsWell_of_settled {after : Machine σ γ} {inner : List Stance}
    (hpoise : after.poise = (inner ++ rest.map Frame.stance, machine.base))
    (hinner : ∀ stance ∈ inner, stance.Settled setup.program) :
    StepsWell signatures setup machine (rest.map Frame.stance) (.ok .proceed after) :=
  ⟨inner, hpoise, runReady_of_settled hinner⟩

/-- Most instructions leave the frames alone. -/
theorem execute_spared {function : CompiledFunction Value} {offset : Nat}
    (hsturdy : function.Sturdy signatures) (hat : function.At offset op operand)
    (hframes : machine.frames = frame :: rest) (hlocals : frame.locals.size = function.localCount)
    (hgoes : op ∉ [.jmp, .jmpIfFalse, .call, .ret, .halt]) :
    Exec.Spared machine (Exec.execute setup site function operand op machine) := by
  have hslot (huses : op.usesLocal = true) : operand < frame.locals.size :=
    hlocals ▸ hsturdy.slot _ _ _ hat huses
  have hfair := machine.poised_fair
  have hexcused := Capabilities.spare_iff.1 hreliable.spare
  cases op with
  | jmp | jmpIfFalse | call | ret | halt => simp at hgoes
  | nop => exact .of_upholds (.pure _)
  | pushConst =>
      obtain ⟨value, hvalue⟩ := hsturdy.constant _ _ hat
      exact (Exec.Spared.of_upholds (.pushConst hfair hvalue)).proceeding site
  | loadLocal => exact (Exec.spared_loadLocal hframes (hslot rfl)).proceeding site
  | storeLocal => exact (Exec.spared_storeLocal hframes (hslot rfl)).proceeding site
  | storeLocalInt => exact (Exec.spared_storeLocalInt hframes (hslot rfl)).proceeding site
  | add | sub | mul | div | mod | eq | gt | lt | and | or =>
      exact (Exec.Spared.of_upholds
        (.combine hfair _ (hsturdy.counted _ _ _ hat rfl))).proceeding site
  | neg => exact (Exec.Spared.of_upholds (.neg hfair)).proceeding site
  | not => exact (Exec.Spared.of_upholds (.not hfair)).proceeding site
  | print => exact .of_upholds ((Regime.Upholds.print hfair hexcused site).returning _)
  | makeArray => exact (Exec.Spared.of_upholds (.makeArray hfair operand)).proceeding site
  | arrayGet => exact (Exec.Spared.of_upholds (.arrayGet hfair)).proceeding site
  | arraySet => exact (Exec.Spared.of_upholds (.arraySet hfair)).proceeding site
  | arrayPush => exact (Exec.Spared.of_upholds (.arrayPush hfair)).proceeding site
  | arrayLen => exact (Exec.Spared.of_upholds (.arrayLen hfair)).proceeding site
  | onEvent => exact (Exec.Spared.of_upholds (Exec.upholds_onEvent machine)).proceeding site
  | ffiCall =>
      exact (Exec.Spared.of_upholds (.foreignCall hfair hexcused operand)).proceeding site
  | memAlloc => exact (Exec.Spared.of_upholds (.memAlloc hfair hexcused)).proceeding site
  | memRead => exact (Exec.Spared.of_upholds (.memRead hfair hexcused)).proceeding site
  | memWrite => exact (Exec.Spared.of_upholds (.memWrite hfair hexcused)).proceeding site
  | memFree => exact (Exec.Spared.of_upholds (.memFree hfair hexcused)).proceeding site

omit hreliable in
theorem spares_of_enterLoop (hspare : setup.capabilities.Spare)
    {function : CompiledFunction Value} {after : Machine σ γ} {site' : Site} {course : EventLoop γ}
    (h : Exec.execute setup site function operand op machine =
      .ok (.enterLoop site' course) after) :
    course.Spares := by
  obtain ⟨backend, rfl⟩ := Exec.loop_of_enterLoop h
  exact hspare.loop backend

/-! ### Calls -/

omit hreliable in
theorem popMany_cases (count : Nat) (shortage : Shortage) (machine : Machine σ γ) :
    Exec.popMany count shortage machine = .error { cause := .underflow shortage } machine ∨
      ∃ values, values.length = count ∧ Exec.popMany count shortage machine =
        .ok values { machine with stack := machine.stack.drop count } := by
  unfold Exec.popMany
  simp only
  split
  next hlength => exact .inr ⟨_, by rwa [List.length_reverse], rfl⟩
  next => exact .inl rfl

/-- A name that is called with as many arguments as its function has parameters. -/
theorem callNamed_spared {callee : String} {arguments : List Value} {signature : Signature}
    (hknown : signatures.get? callee = some signature)
    (hlength : arguments.length = signature.params.length) (machine : Machine σ γ) :
    Exec.Spared machine (Exec.callNamed setup site callee arguments machine) ∨
      ∃ function : CompiledFunction Value, setup.program.get? callee = some function ∧
        arguments.length = function.paramCount ∧
        Exec.callNamed setup site callee arguments machine =
          .ok .proceed { machine with frames := .enter function arguments :: machine.frames } := by
  unfold Exec.callNamed
  cases hlocal : Native.localName? callee with
  | some name =>
      left
      cases hnative : Native.ofName? name with
      | none =>
          simp only [hnative]
          exact ⟨rfl, rfl⟩
      | some native =>
          -- The name is that of the native, so the call takes as many arguments as it does.
          rw [name_of_localName? hlocal hnative, hreliable.natives] at hknown
          cases hknown
          have hfits : arguments.length = native.params.length := by
            rw [hlength, SignatureTable.native, List.length_map]
          simp only [hnative]
          have hexcused := Capabilities.spare_iff.1 hreliable.spare
          exact .of_upholds (.callNative machine.poised_fair hexcused site hfits)
  | none =>
      cases hfunction : setup.program.get? callee with
      | none => exact .inl ⟨rfl, rfl⟩
      | some function =>
          obtain ⟨other, hother, hparams⟩ := (hreliable.sturdy callee function hfunction).known
          rw [(FunctionTable.mem_of_get? hfunction).2, hknown] at hother
          cases hother
          have hfits : arguments.length = function.paramCount := hlength.trans hparams.symm
          simp only
          rcases Exec.enter_fits setup hfits machine with ⟨fault, hkind, henter⟩ | henter
          · left
            rw [Exec.bind_eq, henter]
            exact ⟨rfl, by rw [Fault.SparesCode, hkind]; rfl⟩
          · right
            refine ⟨function, rfl, hfits, ?_⟩
            rw [Exec.bind_eq, henter]
            rfl

/-- A call behind the push of a name that it fits leaves the frames alone, or begins a function
with as many arguments as it has parameters. -/
theorem call_spared {callee : String} {stack : List Value} {signature : Signature}
    (hstack : machine.stack = .string callee :: stack)
    (hknown : signatures.get? callee = some signature) :
    Exec.Spared machine (Exec.call setup site signature.params.length machine) ∨
      ∃ (function : CompiledFunction Value) (arguments : List Value) (middle : Machine σ γ),
        setup.program.get? callee = some function ∧
        arguments.length = function.paramCount ∧ middle.poise = machine.poise ∧
        Exec.call setup site signature.params.length machine =
          .ok .proceed { middle with frames := .enter function arguments :: middle.frames } := by
  rw [Exec.call_eq, Exec.bind_eq, Exec.popCallee_cons hstack]
  simp only [Exec.bind_eq]
  rcases popMany_cases signature.params.length (.arguments callee signature.params.length)
    { machine with stack } with hshort | ⟨arguments, hlength, hmany⟩
  · rw [hshort]
    exact .inl ⟨rfl, rfl⟩
  · rw [hmany]
    simp only
    let middle : Machine σ γ := { machine with stack := stack.drop signature.params.length }
    rcases callNamed_spared hreliable hknown hlength middle with
      hspared | ⟨function, hfunction, hfits, hdone⟩
    · exact .inl hspared
    · exact .inr ⟨function, arguments, middle, hfunction, hfits, rfl, hdone⟩

omit hreliable in
theorem jump_inside {function : CompiledFunction Value} {target : Nat}
    (hinside : target ≤ function.code.size) (hframes : machine.frames = frame :: rest) :
    Exec.jump function target machine = .ok () (machine.moved frame rest target) := by
  unfold Exec.jump
  rw [if_neg (Nat.not_lt.2 hinside)]
  exact Exec.goTo_eq hframes target

omit hreliable in
/-- A conditional jump stays where it is, or goes to its target. -/
theorem jumpIfFalse_inside {function : CompiledFunction Value} {target : Nat}
    (hinside : target ≤ function.code.size) (hframes : machine.frames = frame :: rest) :
    Exec.Spared machine (Exec.jumpIfFalse function target machine) ∨
      ∃ stack, Exec.jumpIfFalse function target machine =
        .ok () { machine.moved frame rest target with stack } := by
  unfold Exec.jumpIfFalse
  cases hstack : machine.stack with
  | nil =>
      rw [Exec.bind_eq, Exec.pop_nil hstack]
      exact .inl ⟨rfl, rfl⟩
  | cons value stack =>
      rw [Exec.bind_eq, Exec.pop_cons hstack]
      cases hholds : value.holds with
      | true =>
          simp only [hholds, if_true]
          exact .inl rfl
      | false =>
          simp only [hholds, Bool.false_eq_true, if_false]
          have hmiddle : { machine with stack }.frames = frame :: rest := hframes
          have hjump := jump_inside hinside hmiddle
          exact .inr ⟨stack, hjump⟩

/-- A step of a frame that is ready goes well. -/
theorem step_steps_well (hframes : machine.frames = frame :: rest)
    (hready : frame.stance.Ready signatures setup.program machine.stack) :
    StepsWell signatures setup machine (rest.map Frame.stance) (Exec.step setup machine) := by
  obtain ⟨name, hget⟩ := hready.member
  have hsturdy : frame.function.Sturdy signatures := hreliable.sturdy name _ hget
  obtain ⟨op, operand, hat⟩ := hsturdy.decodes _ hready.entry
  rw [Exec.step_eq hframes hat.2]
  let site : Site := ⟨frame.function.name, frame.offset⟩
  let behind : Frame := { frame with offset := frame.offset + op.width }
  have hmoved : (machine.moved frame rest (frame.offset + op.width)).frames = behind :: rest := rfl
  have hsound := hready.toSound
  -- Where an instruction goes on behind itself, the frame is settled unless it has pushed a name.
  have hsettled (hgoes : op ≠ .jmp ∧ op ≠ .ret ∧ op ≠ .halt) (hpush : op ≠ .pushConst) :=
    settled_behind hreliable hsound hat hgoes hpush
  have htarget (hjump : op.isJump = true) := settled_target hreliable hsound hat hjump
  by_cases hplain : op ∉ [.jmp, .jmpIfFalse, .call, .ret, .halt]
  · by_cases hpush : op = .pushConst
    · subst hpush
      obtain ⟨value, hvalue⟩ := hsturdy.constant _ _ hat
      rw [Exec.execute_pushConst hvalue]
      exact ⟨[_], rfl, ready_behind_push hreliable hsound hat hvalue _, nofun⟩
    · have hgoes : op ≠ .jmp ∧ op ≠ .ret ∧ op ≠ .halt := by
        refine ⟨?_, ?_, ?_⟩ <;> rintro rfl <;> simp at hplain
      exact stepsWell_of_spared
        (execute_spared hreliable hsturdy hat hmoved hready.locals hplain)
        (hsettled hgoes hpush) fun _ _ _ hloop => spares_of_enterLoop hreliable.spare hloop
  have hkinds : op = .jmp ∨ op = .jmpIfFalse ∨ op = .call ∨ op = .ret ∨ op = .halt := by
    simpa only [List.mem_cons, List.not_mem_nil, or_false] using Decidable.not_not.1 hplain
  have hlast {stance : Stance} (h : stance.Settled setup.program) :
      ∀ other ∈ [stance], other.Settled setup.program := by
    intro other hmem
    rw [List.mem_singleton] at hmem
    exact hmem ▸ h
  rcases hkinds with rfl | rfl | rfl | rfl | rfl
  · obtain ⟨hland, hinside⟩ := htarget rfl
    have hdone : Exec.execute setup site frame.function operand .jmp _ = .ok .proceed _ :=
      Exec.proceeding_ok (jump_inside hinside hmoved)
    rw [hdone]
    exact stepsWell_of_settled rfl (hlast hland)
  · obtain ⟨hland, hinside⟩ := htarget rfl
    rcases jumpIfFalse_inside hinside hmoved with hspared | ⟨stack, hjump⟩
    · exact stepsWell_of_spared (hspared.proceeding site) (hsettled (by decide) (by decide))
        fun _ _ _ hloop => spares_of_enterLoop hreliable.spare hloop
    · have hdone : Exec.execute setup site frame.function operand .jmpIfFalse _ = .ok .proceed _ :=
        Exec.proceeding_ok hjump
      rw [hdone]
      exact stepsWell_of_settled rfl (hlast hland)
  · obtain ⟨callee, signature, stack, hstack, hknown, rfl⟩ := hready.named operand hat
    have hnext := hsettled (by decide) (by decide)
    have hname : (machine.moved frame rest (frame.offset + Opcode.call.width)).stack =
        .string callee :: stack := hstack
    rcases call_spared hreliable hname hknown with
      hspared | ⟨function, arguments, middle, hfunction, hfits, hpoise, hcall⟩
    · exact stepsWell_of_spared (hspared.within site) hnext
        fun _ _ _ hloop => spares_of_enterLoop hreliable.spare hloop
    · have hdone : Exec.execute setup site frame.function signature.params.length .call _ =
          .ok .proceed _ := Exec.within_ok hcall site
      rw [hdone]
      obtain ⟨hframes', hbase⟩ := Prod.mk.inj hpoise
      have hbegun : Machine.poise
          { middle with frames := .enter function arguments :: middle.frames } =
            ([(Frame.enter function arguments).stance, behind.stance] ++ rest.map Frame.stance,
              machine.base) :=
        Prod.ext (congrArg (List.cons _) hframes') hbase
      refine stepsWell_of_settled hbegun fun other hmem => ?_
      rw [List.mem_cons, List.mem_singleton] at hmem
      rcases hmem with rfl | rfl
      · exact settled_enter hreliable hfunction hfits
      · exact hnext
  · rw [Exec.execute_ret]
    refine ⟨[], ?_, trivial⟩
    unfold Machine.returned
    split <;> rfl
  · rw [Exec.execute_halt]
    exact ⟨[], rfl, trivial⟩

omit hreliable in
theorem StepsWell.around {others outer : List Stance}
    {result : EStateM.Result Fault (Machine σ γ) (Signal γ)}
    (h : StepsWell signatures setup machine (others ++ outer) result)
    (hothers : ∀ other ∈ others, other.Settled setup.program) :
    StepsWell signatures setup machine outer result := by
  have hpoise {after : Machine σ γ} {inner : List Stance}
      (hafter : after.poise = (inner ++ (others ++ outer), machine.base)) :
      after.poise = ((inner ++ others) ++ outer, machine.base) := by
    rw [hafter, List.append_assoc]
  cases result with
  | error fault after =>
      obtain ⟨hspares, inner, hafter⟩ := h
      exact ⟨hspares, _, hpoise hafter⟩
  | ok signal after =>
      cases signal with
      | proceed =>
          obtain ⟨inner, hafter, hready⟩ := h
          exact ⟨_, hpoise hafter, hready.append hothers⟩
      | enterLoop site course =>
          obtain ⟨hcourse, inner, hafter, hinner⟩ := h
          exact ⟨hcourse, _, hpoise hafter, List.forall_mem_append.2 ⟨hinner, hothers⟩⟩

/-- So does a step of a run whose frames are ready, whatever there is around the run. -/
theorem run_steps_well {inner outer : List Stance}
    (hgoes : machine.hasFramesAbove outer.length = true)
    (hstances : machine.frames.map Frame.stance = inner ++ outer)
    (hready : RunReady signatures setup.program machine.stack inner) :
    StepsWell signatures setup machine outer (Exec.step setup machine) := by
  obtain ⟨frame, rest, others, hframes, rfl, hrest⟩ := frames_of_goes hgoes hstances
  exact .around (hrest ▸ step_steps_well hreliable hframes hready.1) hready.2

end Steps

/-! ### Runs -/

/-- The run has come to its end, or to a fault for which the code is not to blame. Only after a
fault there may be frames left above those around it. -/
def Outcome.Drained (outer : List Stance) (base : Nat) : Outcome σ γ Unit → Prop
  | .done _ after => after.poise = (outer, base)
  | .faulted fault after => fault.SparesCode ∧ ∃ left, after.poise = (left ++ outer, base)
  | .outOfFuel => True

/-- All runs with some fuel go well if they begin with all their frames ready. -/
def DrainsSpared (signatures : SignatureTable) (setup : Setup σ γ) (fuel : Nat) : Prop :=
  ∀ (machine : Machine σ γ) inner outer base, machine.poise = (inner ++ outer, base) →
    RunReady signatures setup.program machine.stack inner →
    (drain setup fuel outer.length machine).Drained outer base

section Runs

variable {signatures : SignatureTable} {setup : Setup σ γ} {machine : Machine σ γ} {fuel : Nat}

theorem poised_steady (machine : Machine σ γ) : machine.poised.Steady setup where
  result _ _ h := h
  graphics _ _ h := h
  deep := rfl
  missing _ _ _ _ _ _ := rfl

variable (hreliable : setup.Reliable signatures)

include hreliable

/-- If all runs go well with some fuel, then so do the runs of handlers. -/
theorem handlersUphold (hdrain : DrainsSpared signatures setup fuel) (beginning : Machine σ γ) :
    HandlersUphold setup fuel beginning.poised fun _ => True := by
  intro handler function arguments machine entered hfunction henter hholds _
  have hentered := Exec.enter_ok henter
  have hfits := Exec.length_of_enter henter
  have hlength : (machine.frames.map Frame.stance).length = machine.frames.length :=
    List.length_map _
  have hbegun : (entered.based machine.frames.length).poise =
      ([(Frame.enter function arguments).stance] ++ machine.frames.map Frame.stance,
        machine.frames.length) := by
    rw [hentered]
    rfl
  have hready := (settled_enter hreliable hfunction hfits).ready signatures entered.stack
  have hrun := hdrain (entered.based machine.frames.length) _ _ _ hbegun ⟨hready, nofun⟩
  rw [hlength] at hrun
  have hbase : entered.base = machine.base := by rw [hentered]
  rw [runFrames_eq]
  cases hresult : drain setup fuel machine.frames.length
    (entered.based machine.frames.length) with
  | outOfFuel => trivial
  | done value after =>
      rw [hresult] at hrun
      exact Eq.trans (b := machine.poise) (Prod.ext (Prod.mk.inj hrun).1 hbase) hholds
  | faulted fault after =>
      rw [hresult] at hrun
      obtain ⟨hspares, left, hpoise⟩ := hrun
      obtain ⟨hstances, -⟩ := Prod.mk.inj hpoise
      refine ⟨Eq.trans (b := machine.poise) (Prod.ext ?_ hbase) hholds, hspares⟩
      -- The frames that the handler has left are dropped, and the rest are the caller's.
      change (after.frames.drop (after.frames.length - machine.frames.length)).map Frame.stance = _
      have hframes : after.frames.length = left.length + machine.frames.length := by
        have hcount := congrArg List.length hstances
        rwa [List.length_map, List.length_append, hlength] at hcount
      rw [List.map_drop, hstances, hframes, Nat.add_sub_cancel, List.drop_left]
      rfl

theorem loop_spared (hdrain : DrainsSpared signatures setup fuel) {course : EventLoop γ}
    {machine after : Machine σ γ} {result : Except Fault Unit} {backend : γ}
    (hcourse : course.Spares)
    (hloop : followLoop setup (drain setup fuel) course machine = .done (result, backend) after) :
    after.poise = machine.poise ∧ ∀ fault, result = .error fault → fault.SparesCode := by
  have hspared := followLoop_upholds (handlersUphold hreliable hdrain machine)
    (poised_steady machine) (EventLoop.spares_iff.1 hcourse) machine rfl fun _ _ => trivial
  rw [hloop] at hspared
  exact hspared

/-- A run that begins with all its frames ready goes well. -/
theorem drainsSpared (fuel : Nat) : DrainsSpared signatures setup fuel := by
  induction fuel with
  | zero => exact fun _ _ _ _ _ _ => trivial
  | succ fuel ih =>
      intro machine inner outer base hpoise hready
      have hround := drain_round setup fuel outer.length machine
      generalize drain setup (fuel + 1) outer.length machine = outcome at hround ⊢
      obtain ⟨hstances, rfl⟩ := Prod.mk.inj hpoise
      have hsteps (hgoes : machine.hasFramesAbove outer.length = true) :=
        run_steps_well hreliable hgoes hstances hready
      cases hround with
      | ended hends =>
          rw [frames_of_ends hends hstances, List.nil_append] at hpoise
          exact hpoise
      | failed hgoes hstep =>
          have hwell := hsteps hgoes
          rw [hstep] at hwell
          exact hwell
      | proceeds hgoes hstep hrest =>
          have hwell := hsteps hgoes
          rw [hstep] at hwell
          obtain ⟨moved, hafter, hmoved⟩ := hwell
          subst hrest
          exact ih _ moved outer _ hafter hmoved
      | endless | starved | hung => trivial
      | @broken site _ _ _ fault _ hgoes hstep hloop =>
          have hwell := hsteps hgoes
          rw [hstep] at hwell
          obtain ⟨hcourse, moved, hafter, -⟩ := hwell
          obtain ⟨hsame, hspares⟩ := loop_spared hreliable ih hcourse hloop
          exact ⟨(hspares fault rfl).within site, moved, hsame.trans hafter⟩
      | @resumed _ _ _ last backend _ hgoes hstep hloop hrest =>
          have hwell := hsteps hgoes
          rw [hstep] at hwell
          obtain ⟨hcourse, moved, hafter, hmoved⟩ := hwell
          obtain ⟨hsame, -⟩ := loop_spared hreliable ih hcourse hloop
          subst hrest
          -- The loop has left the frames as they were, so all of them are still settled.
          exact ih { last with graphics := .ready backend } moved outer _ (hsame.trans hafter)
            (runReady_of_settled hmoved)

end Runs

end DocScript
