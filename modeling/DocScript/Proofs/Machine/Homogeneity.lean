import DocScript.Proofs.Machine.Requests
import DocScript.Proofs.Machine.Nesting

/-! # Arrays stay of one kind

The arrays that a program can reach are those that the values on the stack, in locals, among
constants and in results lead to. If they are all homogeneous then they stay so: instructions only
make homogeneous arrays and only move values about, as long as what comes from outside is sound.
-/

namespace DocScript

open Machine

/-! ### Sound machines -/

/-- Every array that the program can reach is homogeneous: those that the values on the stack, in
locals, among constants and in the result lead to. -/
structure Machine.Sound (program : Program) (machine : Machine σ γ) : Prop where
  stack : ∀ value ∈ machine.stack, machine.heap.Sound value
  locals : ∀ frame ∈ machine.frames, ∀ value ∈ frame.locals, machine.heap.Sound value
  constants : ∀ frame ∈ machine.frames, ∀ value ∈ frame.function.constants,
    machine.heap.Sound value
  program : ∀ function ∈ program.functions, ∀ value ∈ function.constants, machine.heap.Sound value
  result : machine.heap.Sound machine.result

namespace Machine.Sound

variable {program : Program} {machine : Machine σ γ}

/-- What was sound may be changed to what is sound. -/
theorem changed (h : machine.Sound program) {heap : Heap}
    (hkept : ∀ value, machine.heap.Sound value → heap.Sound value) :
    Sound program { machine with heap } where
  stack value hmem := hkept value (h.stack value hmem)
  locals frame hframe value hmem := hkept value (h.locals frame hframe value hmem)
  constants frame hframe value hmem := hkept value (h.constants frame hframe value hmem)
  program function hfunction value hmem := hkept value (h.program function hfunction value hmem)
  result := hkept _ h.result

/-- Frames may be left, and others come to the places of those inside that are as sound. -/
theorem framed (h : machine.Sound program) {frames : List Frame}
    (hframes : ∀ frame ∈ frames, frame ∈ machine.frames ∨
      (∀ value ∈ frame.locals, machine.heap.Sound value) ∧
        ∀ value ∈ frame.function.constants, machine.heap.Sound value) :
    Sound program { machine with frames } where
  stack := h.stack
  locals frame hframe value hmem := (hframes frame hframe).elim
    (fun hold => h.locals frame hold value hmem) fun hnew => hnew.1 value hmem
  constants frame hframe value hmem := (hframes frame hframe).elim
    (fun hold => h.constants frame hold value hmem) fun hnew => hnew.2 value hmem
  program := h.program
  result := h.result

end Machine.Sound

/-- Arrays that can be reached are to stay homogeneous, and a value is trusted if it is sound. -/
def keepingKinds (program : Program) : Custody σ γ where
  holds := Machine.Sound program
  trusts machine value := machine.heap.Sound value
  excuses _ := True

namespace keepingKinds

variable {program : Program}

/-- The heap is as it was. -/
theorem passes {machine after : Machine σ γ} (h : after.Sound program)
    (hheap : after.heap = machine.heap) : (keepingKinds program).Passes machine after where
  holds := h
  trusts value hvalue := by
    change after.heap.Sound value
    rw [hheap]
    exact hvalue

theorem passes_heap {machine : Machine σ γ} {heap : Heap} (h : machine.Sound program)
    (hkept : ∀ value, machine.heap.Sound value → heap.Sound value) :
    (keepingKinds program).Passes machine { machine with heap } :=
  ⟨h.changed hkept, hkept⟩

theorem passes_frames {machine : Machine σ γ} {frames : List Frame} (h : machine.Sound program)
    (hframes : ∀ frame ∈ frames, frame ∈ machine.frames ∨
      (∀ value ∈ frame.locals, machine.heap.Sound value) ∧
        ∀ value ∈ frame.function.constants, machine.heap.Sound value) :
    (keepingKinds program).Passes machine { machine with frames } :=
  passes (h.framed hframes) rfl

theorem framed (program : Program) : (keepingKinds program : Custody σ γ).Framed where
  scalar machine := .scalar machine.heap
  stacked _ h := h.stack
  stack _ _ h hstack := passes { h with stack := hstack } rfl
  items _ _ _ hhandle item hitem := hhandle.items item (Array.mem_toList_iff.1 hitem)
  update machine handle change h hhandle hchange hitems :=
    passes_heap h fun value => .update (hchange hhandle.object) fun item hitem =>
      hitems item (Array.mem_toList_iff.2 hitem)
  allocate machine object h hobject hitems :=
    have hsound : ∀ item ∈ object.items, machine.heap.Sound item := fun item hitem =>
      hitems item (Array.mem_toList_iff.2 hitem)
    ⟨passes_heap h fun value => .allocate hobject hsound, .allocated hobject hsound⟩
  graphics _ _ h _ := passes { h with } rfl
  environment _ _ h := passes { h with } rfl
  excuses _ _ := trivial
  locals _ frame _ h hframes value hmem :=
    h.locals frame (hframes ▸ List.mem_cons_self) value (Array.mem_toList_iff.1 hmem)
  frame machine frame outer changed h hframes hbecomes hlocals := by
    refine passes_frames h fun other hother => ?_
    rcases List.mem_cons.1 hother with rfl | houter
    · refine .inr ⟨fun value hmem => hlocals value (Array.mem_toList_iff.2 hmem), ?_⟩
      rw [hbecomes.function]
      exact h.constants frame (hframes ▸ List.mem_cons_self)
    · exact .inl (hframes ▸ List.mem_cons_of_mem _ houter)
  structural _ _ := trivial

end keepingKinds

/-! ### What comes from outside -/

/-- The next step makes the foreign call, in the last state. -/
def Machine.AsksForeign (machine : Machine σ γ) (call : ForeignCall) (calling : Machine σ γ) :
    Prop :=
  ∃ frame outer count, machine.frames = frame :: outer ∧
    Instruction.decode? frame.function.code frame.offset = some (.operation .ffiCall count) ∧
    Exec.foreignRequest count (machine.moved frame outer (frame.offset + Opcode.ffiCall.width)) =
      .ok call calling

/-- The next step reads memory, in the last state. -/
def Machine.AsksMemory (machine : Machine σ γ) (address : UInt64) (offset : Nat)
    (width : MemoryWidth) (calling : Machine σ γ) : Prop :=
  ∃ frame outer operand, machine.frames = frame :: outer ∧
    Instruction.decode? frame.function.code frame.offset = some (.operation .memRead operand) ∧
    Exec.readRequest (machine.moved frame outer (frame.offset + Opcode.memRead.width)) =
      .ok (address, offset, width) calling

/-- What a foreign function makes of the heap: what was sound stays so, and so is the value that it
gives. -/
def Heap.Answered (heap : Heap) : EStateM.Result Fault (σ × Heap) Value → Prop
  | .ok value (_, after) => after.Sound value ∧ ∀ value, heap.Sound value → after.Sound value
  | .error _ (_, after) => ∀ value, heap.Sound value → after.Sound value

/-- The next step executes an instruction with the operation. -/
def Machine.Executes (machine : Machine σ γ) (op : Opcode) : Prop :=
  ∃ frame outer operand, machine.frames = frame :: outer ∧
    Instruction.decode? frame.function.code frame.offset = some (.operation op operand)

/-- What the next step is given from outside is sound: the value of a foreign call on sound
arguments, a value that is read from memory, and the arguments of the events that are dispatched in
a loop. -/
structure Machine.GivenSound (setup : Setup σ γ) (machine : Machine σ γ) : Prop where
  foreign : ∀ foreign call calling, setup.capabilities.foreign = some foreign →
    machine.AsksForeign call calling →
    (∀ argument ∈ call.arguments, calling.heap.Sound argument.value) →
    calling.heap.Answered (foreign.invoke call (calling.environment, calling.heap))
  read : ∀ memory address offset width calling, setup.capabilities.memory = some memory →
    machine.AsksMemory address offset width calling → ∀ value environment,
    memory.read address offset width calling.environment = .ok value environment →
    calling.heap.Sound value
  dispatched : ∀ site course after event arguments state,
    Exec.step setup machine = .ok (.enterLoop site course) after →
    Dispatches setup course after event arguments state →
    ∀ value ∈ arguments, state.heap.Sound value

namespace keepingKinds

variable {setup : Setup σ γ} {machine : Machine σ γ} {frame : Frame} {outer : List Frame}

theorem supplied (h : machine.GivenSound setup) (hframes : machine.frames = frame :: outer)
    {op : Opcode} {operand : Nat} (hdecode : Instruction.decode? frame.function.code frame.offset =
      some (.operation op operand)) :
    (keepingKinds setup.program).Supplied setup op operand
      (machine.moved frame outer (frame.offset + op.width)) where
  foreign foreign call calling hop hforeign hrequest hpasses harguments := by
    subst hop
    -- What the hypothesis says of a foreign call is for the very call that this instruction makes.
    have hanswered := h.foreign foreign call calling hforeign
      ⟨frame, outer, operand, hframes, hdecode, hrequest⟩ fun argument hmem =>
        harguments _ (List.mem_map_of_mem hmem)
    unfold Exec.outsideWithHeap
    cases hresult : foreign.invoke call (calling.environment, calling.heap) with
    | ok value after =>
        rw [hresult] at hanswered
        have hchanged := hpasses.holds.changed hanswered.2
        refine ⟨⟨{ hchanged with }, hanswered.2⟩, .cons hanswered.1 (.nil _ _)⟩
    | error fault after =>
        rw [hresult] at hanswered
        have hchanged := hpasses.holds.changed hanswered
        exact ⟨⟨{ hchanged with }, hanswered⟩, trivial⟩
  read memory address offset width calling hop hmemory hrequest hpasses := by
    subst hop
    have hread := h.read memory address offset width calling hmemory
      ⟨frame, outer, operand, hframes, hdecode, hrequest⟩
    have hkeeps (environment : σ) : (keepingKinds setup.program).Passes calling
        { calling with environment } := passes { hpasses.holds with } rfl
    unfold Exec.outside
    cases hresult : memory.read address offset width calling.environment with
    | ok value after => exact ⟨hkeeps after, .cons (hread value after hresult) (.nil _ _)⟩
    | error fault after => exact ⟨hkeeps after, trivial⟩

/-! ### One step -/

theorem leave (h : machine.Sound setup.program) :
    (keepingKinds setup.program).Passes machine { machine with frames := machine.frames.tail } :=
  passes_frames h fun _ hmem => .inl (List.mem_of_mem_tail hmem)

theorem begin {name : String} {function : CompiledFunction Value}
    (hfunction : setup.program.get? name = some function) {arguments : List Value}
    (h : machine.Sound setup.program)
    (harguments : (keepingKinds setup.program).TrustsAll machine arguments) :
    (keepingKinds setup.program).Passes machine
      { machine with frames := .enter function arguments :: machine.frames } := by
  refine passes_frames h fun frame hmem => ?_
  rcases List.mem_cons.1 hmem with rfl | hold
  · refine .inr ⟨fun value hlocal => ?_,
      h.program function (FunctionTable.mem_of_get? hfunction).1⟩
    rcases List.mem_append.1 (List.mem_toArray.1 hlocal) with hargument | hnull
    · exact harguments value hargument
    · rw [List.eq_of_mem_replicate hnull]
      exact .scalar _ .null
  · exact .inl hold

theorem ret (h : machine.Sound setup.program) :
    (keepingKinds setup.program).Passes machine
      (machine.returned (machine.stack.headD .null) machine.stack.tail) := by
  have hleft := (leave h).holds
  have hrest (value : Value) (hmem : value ∈ machine.stack.tail) : machine.heap.Sound value :=
    h.stack value (List.mem_of_mem_tail hmem)
  have hvalue : machine.heap.Sound (machine.stack.headD .null) := by
    cases hstack : machine.stack with
    | nil => exact .scalar _ .null
    | cons value rest => exact h.stack value (hstack ▸ List.mem_cons_self)
  unfold Machine.returned
  split
  · exact passes { hleft with stack := List.forall_mem_cons.2 ⟨hvalue, hrest⟩ } rfl
  · exact passes { hleft with stack := hrest, result := hvalue } rfl

theorem named (site : Site) (callee : String) (arguments : List Value)
    (h : machine.Sound setup.program)
    (harguments : (keepingKinds setup.program).TrustsAll machine arguments) :
    (keepingKinds setup.program).Upheld machine (fun _ => [])
      (Exec.callNamed setup site callee arguments machine) := by
  rcases Exec.callNamed_cases setup site callee arguments machine with
    ⟨fault, hnamed⟩ | ⟨name, native, -, -, hnamed⟩ | ⟨function, -, hfunction, -, hnamed⟩
  · rw [hnamed]
    exact ⟨.refl h, trivial⟩
  · rw [hnamed]
    by_cases hloop : native = .runLoop
    · subst hloop
      rcases Exec.runLoop_cases setup site arguments machine with
        ⟨fault, hnative⟩ | ⟨backend, layer, device, -, hnative⟩
      · rw [hnative]
        exact ⟨.refl h, trivial⟩
      · rw [hnative]
        exact ⟨passes { h with } rfl, .nil _ _⟩
    · exact (framed setup.program).callNative (setup.capabilities.excused_of_all fun _ => trivial)
        site hloop arguments machine h (.nil _ machine)
  · rw [hnamed]
    exact ⟨begin hfunction h harguments, .nil _ _⟩

theorem call (site : Site) (count : Nat) (h : machine.Sound setup.program) :
    (keepingKinds setup.program).Upheld machine (fun _ => [])
      (Exec.call setup site count machine) := by
  rcases (framed setup.program).call_takes setup site count h with
    ⟨fault, after, hcall, hpasses⟩ | ⟨callee, arguments, middle, hpasses, harguments, hcall⟩
  · rw [hcall]
    exact hpasses
  · rw [hcall]
    exact (named site callee arguments hpasses.holds harguments).of_passes hpasses

theorem execute (site : Site) {op : Opcode} {operand : Nat}
    (hframes : machine.frames = frame :: outer) (h : machine.Sound setup.program)
    (hsupplied : (keepingKinds setup.program).Supplied setup op operand machine) :
    (keepingKinds setup.program).Upheld machine (fun _ => [])
      (Exec.execute setup site frame.function operand op machine) := by
  by_cases hop : op = .call ∨ op = .onEvent ∨ op = .ret ∨ op = .halt
  · rcases hop with rfl | rfl | rfl | rfl
    · exact (call site operand h).within site
    · have hevent := (framed setup.program).onEvent setup
        (fun _ _ h => passes { h with } rfl) trivial machine h (.nil _ machine)
      exact hevent.proceeding site
    · rw [Exec.execute_ret]
      exact ⟨ret h, .nil _ _⟩
    · rw [Exec.execute_halt]
      exact ⟨leave h, .nil _ _⟩
  · exact (framed setup.program).execute (setup.capabilities.excused_of_all fun _ => trivial) site
      hop hframes h (fun value hmem => h.constants frame (hframes ▸ List.mem_cons_self) value
        (Array.mem_toList_iff.1 hmem)) hsupplied

/-- A step that is given what is sound leaves the machine sound. -/
theorem step (hsupplied : machine.GivenSound setup) (h : machine.Sound setup.program) :
    (keepingKinds setup.program).Upheld machine (fun _ => []) (Exec.step setup machine) := by
  cases hframes : machine.frames with
  | nil =>
      rw [Exec.step_idle setup hframes]
      exact ⟨.refl h, .nil _ machine⟩
  | cons frame outer =>
      rcases Exec.step_cases setup hframes with ⟨-, hend⟩ | ⟨fault, hfault⟩ | ⟨op, operand, hdecode⟩
      · rw [hend]
        have hleft := leave h
        rw [hframes, List.tail_cons] at hleft
        exact ⟨hleft, .nil _ _⟩
      · rw [hfault]
        exact ⟨.refl h, trivial⟩
      · have hmoved := (framed setup.program).frame machine frame outer
          { frame with offset := frame.offset + op.width } h hframes (.behind hdecode)
          ((framed setup.program).locals machine frame outer h hframes)
        have hinner : (machine.moved frame outer (frame.offset + op.width)).frames =
            { frame with offset := frame.offset + op.width } :: outer := rfl
        rw [Exec.step_eq hframes hdecode]
        exact (execute _ hinner hmoved.holds (supplied hsupplied hframes hdecode)).of_passes hmoved

/-! ### Runs -/

theorem stepwise (setup : Setup σ γ) :
    (keepingKinds setup.program).Stepwise setup (Machine.GivenSound setup) where
  scalar machine := .scalar machine.heap
  returned _ h := h.result
  result _ _ h hvalue := passes { h with result := hvalue } rfl
  pending machine h := by
    unfold takePending
    split
    · exact passes { h with } rfl
    · exact .refl h
  deep := trivial
  missing _ _ _ _ _ _ := trivial
  step _ h hsupplied := step hsupplied h
  course _ := EventLoop.excused_of_all (fun _ => trivial) _
  dispatched hsupplied hstep h _ := hsupplied.dispatched _ _ _ _ _ _ hstep h
  begin hfunction henter h harguments := Exec.enter_ok henter ▸ begin hfunction h harguments
  base _ _ h := passes { h with } rfl
  frames _ _ h := passes_frames h fun _ hmem => .inl (List.mem_of_mem_drop hmem)
  stack _ _ h :=
    passes { h with stack := fun _ hmem => h.stack _ (List.mem_of_mem_drop hmem) } rfl
  graphics _ _ h := passes { h with } rfl

end keepingKinds

/-! ### Programs -/

/-- The constants that are built for homogeneous ones are sound, and all that was sound stays
so. -/
theorem linkFunctions_sound {functions : List (CompiledFunction Constant)} (heap : Heap)
    (h : ∀ function ∈ functions, ∀ constant ∈ function.constants, constant.Homogeneous) :
    (∀ function ∈ (linkFunctions functions heap).1, ∀ value ∈ function.constants,
      (linkFunctions functions heap).2.Sound value) ∧
      ∀ value, heap.Sound value → (linkFunctions functions heap).2.Sound value := by
  induction functions generalizing heap with
  | nil => exact ⟨fun _ hmem => absurd hmem List.not_mem_nil, fun _ hvalue => hvalue⟩
  | cons function rest ih =>
      obtain ⟨hfunction, hrest⟩ := List.forall_mem_cons.1 h
      obtain ⟨hfirst, hthrough⟩ := heap.internItems_sound fun constant hmem =>
        hfunction constant (Array.mem_toList_iff.1 hmem)
      obtain ⟨hothers, hkept⟩ := ih (function.link heap).2 hrest
      refine ⟨List.forall_mem_cons.2 ⟨fun value hvalue => ?_, hothers⟩, fun value hvalue =>
        hkept value (hthrough value hvalue)⟩
      exact hkept value (hfirst value (List.mem_toArray.1 hvalue))

/-- A machine that has run nothing yet is sound if the constants of its program are. -/
theorem Machine.Sound.fresh {program : Program} {heap : Heap}
    (h : ∀ function ∈ program.functions, ∀ value ∈ function.constants, heap.Sound value)
    (graphics : GraphicsSlot γ) (environment : σ) :
    Machine.Sound program { heap, graphics, environment } where
  stack _ hmem := absurd hmem List.not_mem_nil
  locals _ hmem := absurd hmem List.not_mem_nil
  constants _ hmem := absurd hmem List.not_mem_nil
  program := h
  result := .scalar heap .null

/-! ### Requests -/

/-- What comes from outside with the request and while it is served is sound. -/
structure Request.Fair (setup : Setup σ γ) (machine : Machine σ γ) (request : Request) : Prop where
  arguments : ∀ value ∈ request.arguments, machine.heap.Sound value
  supplied : ∀ found, request.Visits setup machine found → found.GivenSound setup

/-- The states in which a machine is found between fair requests. Meanwhile the host may do what it
likes to its surroundings and to the heap, but what was sound stays so. -/
inductive Attains (setup : Setup σ γ) (start : Machine σ γ) : Machine σ γ → Prop where
  | start : Attains setup start start
  | served {machine after : Machine σ γ} {request : Request} {fuel : Nat} {fault : Option Fault}
      (h : Attains setup start machine) (hfair : request.Fair setup machine)
      (hserve : request.serve setup fuel machine = some (fault, after)) : Attains setup start after
  | hosted {machine : Machine σ γ} {heap : Heap} {graphics : GraphicsSlot γ} {environment : σ}
      (h : Attains setup start machine)
      (hheap : ∀ value, machine.heap.Sound value → heap.Sound value) :
      Attains setup start { machine with heap, graphics, environment }

namespace Request.Fair

variable {setup : Setup σ γ} {machine : Machine σ γ} {request : Request}

theorem visits (hfair : request.Fair setup machine) (h : machine.Sound setup.program)
    {found : Machine σ γ} (hvisits : request.Visits setup machine found) :
    found.Sound setup.program :=
  Custody.holds_of_request (keepingKinds.stepwise setup) h hfair.arguments hfair.supplied hvisits

/-- A request that is fair leaves a machine sound. -/
theorem serve (hfair : request.Fair setup machine) (h : machine.Sound setup.program) {fuel : Nat}
    {fault : Option Fault} {after : Machine σ γ}
    (hserve : request.serve setup fuel machine = some (fault, after)) :
    after.Sound setup.program :=
  Custody.serve_leaves (keepingKinds.stepwise setup) h hfair.arguments hfair.supplied hserve

end Request.Fair

theorem Attains.sound {setup : Setup σ γ} {start machine : Machine σ γ}
    (h : Attains setup start machine) (hstart : start.Sound setup.program) :
    machine.Sound setup.program := by
  induction h with
  | start => exact hstart
  | served _ hfair hserve ih => exact hfair.serve ih hserve
  | hosted _ hheap ih =>
      have hchanged := ih.changed hheap
      exact { hchanged with }

/-! ### Instructions that fault -/

namespace Exec

/-- The arrays are left as they are. -/
def KeepsArrays (action : Exec σ γ α) : Prop :=
  ∀ machine, match action machine with
    | .ok _ after | .error _ after => after.heap = machine.heap

/-- If there is a fault then the arrays are left as they are. -/
def SparesArrays (action : Exec σ γ α) : Prop :=
  ∀ machine fault after, action machine = .error fault after → after.heap = machine.heap

namespace KeepsArrays

variable {first : Exec σ γ α} {next : α → Exec σ γ β}

theorem pure (value : α) : KeepsArrays (Pure.pure value : Exec σ γ α) := fun _ => rfl

theorem fault (cause : FaultCause) : KeepsArrays (Exec.fault cause : Exec σ γ α) := fun _ => rfl

theorem bind (hfirst : KeepsArrays first) (hnext : ∀ value, KeepsArrays (next value)) :
    KeepsArrays (first >>= next) := by
  intro machine
  have hbefore := hfirst machine
  rw [bind_eq]
  cases hresult : first machine with
  | error fault after =>
      rw [hresult] at hbefore
      exact hbefore
  | ok value middle =>
      rw [hresult] at hbefore
      have hafter := hnext value middle
      simp only at hbefore ⊢
      rw [← hbefore]
      exact hafter

theorem pop (shortage : Shortage) : KeepsArrays (Exec.pop shortage : Exec σ γ Value) := by
  have hpop? : KeepsArrays (Exec.pop? : Exec σ γ (Option Value)) := by
    intro machine
    unfold Exec.pop?
    cases machine.stack <;> rfl
  refine hpop?.bind fun found => ?_
  cases found with
  | none => exact fault _
  | some value => exact pure value

theorem popMany (count : Nat) (shortage : Shortage) :
    KeepsArrays (Exec.popMany count shortage : Exec σ γ (List Value)) := by
  intro machine
  unfold Exec.popMany
  by_cases hcount : (machine.stack.take count).length = count
  · simp only [if_pos hcount]
  · simp only [if_neg hcount]

theorem popIndex (op : Opcode) : KeepsArrays (Exec.popIndex op : Exec σ γ Int64) := by
  refine (pop _).bind fun value => ?_
  split
  · exact pure _
  · exact fault _

theorem popArray (op : Opcode) : KeepsArrays (Exec.popArray op : Exec σ γ Nat) := by
  refine (pop _).bind fun value => ?_
  split
  · exact pure _
  · exact fault _

theorem object (handle : Nat) : KeepsArrays (Exec.object handle : Exec σ γ ArrayObject) :=
  fun _ => rfl

end KeepsArrays

namespace SparesArrays

variable {first : Exec σ γ α} {next : α → Exec σ γ β}

theorem of_keeps (h : KeepsArrays first) : SparesArrays first := by
  intro machine fault after hfault
  have hkept := h machine
  rw [hfault] at hkept
  exact hkept

theorem fault (cause : FaultCause) : SparesArrays (Exec.fault cause : Exec σ γ α) :=
  of_keeps (.fault cause)

theorem of_ok (h : ∀ machine, ∃ value after, first machine = .ok value after) :
    SparesArrays first := by
  intro machine fault after hfault
  obtain ⟨value, last, hok⟩ := h machine
  rw [hok] at hfault
  cases hfault

theorem bind (hfirst : KeepsArrays first) (hnext : ∀ value, SparesArrays (next value)) :
    SparesArrays (first >>= next) := by
  intro machine fault after hfault
  have hbefore := hfirst machine
  rw [bind_eq] at hfault
  cases hresult : first machine with
  | error cause middle =>
      rw [hresult] at hfault hbefore
      cases hfault
      exact hbefore
  | ok value middle =>
      rw [hresult] at hfault hbefore
      exact (hnext value middle fault after hfault).trans hbefore

theorem proceeding {action : Exec σ γ Unit} (h : SparesArrays action) (site : Site) :
    SparesArrays (within site action >>= fun _ => Pure.pure .proceed : Exec σ γ (Signal γ)) := by
  intro machine fault after hfault
  rw [bind_eq, within] at hfault
  cases hresult : action machine with
  | error cause middle =>
      rw [hresult] at hfault
      cases hfault
      exact h machine cause _ hresult
  | ok value middle =>
      rw [hresult] at hfault
      cases hfault

/-! An instruction reads the heap, decides whether it faults, and only then changes the heap. -/

theorem makeArray (count : Nat) : SparesArrays (Exec.makeArray count : Exec σ γ Unit) := by
  refine bind (.popMany count _) fun items => ?_
  split
  · exact fault _
  · exact of_ok fun machine => ⟨_, _, rfl⟩

theorem arraySet : SparesArrays (Exec.arraySet : Exec σ γ Unit) := by
  refine bind (.pop _) fun value => bind (.popIndex _) fun index => bind (.popArray _) fun handle =>
    bind (.object handle) fun object => ?_
  simp only
  split
  · exact fault _
  · split
    · exact fault _
    · exact of_ok fun machine => ⟨_, _, rfl⟩

theorem arrayPush : SparesArrays (Exec.arrayPush : Exec σ γ Unit) := by
  refine bind (.pop _) fun value => bind (.popArray _) fun handle =>
    bind (.object handle) fun object => ?_
  simp only
  split
  · exact fault _
  · exact of_ok fun machine => ⟨_, _, rfl⟩

end SparesArrays

/-- Instructions that change arrays change none if they fault. -/
theorem step_spares_arrays {setup : Setup σ γ} {machine after : Machine σ γ} {op : Opcode}
    (hexecutes : machine.Executes op) (hop : op = .makeArray ∨ op = .arraySet ∨ op = .arrayPush)
    {fault : Fault} (hstep : step setup machine = .error fault after) :
    after.heap = machine.heap := by
  obtain ⟨frame, outer, operand, hframes, hdecode⟩ := hexecutes
  rw [step_eq hframes hdecode] at hstep
  have hheap : (machine.moved frame outer (frame.offset + op.width)).heap = machine.heap := rfl
  rw [← hheap]
  rcases hop with rfl | rfl | rfl
  · exact (SparesArrays.makeArray operand).proceeding _ _ fault after hstep
  · exact SparesArrays.arraySet.proceeding _ _ fault after hstep
  · exact SparesArrays.arrayPush.proceeding _ _ fault after hstep

end Exec

/-! ### Arrays stay of one kind -/

/-- Whatever the bytes of its functions are, a program whose constants are homogeneous keeps all its
arrays homogeneous as long as only sound values come from outside: in every state in which a step is
taken while requests are served, where such a step faults, and in between, every array that can be
reached from the stack, the locals, the constants and the result has an element kind exactly when it
has items, and these fit it. An instruction that would change or make an array and faults changes
none. -/
theorem arrays_stay_homogeneous {table : FunctionTable Constant} {heap : Heap} {setup : Setup σ γ}
    (hprogram : setup.program = (table.link heap).1)
    (hconstants : ∀ function ∈ table.functions, ∀ constant ∈ function.constants,
      constant.Homogeneous) (graphics : GraphicsSlot γ) (environment : σ) :
    (∀ machine, Attains setup { heap := (table.link heap).2, graphics, environment } machine →
      machine.Sound setup.program ∧ ∀ request : Request, request.Fair setup machine →
        ∀ found, request.Visits setup machine found → found.Sound setup.program ∧
          ∀ fault after, Exec.step setup found = .error fault after →
            after.Sound setup.program) ∧
      ∀ (machine after : Machine σ γ) op fault, machine.Executes op →
        (op = .makeArray ∨ op = .arraySet ∨ op = .arrayPush) →
        Exec.step setup machine = .error fault after → after.heap = machine.heap := by
  refine ⟨fun machine hattains => ?_, fun machine after op fault hexecutes hop hstep =>
    Exec.step_spares_arrays hexecutes hop hstep⟩
  have hstart : Machine.Sound setup.program
      ({ heap := (table.link heap).2, graphics, environment } : Machine σ γ) :=
    .fresh (by rw [hprogram]; exact (linkFunctions_sound heap hconstants).1) graphics environment
  have hmachine := hattains.sound hstart
  refine ⟨hmachine, fun request hfair found hvisits => ?_⟩
  have hfound := hfair.visits hmachine hvisits
  refine ⟨hfound, fun fault after hstep => ?_⟩
  have hupheld := keepingKinds.step (hfair.supplied found hvisits) hfound
  rw [hstep] at hupheld
  exact hupheld.1.holds

/-- Surroundings with a foreign function that makes an array, and with graphics whose loop ends at
once. -/
def arrayMaker : Capabilities Unit Unit where
  print _ := pure ()
  foreign := some ⟨fun _ (world, heap) =>
    let (handle, heap) := heap.allocate (.ofItems #[.int 1])
    .ok (.array handle) (world, heap)⟩
  memory := none
  graphics :=
    { openWindow _ _ _ := pure ()
      draw _ := pure ()
      loop backend := .finish (.ok ()) backend
      layer _ := 0
      device _ := 0 }

theorem arrayMaker_supplies {setup : Setup Unit Unit} (hsetup : setup.capabilities = arrayMaker)
    (machine : Machine Unit Unit) : machine.GivenSound setup where
  foreign foreign call calling hforeign _ _ := by
    rw [hsetup] at hforeign
    cases hforeign
    have hnone : firstMisfit? [.int 1] = none := rfl
    have hobject : (ArrayObject.ofItems #[.int 1]).Homogeneous := .ofItems hnone
    have hitems : ∀ item ∈ (ArrayObject.ofItems #[.int 1]).items, calling.heap.Sound item := by
      intro item hitem
      rw [List.mem_singleton.1 (List.mem_toArray.1 hitem)]
      exact .scalar _ _
    exact ⟨.allocated hobject hitems, fun value => .allocate hobject hitems⟩
  read memory _ _ _ _ hmemory := by
    rw [hsetup] at hmemory
    cases hmemory
  dispatched site course after event arguments state hstep hdispatches := by
    obtain ⟨backend, hcourse⟩ := Exec.loop_of_step hstep
    rw [hsetup] at hcourse
    change course = .finish (.ok ()) backend at hcourse
    rw [hcourse] at hdispatches
    cases hdispatches

/-- A function that puts an array among its constants and one from outside into a third. -/
def gathering : CompiledFunction Constant where
  name := "M.main"
  code := #[0x01, 0, 0, 0x01, 1, 0, 0x01, 1, 0, 0x01, 1, 0, 0x1c, 0, 0x15, 2, 0xff]
  constants := #[.array (some .int) [.scalar (.int 2)], .scalar (.string "make")]
  localCount := 0
  paramCount := 0

def gatheringTable : FunctionTable Constant := .ofList [gathering]

theorem gatheringTable_homogeneous : ∀ function ∈ gatheringTable.functions,
    ∀ constant ∈ function.constants, constant.Homogeneous := by
  intro function hfunction constant hconstant
  obtain rfl : function = gathering := List.mem_singleton.1 hfunction
  rcases List.mem_cons.1 (List.mem_toArray.1 hconstant) with rfl | hrest
  · refine .array (by simp) (fun item hitem kind hkind => ?_) fun item hitem => ?_
    · obtain rfl : ValueKind.int = kind := Option.some.inj hkind
      rw [List.mem_singleton.1 hitem]
      rfl
    · exact List.mem_singleton.1 hitem ▸ .scalar
  · exact List.mem_singleton.1 hrest ▸ .scalar

set_option maxRecDepth 100000 in
theorem gathering_homogeneous :
    ∃ (setup : Setup Unit Unit) (machine found : Machine Unit Unit),
      (Request.run "M.main" []).Visits setup machine found ∧ found.stack = [.array 2] ∧
        (found.heap.object 2).items = #[.array 0, .array 1] ∧ found.Sound setup.program := by
  let setup : Setup Unit Unit :=
    { program := (gatheringTable.link {}).1
      capabilities := arrayMaker }
  let machine : Machine Unit Unit :=
    { heap := (gatheringTable.link {}).2
      graphics := .absent
      environment := () }
  have hcheck : ((machine.visited setup "M.main" 6).any fun found =>
      found.stack = [.array 2] ∧ (found.heap.object 2).items = #[.array 0, .array 1]) = true := by
    decide +kernel
  obtain ⟨found, hvisited, hfound⟩ := (Option.any_eq_true _ _).1 hcheck
  obtain ⟨hstack, hitems⟩ := of_decide_eq_true hfound
  have hvisits := Request.Visits.of_visited hvisited
  have hfair : (Request.run "M.main" []).Fair setup machine :=
    ⟨fun _ hmem => absurd hmem List.not_mem_nil, fun state _ => arrayMaker_supplies rfl state⟩
  have hprogram : setup.program = (gatheringTable.link {}).1 := rfl
  have hruns := (arrays_stay_homogeneous hprogram gatheringTable_homogeneous machine.graphics
    machine.environment).1 machine .start
  exact ⟨setup, machine, found, hvisits, hstack, hitems, (hruns.2 _ hfair found hvisits).1⟩

end DocScript
