import DocScript.Proofs.Machine.Instructions
import DocScript.Proofs.Source.CapabilityCall

/-! # Instructions that ask capabilities

An instruction for memory or for a foreign function takes its operands from the stack, the last one
first, checks them and asks the capability once. What it finds on the stack decides what it asks
for.
-/

namespace DocScript

namespace Exec

/-- The instruction ends as the capability answers: with what is handed on on the stack, or with
the fault. All that the capability reaches is as it has left it. -/
def Answers (machine : Machine σ γ) (rest : List Value)
    (answer : EStateM.Result Fault (σ × Heap) (Option Value))
    (outcome : EStateM.Result Fault (Machine σ γ) Unit) : Prop :=
  match answer with
  | .ok result (environment, heap) =>
      outcome = .ok () { machine with stack := result.toList ++ rest, heap, environment }
  | .error fault (environment, heap) => ∃ stack,
      outcome = .error fault { machine with stack, heap, environment }

/-- The instruction finds that its operands cannot be used, or makes the call if there is somebody
to ask. -/
def Asks (setup : Setup σ γ) (machine : Machine σ γ) (rest : List Value)
    (request : EStateM.Result FaultKind Heap CapabilityCall)
    (outcome : EStateM.Result Fault (Machine σ γ) Unit) : Prop :=
  match request with
  | .error kind heap => ∃ fault stack, outcome = .error fault { machine with stack, heap } ∧
      fault.kind = kind
  | .ok call heap => ∀ service, call.service? setup.capabilities = some service →
      Answers machine rest (service (machine.environment, heap)) outcome

variable {setup : Setup σ γ} {machine : Machine σ γ} {rest : List Value} {value : Value}

theorem popNumber_eq (hstack : machine.stack = value :: rest) (op : Opcode)
    (what : MemoryNumber) :
    match value.natural with
    | .ok number => popNumber op what machine = .ok number { machine with stack := rest }
    | .error kind => ∃ fault, popNumber op what machine =
        .error fault { machine with stack := rest } ∧ fault.kind = kind := by
  unfold popNumber Value.natural
  simp only [bind_eq, pop_cons hstack]
  cases value.int? with
  | none => exact ⟨_, rfl, rfl⟩
  | some number =>
      simp only
      by_cases hnegative : number < 0
      · rw [if_pos hnegative, if_pos hnegative]
        exact ⟨_, rfl, rfl⟩
      · rw [if_neg hnegative, if_neg hnegative]
        rfl

theorem popAddress_eq (hstack : machine.stack = value :: rest) (op : Opcode) :
    match value.address with
    | .ok address => popAddress op machine = .ok address { machine with stack := rest }
    | .error kind => ∃ fault, popAddress op machine =
        .error fault { machine with stack := rest } ∧ fault.kind = kind := by
  unfold popAddress Value.address
  simp only [bind_eq, pop_cons hstack]
  cases value with
  | array handle => exact ⟨_, rfl, rfl⟩
  | scalar value =>
      cases value with
      | pointer _ _ | null => rfl
      | int _ | float _ | string _ | bool _ => exact ⟨_, rfl, rfl⟩

theorem popWidth_cons {width : MemoryWidth} (hstack : machine.stack = .string width.name :: rest)
    (op : Opcode) : popWidth op machine = .ok width { machine with stack := rest } := by
  unfold popWidth
  rw [bind_eq, popText_cons hstack]
  cases width <;> rfl

theorem memory_eq {memory : MemoryInterface σ} (h : setup.capabilities.memory = some memory)
    (op : Opcode) (machine : Machine σ γ) :
    Exec.memory setup op machine = .ok memory machine := by
  unfold Exec.memory
  rw [h]
  rfl

/-- Memory is asked, and what is handed on is pushed. -/
theorem answers_outside (service : Service σ α) {result : α → Option Value}
    {finish : α → Exec σ γ Unit}
    (hfinish : ∀ value (machine : Machine σ γ), finish value machine =
      .ok () { machine with stack := (result value).toList ++ machine.stack }) :
    Answers machine rest
      ((do
        let value ← CapabilityCall.besideHeap service
        return result value : Service (σ × Heap) (Option Value))
          (machine.environment, machine.heap))
      ((outside service >>= finish) { machine with stack := rest }) := by
  change Answers machine rest (EStateM.bind _ _ _) _
  unfold EStateM.bind CapabilityCall.besideHeap
  rw [bind_eq, outside]
  simp only
  cases service machine.environment with
  | ok value environment => exact hfinish value _
  | error fault environment => exact ⟨rest, rfl⟩

/-! ### Memory -/

theorem asks_memAlloc (hstack : machine.stack = value :: rest) :
    Asks setup machine rest ((do
        let size ← .ofExcept value.natural
        return .allocate size : Evaluation CapabilityCall) machine.heap)
      (memAlloc setup machine) := by
  have hnumber := popNumber_eq hstack .memAlloc .size
  unfold memAlloc
  rw [bind_eq]
  cases hsize : value.natural with
  | error kind =>
      rw [hsize] at hnumber
      obtain ⟨fault, hpop, hkind⟩ := hnumber
      rw [hpop]
      exact ⟨fault, rest, rfl, hkind⟩
  | ok size =>
      rw [hsize] at hnumber
      intro service hservice
      obtain ⟨memory, hmemory, rfl⟩ := Option.map_eq_some_iff.1 hservice
      rw [hnumber]
      simp only
      rw [bind_eq, memory_eq hmemory]
      exact answers_outside (memory.allocate size) fun _ _ => rfl

/-- The place of an access is checked from the top of the stack downwards. -/
theorem popPlace_eq {pointer offset : Value} (hstack : machine.stack = offset :: pointer :: rest)
    (op : Opcode) (next : UInt64 → Nat → Exec σ γ Unit) :
    match pointer.place offset with
    | .ok (address, number) => (do
        let offset ← popNumber op .offset
        let address ← popAddress op
        next address offset : Exec σ γ Unit) machine =
          next address number { machine with stack := rest }
    | .error kind => ∃ fault stack, (do
        let offset ← popNumber op .offset
        let address ← popAddress op
        next address offset : Exec σ γ Unit) machine = .error fault { machine with stack } ∧
          fault.kind = kind := by
  have hnumber := popNumber_eq hstack op .offset
  have hbelow : { machine with stack := pointer :: rest }.stack = pointer :: rest := rfl
  have haddress := popAddress_eq hbelow op
  rw [bind_eq]
  -- The offset is on top, so it is looked at first, and a wrong one hides a wrong pointer.
  cases hoffset : offset.natural with
  | error kind =>
      have hplace : pointer.place offset = .error kind := by
        rw [Value.place, hoffset]
        rfl
      rw [hoffset] at hnumber
      obtain ⟨fault, hpop, hkind⟩ := hnumber
      rw [hplace, hpop]
      exact ⟨fault, _, rfl, hkind⟩
  | ok number =>
      rw [hoffset] at hnumber
      rw [hnumber]
      simp only [bind_eq]
      cases hpointer : pointer.address with
      | error kind =>
          have hplace : pointer.place offset = .error kind := by
            rw [Value.place, hoffset, hpointer]
            rfl
          rw [hpointer] at haddress
          obtain ⟨fault, hpop, hkind⟩ := haddress
          rw [hplace, hpop]
          exact ⟨fault, rest, rfl, hkind⟩
      | ok address =>
          have hplace : pointer.place offset = .ok (address, number) := by
            rw [Value.place, hoffset, hpointer]
            rfl
          rw [hpointer] at haddress
          rw [hplace, haddress]

theorem asks_memRead {pointer offset : Value} {width : MemoryWidth}
    (hstack : machine.stack = .string width.name :: offset :: pointer :: rest) :
    Asks setup machine rest ((do
        let (address, offset) ← .ofExcept (pointer.place offset)
        return .read address offset width : Evaluation CapabilityCall) machine.heap)
      (memRead setup machine) := by
  have hbelow : { machine with stack := offset :: pointer :: rest }.stack =
      offset :: pointer :: rest := rfl
  have hplace := popPlace_eq hbelow .memRead fun address offset => do
    let memory ← memory setup .memRead
    push (← outside (memory.read address offset width))
  unfold memRead
  rw [bind_eq, popWidth_cons hstack]
  cases hpointer : pointer.place offset with
  | error kind =>
      rw [hpointer] at hplace
      exact hplace
  | ok place =>
      rw [hpointer] at hplace
      intro service hservice
      obtain ⟨memory, hmemory, rfl⟩ := Option.map_eq_some_iff.1 hservice
      simp only
      rw [hplace, bind_eq, memory_eq hmemory]
      exact answers_outside (memory.read place.1 place.2 width) fun _ _ => rfl

theorem asks_memWrite {pointer offset : Value} {width : MemoryWidth}
    (hstack : machine.stack = .string width.name :: value :: offset :: pointer :: rest) :
    Asks setup machine rest ((do
        let (address, offset) ← .ofExcept (pointer.place offset)
        return .write address offset width value : Evaluation CapabilityCall) machine.heap)
      (memWrite setup machine) := by
  have hvalued : { machine with stack := value :: offset :: pointer :: rest }.stack =
      value :: offset :: pointer :: rest := rfl
  have hbelow : { machine with stack := offset :: pointer :: rest }.stack =
      offset :: pointer :: rest := rfl
  have hplace := popPlace_eq hbelow .memWrite fun address offset => do
    let memory ← memory setup .memWrite
    outside (memory.write address offset width value)
  unfold memWrite
  rw [bind_eq, popWidth_cons hstack]
  simp only
  rw [bind_eq, pop_cons hvalued]
  cases hpointer : pointer.place offset with
  | error kind =>
      rw [hpointer] at hplace
      exact hplace
  | ok place =>
      rw [hpointer] at hplace
      intro service hservice
      obtain ⟨memory, hmemory, rfl⟩ := Option.map_eq_some_iff.1 hservice
      simp only
      rw [hplace, bind_eq, memory_eq hmemory]
      simp only
      rw [← bind_pure (outside (memory.write place.1 place.2 width value))]
      exact answers_outside (memory.write place.1 place.2 width value) fun _ _ => rfl

theorem asks_memFree (hstack : machine.stack = value :: rest) :
    Asks setup machine rest ((do
        let address ← .ofExcept value.address
        return .free address : Evaluation CapabilityCall) machine.heap)
      (memFree setup machine) := by
  have haddress := popAddress_eq hstack .memFree
  unfold memFree
  rw [bind_eq]
  cases hpointer : value.address with
  | error kind =>
      rw [hpointer] at haddress
      obtain ⟨fault, hpop, hkind⟩ := haddress
      rw [hpop]
      exact ⟨fault, rest, rfl, hkind⟩
  | ok address =>
      rw [hpointer] at haddress
      intro service hservice
      obtain ⟨memory, hmemory, rfl⟩ := Option.map_eq_some_iff.1 hservice
      rw [haddress]
      simp only
      rw [bind_eq, memory_eq hmemory]
      simp only
      rw [← bind_pure (outside (memory.free address))]
      exact answers_outside (memory.free address) fun _ _ => rfl

/-! ### Foreign calls -/

/-- The arguments of a foreign call above what was on the stack, each value above its tag. -/
def stackedArguments (arguments : List ForeignArgument) (rest : List Value) : List Value :=
  arguments.foldl (fun stack argument => argument.value :: .string argument.tag :: stack) rest

/-- Taking as many arguments as were pushed gives them in the order in which they were pushed. -/
theorem popForeignArguments_stacked {arguments : List ForeignArgument}
    (hstack : machine.stack = stackedArguments arguments rest) (shortage : Shortage)
    (more : Nat) (taken : List ForeignArgument) :
    popForeignArguments shortage (arguments.length + more) taken machine =
      popForeignArguments shortage more (arguments ++ taken) { machine with stack := rest } := by
  -- The last argument is taken first, so all others still lie below when its turn comes.
  induction arguments generalizing rest more with
  | nil =>
      obtain ⟨frames, stack, heap, registrations, base, result, graphics, environment⟩ := machine
      cases hstack
      simp only [List.length_nil, Nat.zero_add, List.nil_append]
  | cons argument others ih =>
      have hlength : (argument :: others).length + more = others.length + (more + 1) := by
        simp only [List.length_cons]
        omega
      have hvalued :
          { machine with stack := argument.value :: .string argument.tag :: rest }.stack =
            argument.value :: .string argument.tag :: rest := rfl
      have htagged : { machine with stack := .string argument.tag :: rest }.stack =
          .string argument.tag :: rest := rfl
      rw [hlength, ih hstack, popForeignArguments, bind_eq, pop_cons hvalued]
      simp only
      rw [bind_eq, popText_cons htagged]
      rfl

theorem popForeignArguments_all {arguments : List ForeignArgument}
    (hstack : machine.stack = stackedArguments arguments rest) (shortage : Shortage) :
    popForeignArguments shortage arguments.length [] machine =
      .ok arguments { machine with stack := rest } := by
  have htaken := popForeignArguments_stacked hstack shortage 0 []
  rw [Nat.add_zero, List.append_nil] at htaken
  exact htaken

theorem asks_foreignCall {arguments : List ForeignArgument} {lib symbol returns : String}
    (hstack : machine.stack =
      .string symbol :: .string lib :: .string returns :: stackedArguments arguments rest) :
    Asks setup machine rest ((pure (.foreign { lib, symbol, arguments, returns }) :
        Evaluation CapabilityCall) machine.heap)
      (foreignCall setup arguments.length machine) := by
  have hbelow : { machine with stack := stackedArguments arguments rest }.stack =
      stackedArguments arguments rest := rfl
  intro service hservice
  obtain ⟨foreign, hforeign, rfl⟩ := Option.map_eq_some_iff.1 hservice
  rw [foreignCall_known setup _ hstack, foreignNamed, bind_eq, popForeignArguments_all hbelow]
  simp only [hforeign]
  rw [bind_eq, outsideWithHeap]
  change Answers machine rest (EStateM.bind _ _ _) _
  unfold EStateM.bind
  simp only
  cases foreign.invoke ⟨lib, symbol, arguments, returns⟩ (machine.environment, machine.heap) with
  | error fault after => exact ⟨rest, rfl⟩
  | ok value after =>
      simp only
      -- The value of a symbol that returns nothing is dropped.
      by_cases hvoid : returns = LoweringScope.voidResult
      · have htext : returns = "void" := hvoid
        rw [if_pos hvoid, if_neg (not_not_intro htext)]
        rfl
      · have htext : ¬ returns = "void" := hvoid
        rw [if_neg hvoid, if_pos htext]
        rfl

end Exec

end DocScript
