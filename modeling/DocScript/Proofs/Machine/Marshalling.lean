import DocScript.Proofs.Machine.CapabilityInstructions
import DocScript.Proofs.Machine.Computation

/-! # Capabilities are asked for what is written

The code of a statement that asks a capability pushes its operands in one order, and the
instruction takes them in another. Between the two the capability is asked once, for what the
statement says, and the result goes where the statement says.
-/

namespace DocScript

open Command FunctionBuilder Machine

/-! ### Runs -/

namespace Running

variable (run : Running σ γ)

/-- The run in other surroundings. -/
def amid (environment : σ) : Running σ γ :=
  { run with begun := { run.begun with environment } }

/-- The run carries out commands of which the last one asks a capability, unless one of them fails
before. -/
def Makes (commands : List Command) (first : Machine σ γ) (finish : Nat) (stack : List Value)
    (store : Store) : EStateM.Result FaultKind Heap CapabilityCall → Prop
  | .error kind heap => ∃ fault offset stack, first.Breaks run.setup commands fault
      (run.state offset stack ⟨store, heap, []⟩) ∧ fault.kind = kind
  | .ok call heap => ∀ service, call.service? run.setup.capabilities = some service →
      match service (run.begun.environment, heap) with
      | .ok result (environment, heap) => first.CarriesOut run.setup commands
          ((run.amid environment).state finish (result.toList ++ stack) ⟨store, heap, []⟩)
      | .error fault (environment, heap) => ∃ site offset stack, first.Breaks run.setup commands
          (fault.within site) ((run.amid environment).state offset stack ⟨store, heap, []⟩)

variable {run : Running σ γ} {store : Store} {heap : Heap} {start finish between : Nat}
  {stack pushed : List Value} {first middle : Machine σ γ} {commands others : List Command}
  {command : Command}

theorem Makes.after {request : EStateM.Result FaultKind Heap CapabilityCall}
    (h : first.CarriesOut run.setup commands middle)
    (hmakes : run.Makes others middle finish stack store request) :
    run.Makes (commands ++ others) first finish stack store request := by
  cases request with
  | error kind heap =>
      obtain ⟨fault, offset, stack, hbreaks, hkind⟩ := hmakes
      exact ⟨fault, offset, stack, h.breaks hbreaks, hkind⟩
  | ok call heap =>
      intro service hservice
      have hanswer := hmakes service hservice
      cases hresult : service (run.begun.environment, heap) with
      | ok result after =>
          rw [hresult] at hanswer
          exact h.trans hanswer
      | error fault after =>
          rw [hresult] at hanswer
          obtain ⟨site, offset, stack, hbreaks⟩ := hanswer
          exact ⟨site, offset, stack, h.breaks hbreaks⟩

/-- The operands are evaluated before. -/
theorem Makes.bind {action : Evaluation α} {next : α → Evaluation CapabilityCall}
    {passed : α → List Value}
    (h : run.Yields commands first between passed ⟨store, heap, []⟩ (action heap))
    (hnext : ∀ value after, action heap = .ok value after →
      run.Makes others (run.state between (passed value) ⟨store, after, []⟩) finish stack store
        (next value after)) :
    run.Makes (commands ++ others) first finish stack store ((action >>= next) heap) := by
  change run.Makes _ first finish stack store (EStateM.bind action next heap)
  unfold EStateM.bind
  cases haction : action heap with
  | ok value after =>
      rw [haction] at h
      exact Makes.after h (hnext value after haction)
  | error kind after =>
      rw [haction] at h
      obtain ⟨fault, offset, stack, hbreaks, hkind⟩ := h
      exact ⟨fault, offset, stack, hbreaks.append others, hkind⟩

/-- An instruction that asks makes the run ask. -/
theorem makes_of_asks {request : EStateM.Result FaultKind Heap CapabilityCall}
    {action : Exec σ γ Unit} (hcode : Loaded run.function.code start [command])
    (hfinish : finish = start + command.op.width)
    (haction : Exec.execute run.setup ⟨run.function.name, start⟩ run.function command.operand
      command.op = (Exec.within ⟨run.function.name, start⟩ action >>= fun _ => pure .proceed))
    (h : Exec.Asks run.setup (run.state finish pushed ⟨store, heap, []⟩) stack request
      (action (run.state finish pushed ⟨store, heap, []⟩))) :
    run.Makes [command] (run.state start pushed ⟨store, heap, []⟩) finish stack store request := by
  have hstep := step_state hcode pushed ⟨store, heap, []⟩
  have hfaces : (run.state start pushed ⟨store, heap, []⟩).Faces command
      ⟨run.function, start, store.values run.slots⟩ run.outer := ⟨rfl, hcode.decode⟩
  rw [← hfinish, haction] at hstep
  cases request with
  | error kind after =>
      obtain ⟨fault, remaining, hfault, hkind⟩ := h
      exact ⟨_, finish, remaining,
        .here hfaces (hstep.trans (Exec.proceeding_error hfault)), hkind⟩
  | ok call after =>
      intro service hservice
      have hanswer := h service hservice
      change Exec.Answers _ _ (service (run.begun.environment, after)) _ at hanswer
      cases hresult : service (run.begun.environment, after) with
      | ok result last =>
          rw [hresult] at hanswer
          have hbehind : ((run.amid last.1).state finish (result.toList ++ stack)
              ⟨store, last.2, []⟩).frames =
                ⟨run.function, start + command.op.width, store.values run.slots⟩ :: run.outer := by
            rw [← hfinish]
            rfl
          exact .next hfaces (hstep.trans (Exec.proceeding_ok hanswer)) hbehind (.done _)
      | error fault last =>
          rw [hresult] at hanswer
          obtain ⟨remaining, hfault⟩ := hanswer
          exact ⟨_, finish, remaining, .here hfaces (hstep.trans (Exec.proceeding_error hfault))⟩

end Running

/-- Whether the operation asks foreign functions or memory. -/
def Opcode.asks : Opcode → Bool
  | .ffiCall | .memAlloc | .memRead | .memWrite | .memFree => true
  | _ => false

/-! ### The code of operands -/

open Running

section Operands

variable {run : Running σ γ} {signatures : SignatureTable} {assigned : List String}
  {commands : List Command}

/-- Operands that have code have a tag and a value. -/
theorem ForeignCode.tagged {body : BodyScope} {pool : List Constant}
    {listed : List ForeignOperand} (h : ForeignCode body pool assigned listed commands) :
    ∃ operands, listed.mapM ForeignOperand.tagged? = some operands ∧
      operands.length = listed.length := by
  induction h with
  | nil => exact ⟨[], rfl, rfl⟩
  | @cons tag value rest _ _ _ _ _ _ ih =>
      obtain ⟨operands, hoperands, hlength⟩ := ih
      refine ⟨(tag, value) :: operands, ?_, congrArg (· + 1) hlength⟩
      rw [List.mapM_cons, hoperands]
      rfl

theorem length_of_evaluateTagged {store : Store} {operands : List (String × Expr)}
    {heap after : Heap} {arguments : List ForeignArgument}
    (h : evaluateTagged store operands heap = .ok arguments after) :
    arguments.length = operands.length := by
  induction operands generalizing heap arguments with
  | nil =>
      cases h
      rfl
  | cons operand rest ih =>
      obtain ⟨value, middle, -, hrest⟩ := Evaluation.bind_ok h
      obtain ⟨others, last, hothers, hlast⟩ := Evaluation.bind_ok hrest
      cases hlast
      rw [List.length_cons, List.length_cons, ih hothers]

theorem ForeignCode.computing {body : BodyScope} {pool : List Constant}
    {listed : List ForeignOperand} (h : ForeignCode body pool assigned listed commands)
    {operands : List (String × Expr)}
    (htagged : listed.mapM ForeignOperand.tagged? = some operands)
    (hfree : areCallFree (operands.map Prod.snd) = true) : Computing commands := by
  induction h generalizing operands with
  | nil => exact .nil
  | @cons tag value rest _ _ _ _ hvalue hrest ih =>
      obtain ⟨others, hothers, -⟩ := hrest.tagged
      rw [List.mapM_cons, hothers] at htagged
      cases htagged
      simp only [List.map_cons, areCallFree, Bool.and_eq_true] at hfree
      exact .cons rfl ((hvalue.computing hfree.1).append (ih hothers hfree.2))

/-- The code of the operands of a foreign call leaves their values on the stack, each above its
tag. -/
theorem ForeignCode.yields {listed : List ForeignOperand}
    (h : ForeignCode ⟨signatures, run.names⟩ run.pool assigned listed commands)
    {operands : List (String × Expr)}
    (htagged : listed.mapM ForeignOperand.tagged? = some operands)
    (hfree : areCallFree (operands.map Prod.snd) = true) {start finish : Nat}
    (hcode : Loaded run.function.code start commands) (hfinish : finish = start + size commands)
    (stack : List Value) (situation : Situation) :
    run.Yields commands (run.state start stack situation) finish
      (Exec.stackedArguments · stack) situation
      (evaluateTagged situation.store operands situation.heap) := by
  induction h generalizing operands start stack situation with
  | nil =>
      cases htagged
      subst hfinish
      exact .done _
  | @cons tag value rest position first others htag hvalue hrest ih =>
      obtain ⟨later, hlater, -⟩ := hrest.tagged
      rw [List.mapM_cons, hlater] at htagged
      cases htagged
      simp only [List.map_cons, areCallFree, Bool.and_eq_true] at hfree
      have hpush := yields_push hcode.head htag stack situation
      have hpushed := hvalue.yields hfree.1 hcode.tail.left rfl (.string tag :: stack) situation
      refine Yields.after hpush (hpushed.bind fun given heap _ => ?_)
      rw [← List.append_nil others]
      have hfinish' : finish = start + 3 + size first + size others := by
        rw [hfinish, size_cons, size_append, ← Nat.add_assoc, ← Nat.add_assoc]
        rfl
      refine (ih hlater hfree.2 hcode.tail.right hfinish' (given :: .string tag :: stack)
        { situation with heap }).bind fun arguments heap _ => ?_
      exact .done _

theorem OffsetCode.computing {body : BodyScope} {pool : List Constant} {offset : Option Expr}
    (h : OffsetCode body pool assigned offset commands)
    (hfree : areCallFree offset.toList = true) : Computing commands := by
  cases h with
  | given hoffset =>
      simp only [Option.toList_some, areCallFree, Bool.and_true] at hfree
      exact hoffset.computing hfree
  | absent hpool => exact .single rfl

theorem OffsetCode.yields {offset : Option Expr}
    (h : OffsetCode ⟨signatures, run.names⟩ run.pool assigned offset commands)
    (hfree : areCallFree offset.toList = true) {start finish : Nat}
    (hcode : Loaded run.function.code start commands) (hfinish : finish = start + size commands)
    (stack : List Value) (situation : Situation) :
    run.Yields commands (run.state start stack situation) finish (· :: stack) situation
      (evaluateOffset situation.store offset situation.heap) := by
  cases h with
  | given hoffset =>
      simp only [Option.toList_some, areCallFree, Bool.and_true] at hfree
      exact hoffset.yields hfree hcode hfinish stack situation
  | absent hpool =>
      subst hfinish
      exact yields_push hcode hpool stack situation

end Operands

/-! ### The code of an errand -/

section Errands

variable (body : BodyScope) (pool : List Constant) (assigned : List String)

/-- The code that makes the call of an errand: commands that compute the operands, and the one that
asks. -/
inductive ErrandCode : Errand → List Command → Command → Prop where
  | foreign {lib symbol result : String} {listed : List ForeignOperand}
      {operands : List (String × Expr)} {into : Option String} {commands : List Command}
      {resultAt libAt symbolAt : Nat}
      (htagged : listed.mapM ForeignOperand.tagged? = some operands)
      (hoperands : ForeignCode body pool assigned listed commands)
      (hresult : Holds pool resultAt (.string result)) (hlib : Holds pool libAt (.string lib))
      (hsymbol : Holds pool symbolAt (.string symbol)) :
      ErrandCode (.foreign lib symbol result operands into)
        (commands ++ [⟨.pushConst, resultAt⟩, ⟨.pushConst, libAt⟩, ⟨.pushConst, symbolAt⟩])
        ⟨.ffiCall, operands.length⟩
  | allocate {size : Expr} {into : String} {commands : List Command}
      (hsize : ExprCode body pool assigned size commands) :
      ErrandCode (.allocate size into) commands ⟨.memAlloc, 0⟩
  | write {width : MemoryWidth} {pointer value : Expr} {offset : Option Expr}
      {first second third : List Command} {position : Nat}
      (hpointer : ExprCode body pool assigned pointer first)
      (hoffset : OffsetCode body pool assigned offset second)
      (hvalue : ExprCode body pool assigned value third)
      (hpool : Holds pool position (.string width.name)) :
      ErrandCode (.write width pointer offset value)
        (first ++ (second ++ (third ++ [⟨.pushConst, position⟩]))) ⟨.memWrite, 0⟩
  | read {width : MemoryWidth} {pointer : Expr} {offset : Option Expr} {into : String}
      {first second : List Command} {position : Nat}
      (hpointer : ExprCode body pool assigned pointer first)
      (hoffset : OffsetCode body pool assigned offset second)
      (hpool : Holds pool position (.string width.name)) :
      ErrandCode (.read width pointer offset into)
        (first ++ (second ++ [⟨.pushConst, position⟩])) ⟨.memRead, 0⟩
  | release {pointer : Expr} {commands : List Command}
      (hpointer : ExprCode body pool assigned pointer commands) :
      ErrandCode (.release pointer) commands ⟨.memFree, 0⟩

/-- What is done with the result of an errand: it is stored in the local for it, or it stays. -/
inductive Errand.Keeps (names : FunctionBuilder) (errand : Errand) : List Command → Prop where
  | stays (hinto : errand.into = none) : errand.Keeps names []
  | stores {name : String} {target : LocalSlot} (hinto : errand.into = some name)
      (hresult : errand.hasResult = true) (hslot : names.slot? name = some target) :
      errand.Keeps names [target.store]

variable {body pool assigned} {errand : Errand} {commands operands rest : List Command}
  {asking : Command}

theorem Errand.Keeps.storing {names : FunctionBuilder} (h : errand.Keeps names rest) :
    ∀ command ∈ rest, command.op.stores = true := by
  cases h with
  | stays => exact nofun
  | @stores _ target =>
      intro command hmem
      cases List.mem_singleton.1 hmem
      unfold LocalSlot.store LocalSlot.storeOp
      split <;> rfl

/-- The code of a foreign call is that of an errand. -/
theorem ForeignCallCode.hasErrand {lib symbol returns : Field String}
    {listed : Field (List ForeignOperand)} {result : String}
    (h : ForeignCallCode body pool assigned lib symbol returns listed result commands)
    (into : Field String) {destination : Option String}
    (hinto : into.optional? = some destination) :
    ∃ library function pairs operands asking,
      (Stmt.foreign [] lib symbol returns listed into).errand? =
        some (.foreign library function result pairs destination) ∧
      commands = operands ++ [asking] ∧
      ErrandCode body pool assigned (.foreign library function result pairs destination) operands
        asking := by
  obtain @⟨library, function, _, _, _, items, pushed, _, _, _, hreturns, hlisted, -, hoperands,
    hresult, hlib, hsymbol⟩ := h
  obtain ⟨pairs, htagged, hlength⟩ := hoperands.tagged
  have hreturned : ∃ given, returns.optional? = some given ∧
      given.getD LoweringScope.voidResult = result := by
    obtain rfl | ⟨rfl, rfl⟩ := hreturns
    · exact ⟨some result, rfl, rfl⟩
    · exact ⟨none, rfl, rfl⟩
  have hitems : ∃ given, listed.optional? = some given ∧ given.getD [] = items := by
    obtain rfl | ⟨rfl, rfl⟩ := hlisted
    · exact ⟨some items, rfl, rfl⟩
    · exact ⟨none, rfl, rfl⟩
  obtain ⟨returned, hreturned, rfl⟩ := hreturned
  obtain ⟨given, hgiven, rfl⟩ := hitems
  refine ⟨library, function, pairs, _, _, ?_, ?_, .foreign htagged hoperands hresult hlib hsymbol⟩
  · simp only [Stmt.errand?, hreturned, hgiven, htagged, hinto, Option.bind_eq_bind,
      Option.bind_some]
    rfl
  · rw [List.append_assoc, hlength]
    rfl

/-- The code of a statement that asks a capability is that of its errand, and stores the result if
there is a local for it. -/
theorem StmtCode.hasErrand {assigned after : List String} {start : Nat} {stmt : Stmt}
    {commands : List Command} (h : StmtCode body pool assigned start stmt commands after)
    (hasks : stmt.asks = true) :
    ∃ errand operands asking rest, stmt.errand? = some errand ∧
      commands = operands ++ asking :: rest ∧
      ErrandCode body pool assigned errand operands asking ∧ errand.Keeps body.names rest := by
  match h with
  | .overfull hstmt =>
      have hinner := StmtCode.hasErrand hstmt
      exact hinner hasks
  -- A result that is not stored stays where the instruction has left it.
  | .foreign hcall =>
      obtain ⟨_, _, _, operands, asking, herrand, hcommands, hcode⟩ := hcall.hasErrand .absent rfl
      exact ⟨_, operands, asking, [], herrand, hcommands, hcode, .stays rfl⟩
  | .foreignInto hcall hresult hwrite =>
      obtain ⟨_, _, _, operands, asking, herrand, rfl, hcode⟩ := hcall.hasErrand (.given _) rfl
      exact ⟨_, operands, asking, _, herrand, List.append_assoc .., hcode,
        .stores rfl (decide_eq_true hresult) hwrite.2⟩
  | .allocate hwrite _ hsize =>
      exact ⟨_, _, _, _, rfl, rfl, .allocate hsize, .stores rfl rfl hwrite.2⟩
  | .writeMemory hwidth hpointer hoffset hvalue hpool =>
      exact ⟨_, _, _, [], by rw [Stmt.errand?, hwidth]; rfl, by simp,
        .write hpointer hoffset hvalue hpool, .stays rfl⟩
  | .readMemory hwidth hwrite hpointer hoffset hpool =>
      exact ⟨_, _, _, _, by rw [Stmt.errand?, hwidth]; rfl, by simp,
        .read hpointer hoffset hpool, .stores rfl rfl hwrite.2⟩
  | .release hpointer => exact ⟨_, _, _, [], rfl, rfl, .release hpointer, .stays rfl⟩
  | .assign _ _ _ _ _ | .assignNull _ _ _ _ | .print _ | .call _ _ _ | .branch _ _ _ _
  | .branchElse _ _ _ _ _ _ | .loop _ _ _ _ | .setElement _ _ _ _ | .pushElement _ _ _
  | .giveBack _ _ _ _ | .giveBackNothing _ | .subscribe _ _ _ => cases hasks

/-- The last command asks. -/
theorem ErrandCode.asks (h : ErrandCode body pool assigned errand operands asking) :
    asking.op.asks = true := by
  cases h <;> rfl

/-- The commands before it only compute. -/
theorem ErrandCode.computing (h : ErrandCode body pool assigned errand operands asking)
    (hfree : areCallFree errand.operands = true) : Computing operands := by
  cases h with
  | foreign htagged hoperands =>
      exact (hoperands.computing htagged hfree).append (.cons rfl (.cons rfl (.single rfl)))
  | allocate hexpr | release hexpr =>
      simp only [Errand.operands, areCallFree, Bool.and_true] at hfree
      exact hexpr.computing hfree
  | write hpointer hoffset hvalue =>
      simp only [Errand.operands, areCallFree, areCallFree_append, Bool.and_true,
        Bool.and_eq_true] at hfree
      exact (hpointer.computing hfree.1).append ((hoffset.computing hfree.2.1).append
        ((hvalue.computing hfree.2.2).append (.single rfl)))
  | read hpointer hoffset =>
      simp only [Errand.operands, areCallFree, Bool.and_eq_true] at hfree
      exact (hpointer.computing hfree.1).append ((hoffset.computing hfree.2).append (.single rfl))

end Errands

/-- The code of an errand makes its call. -/
theorem ErrandCode.makes {run : Running σ γ} {signatures : SignatureTable}
    {assigned : List String} {errand : Errand} {operands : List Command} {asking : Command}
    (h : ErrandCode ⟨signatures, run.names⟩ run.pool assigned errand operands asking)
    (hfree : areCallFree errand.operands = true) {start : Nat}
    (hcode : Loaded run.function.code start (operands ++ [asking])) (stack : List Value)
    (store : Store) (heap : Heap) :
    run.Makes (operands ++ [asking]) (run.state start stack ⟨store, heap, []⟩)
      (start + size (operands ++ [asking])) stack store (errand.call store heap) := by
  cases h with
  | @foreign lib symbol result listed pairs into first resultAt libAt symbolAt htagged hoperands
      hresult hlib hsymbol =>
      -- The type, the library and the symbol are pushed behind the operands, and are taken first.
      let pushes : List Command :=
        [⟨.pushConst, resultAt⟩, ⟨.pushConst, libAt⟩, ⟨.pushConst, symbolAt⟩]
      change Loaded _ _ ((first ++ pushes) ++ _) at hcode
      change run.Makes ((first ++ pushes) ++ _) _ (_ + size ((first ++ pushes) ++ _)) _ _ _
      rw [List.append_assoc] at hcode ⊢
      rw [size_append, ← Nat.add_assoc]
      refine Makes.bind (hoperands.yields htagged hfree hcode.left rfl stack ⟨store, heap, []⟩)
        fun arguments heap harguments => ?_
      rw [← length_of_evaluateTagged harguments] at hcode ⊢
      have hthree : Loaded run.function.code (start + size first) pushes := hcode.right.left
      have hasking : Loaded run.function.code (start + size first + size pushes)
          [⟨.ffiCall, arguments.length⟩] := hcode.right.right
      have hpushes := (yields_push hthree.head hresult (Exec.stackedArguments arguments stack)
        ⟨store, heap, []⟩).trans ((yields_push hthree.tail.head hlib _ _).trans
          (yields_push hthree.tail.tail hsymbol _ _))
      exact Makes.after hpushes (makes_of_asks hasking rfl rfl (Exec.asks_foreignCall rfl))
  | allocate hsize =>
      simp only [Errand.operands, areCallFree, Bool.and_true] at hfree
      rw [size_append, ← Nat.add_assoc]
      exact Makes.bind (hsize.yields hfree hcode.left rfl stack ⟨store, heap, []⟩)
        fun size heap _ => makes_of_asks hcode.right rfl rfl (Exec.asks_memAlloc rfl)
  | write hpointer hoffset hvalue hpool =>
      simp only [Errand.operands, areCallFree, areCallFree_append, Bool.and_true,
        Bool.and_eq_true] at hfree
      simp only [List.append_assoc, size_append, ← Nat.add_assoc] at hcode ⊢
      have hlast := hcode.right.right.right
      refine Makes.bind (hpointer.yields hfree.1 hcode.left rfl stack ⟨store, heap, []⟩)
        fun pointer heap _ => ?_
      refine Makes.bind (hoffset.yields hfree.2.1 hcode.right.left rfl (pointer :: stack)
        ⟨store, heap, []⟩) fun offset heap _ => ?_
      refine Makes.bind (hvalue.yields hfree.2.2 hcode.right.right.left rfl
        (offset :: pointer :: stack) ⟨store, heap, []⟩) fun value heap _ => ?_
      exact Makes.after (yields_push hlast.head hpool _ ⟨store, heap, []⟩)
        (makes_of_asks hlast.tail rfl rfl (Exec.asks_memWrite rfl))
  | read hpointer hoffset hpool =>
      simp only [Errand.operands, areCallFree, Bool.and_eq_true] at hfree
      simp only [List.append_assoc, size_append, ← Nat.add_assoc] at hcode ⊢
      have hlast := hcode.right.right
      refine Makes.bind (hpointer.yields hfree.1 hcode.left rfl stack ⟨store, heap, []⟩)
        fun pointer heap _ => ?_
      refine Makes.bind (hoffset.yields hfree.2 hcode.right.left rfl (pointer :: stack)
        ⟨store, heap, []⟩) fun offset heap _ => ?_
      exact Makes.after (yields_push hlast.head hpool _ ⟨store, heap, []⟩)
        (makes_of_asks hlast.tail rfl rfl (Exec.asks_memRead rfl))
  | release hpointer =>
      simp only [Errand.operands, areCallFree, Bool.and_true] at hfree
      rw [size_append, ← Nat.add_assoc]
      exact Makes.bind (hpointer.yields hfree hcode.left rfl stack ⟨store, heap, []⟩)
        fun pointer heap _ => makes_of_asks hcode.right rfl rfl (Exec.asks_memFree rfl)

/-! ### From text to runs -/

/-- What becomes of the result of an errand. It stays on the stack if there is no local for it.
Otherwise the local has what it makes of the result, or the store is what fails. The machine is
left with other locals and another stack. -/
def Errand.Delivers (errand : Errand) (slots : List (String × StaticType)) (setup : Setup σ γ)
    (commands : List Command) (machine : Machine σ γ) (locals : Array Value)
    (result : Option Value) (left : Array Value → List Value → Machine σ γ) : Prop :=
  match errand.into with
  | none => machine.CarriesOut setup commands (left locals (result.toList ++ machine.stack))
  | some name => ∃ (value : Value) (position : Nat) (type : StaticType), result = some value ∧
      slots[position]? = some (name, type) ∧
      match type.stores value with
      | .ok stored => machine.CarriesOut setup commands
          (left (locals.setIfInBounds position stored) machine.stack)
      | .error kind => ∃ fault, machine.Breaks setup commands fault
          (left locals machine.stack) ∧ fault.kind = kind

/-- The rest of the code of a statement delivers the result. -/
theorem Errand.Keeps.delivers (run : Running σ γ) {errand : Errand} {first rest : List Command}
    (h : errand.Keeps run.names rest) {between : Nat}
    (hcode : Loaded run.function.code between rest) {machine : Machine σ γ}
    {result : Option Value} {situation : Situation}
    (hfirst : machine.CarriesOut run.setup first
      (run.state between (result.toList ++ machine.stack) situation))
    (hresult : result.isSome = errand.hasResult) :
    errand.Delivers run.slots run.setup (first ++ rest) machine (situation.store.values run.slots)
      result fun locals stack => { run.state between stack situation with
        frames := ⟨run.function, between + size rest, locals⟩ :: run.outer } := by
  unfold Errand.Delivers
  cases h with
  | stays hinto =>
      rw [hinto, List.append_nil]
      exact hfirst
  | @stores name target hinto hhas hslot =>
      rw [hhas] at hresult
      obtain ⟨value, rfl⟩ := Option.isSome_iff_exists.1 hresult
      have hentry := (run.laidOut.slot name target).1 hslot
      have hstores := run.stores hcode hslot value machine.stack situation
      rw [hinto, size_store]
      refine ⟨value, target.slot, target.type, rfl, hentry, ?_⟩
      cases hstored : target.type.stores value with
      | ok stored =>
          rw [hstored] at hstores
          have hset := situation.store.values_set run.laidOut.distinct hentry stored
          simp only
          rw [hset]
          exact hfirst.trans hstores
      | error kind =>
          rw [hstored] at hstores
          obtain ⟨fault, hbreaks, hkind⟩ := hstores
          exact ⟨fault, hfirst.breaks hbreaks, hkind⟩

section

variable {units : List SourceUnit} {scope : LoweringScope} {before after : Lowering}
  {slots : List (String × StaticType)} {stmt : Stmt} {path : SourcePath}

/-- A statement that asks a capability and is lowered without an error asks it for what is written.
Its code computes the operands and has one instruction that asks. If an operand cannot be evaluated
or is no size and no place, then the run fails as the evaluation does, and nothing has been asked.
Otherwise the capability is asked once, from the surroundings in which the statement began, and
fails the run or hands on a result exactly if there is one. The result goes to its local, or stays
on the stack above what was there before. All else is as it was. -/
theorem capability_statement_marshals (hscope : scope.signatures = programSignatures units)
    (hbody : before.InBody slots) (hlowered : after = lowerStmt scope stmt path before)
    (hclean : after.Clean) (hasks : stmt.asks = true)
    (hfree : ∀ errand ∈ stmt.errand?, areCallFree errand.operands = true) :
    ∃ errand operands asking rest, stmt.errand? = some errand ∧
      Emits before.builder after.builder (operands ++ asking :: rest) ∧
      Computing operands ∧ asking.op.asks = true ∧
      (∀ command ∈ rest, command.op.stores = true) ∧
      ∀ {σ γ : Type} (setup : Setup σ γ) (function : CompiledFunction Value)
        (machine : Machine σ γ) (locals : Array Value) (outer : List Frame),
        function.Has before.builder after.builder →
        machine.frames = ⟨function, before.builder.offset, locals⟩ :: outer →
        locals.size = slots.length →
        match errand.call (.start slots locals.toList) machine.heap with
        | .error kind heap => ∃ fault offset stack,
            machine.Breaks setup (operands ++ [asking]) fault { machine with
              frames := ⟨function, offset, locals⟩ :: outer
              stack
              heap } ∧ fault.kind = kind
        | .ok call heap => ∀ service, call.service? setup.capabilities = some service →
            match service (machine.environment, heap) with
            | .error fault (environment, heap) => ∃ site offset stack,
                machine.Breaks setup (operands ++ [asking]) (fault.within site) { machine with
                  frames := ⟨function, offset, locals⟩ :: outer
                  stack
                  heap
                  environment }
            | .ok result (environment, heap) => result.isSome = errand.hasResult ∧
                errand.Delivers slots setup (operands ++ asking :: rest) machine locals result
                  fun locals stack => { machine with
                    frames := ⟨function, after.builder.offset, locals⟩ :: outer
                    stack
                    heap
                    environment } := by
  subst hlowered
  have hwithin : Lowering.Within before.builder.outline before := ⟨rfl, hbody.bounded⟩
  obtain ⟨-, commands, hemits, hshape⟩ := (lowerStmt_lowers before.builder.outline
    (scalarDefaults_of_units hscope) stmt path before).adds hwithin hclean
  have hcode : StmtCode _ _ _ _ _ _ _ := hshape _ List.prefix_rfl
  have horderly : Orderly _ (fun _ => True) commands before.builder.offset :=
    hcode.orderly (hbody.covers scope _) _
  obtain ⟨errand, operands, asking, rest, herrand, rfl, hasking, hkeeps⟩ := hcode.hasErrand hasks
  have hfree := hfree errand herrand
  refine ⟨errand, operands, asking, rest, herrand, hemits, hasking.computing hfree, hasking.asks,
    hkeeps.storing, ?_⟩
  intro σ γ setup function machine locals outer hhas hframes hlocals
  have hloaded := hhas.loaded hemits fun command hmem => (horderly.allows command hmem).fits
  have hcommands : operands ++ asking :: rest = (operands ++ [asking]) ++ rest := by simp
  have hend := hemits.offset
  rw [hcommands] at hloaded hend ⊢
  let run := hbody.running setup hhas outer machine
  let store : Store := .start slots locals.toList
  have hvalues : store.values slots = locals :=
    hbody.running_values setup hhas outer machine hlocals
  have hstate (environment : σ) (offset : Nat) (stack : List Value) (heap : Heap) :
      (run.amid environment).state offset stack ⟨store, heap, []⟩ = { machine with
        frames := ⟨function, offset, locals⟩ :: outer
        stack
        heap
        environment } :=
    congrArg (fun locals => ({ machine with
      frames := ⟨function, offset, locals⟩ :: outer
      stack
      heap
      environment } : Machine σ γ)) hvalues
  have hmakes : run.Makes _ _ _ _ _ _ :=
    hasking.makes hfree hloaded.left machine.stack store machine.heap
  rw [hbody.running_state setup hhas hframes hlocals] at hmakes
  cases hcall : errand.call store machine.heap with
  | error kind heap =>
      rw [hcall] at hmakes
      obtain ⟨fault, offset, stack, hbreaks, hkind⟩ := hmakes
      exact ⟨fault, offset, stack, hstate machine.environment offset stack heap ▸ hbreaks, hkind⟩
  | ok call heap =>
      rw [hcall] at hmakes
      intro service hservice
      have hmakes := hmakes service hservice
      have hasked : run.begun.environment = machine.environment := rfl
      rw [hasked] at hmakes
      cases hresult : service (machine.environment, heap) with
      | error fault last =>
          rw [hresult] at hmakes
          obtain ⟨site, offset, stack, hbreaks⟩ := hmakes
          exact ⟨site, offset, stack, hstate last.1 offset stack last.2 ▸ hbreaks⟩
      | ok result last =>
          rw [hresult] at hmakes
          have hsome : result.isSome = errand.hasResult :=
            (CapabilityCall.isSome_of_ok hservice hresult).trans (Errand.hasResult_of_call hcall)
          refine ⟨hsome, ?_⟩
          have hdelivers : Errand.Delivers _ _ _ _ _ _ _ _ :=
            Errand.Keeps.delivers (run.amid last.1) hkeeps hloaded.right hmakes hsome
          rw [Nat.add_assoc, ← size_append, ← hend] at hdelivers
          exact hvalues ▸ hdelivers

end

/-- A function that asks a foreign function for its parameter and the number behind it. -/
def measuring : SourceUnit where
  id := "measuring.json"
  text := "\x7b\"namespace\": \"M\", \"functions\": [\x7b\"name\": \"measure\",
    \"params\": [\x7b\"name\": \"x\", \"type\": \"int\"\x7d],
    \"locals\": [\x7b\"name\": \"size\", \"type\": \"int\"\x7d],
    \"body\": [\x7b\"ffi\": \x7b\"lib\": \"c\", \"symbol\": \"area\", \"returns\": \"double\",
    \"args\": [\x7b\"type\": \"int\", \"value\": \"x\"\x7d,
    \x7b\"type\": \"long\", \"value\": \x7b\"add\": [\"x\", 1]\x7d\x7d],
    \"into\": \"size\"\x7d\x7d]\x7d]\x7d"

/-- What `measuring` does. -/
def measurement : Stmt :=
  .foreign [] (.given "c") (.given "area") (.given "double")
    (.given [.operand [] (.given "int") (some (.reference "x")),
      .operand [] (.given "long")
        (some (.operator (.arithmetic .add) (some [.reference "x", .int 1])))])
    (.given "size")

/-- What `measuring` asks for. -/
def areaErrand : Errand :=
  .foreign "c" "area" "double" [("int", .reference "x"),
    ("long", .operator (.arithmetic .add) (some [.reference "x", .int 1]))] (some "size")

/-- The state in which the body of `measuring` begins. -/
def measuringStart : Lowering :=
  ⟨(Compiler.startFunction "M" ⟨"M.measure", [⟨"x", .int, none⟩], none⟩).declareLocal "size" .int,
    {}⟩

/-- Whether the statement is lowered without an error to code that the function has. -/
def measures (signatures : SignatureTable) (functions : FunctionTable Constant) : Bool :=
  let after := lowerStmt ⟨signatures, nowhere⟩ measurement .root measuringStart
  !after.diagnostics.hasErrors && after.builder.overflow.isNone &&
    (functions.get? "M.measure").any (·.consistsOf after.builder [Opcode.halt.byte])

/-- A foreign function keeps the calls that are made, and answers each with twelve and a half. -/
def Setup.measured (program : Program) : Setup (List ForeignCall) HeadlessGraphics where
  program
  capabilities :=
    { print := fun _ calls => .ok () calls
      foreign := some
        { invoke := fun call (calls, heap) =>
            .ok (.float ⟨0x4029000000000000⟩) (calls ++ [call], heap) }
      memory := none
      graphics := HeadlessGraphics.interface }

set_option maxRecDepth 100000 in
/-- The foreign function is called once, and the local for integers takes its answer without the
fraction. -/
theorem measuring_marshals :
    ∃ (setup : Setup (List ForeignCall) HeadlessGraphics) (commands : List Command)
      (machine after : Machine (List ForeignCall) HeadlessGraphics),
      machine.CarriesOut setup commands after ∧ machine.environment = [] ∧
        after.environment =
          [⟨"c", "area", [⟨"int", .int 3⟩, ⟨"long", .int 4⟩], "double"⟩] ∧
        after.frames.map Frame.locals = [#[.int 3, .int 12]] ∧
        machine.stack = [.null] ∧ after.stack = [.null] := by
  obtain ⟨compilation, entries, hcompile, -, hcheck⟩ := exists_of_compilesTo measuring
    (fun _ signatures compilation => measures signatures compilation.functions) rfl
    (by decide +kernel)
  -- What the text means stays abstract: nothing below may run the compiler.
  generalize hknows : programSignatures [measuring] = signatures at hcheck
  simp only [measures, Bool.and_eq_true, Bool.not_eq_true', Option.isNone_iff_eq_none,
    Option.any_eq_true] at hcheck
  generalize hlowered : lowerStmt ⟨signatures, nowhere⟩ measurement .root measuringStart = after
    at hcheck
  obtain ⟨⟨hclean, hlimits⟩, main, hmain, hconsists⟩ := hcheck
  obtain ⟨_, _, -, ⟨made⟩⟩ := translation_of_mem hcompile (FunctionTable.mem_of_get? hmain).1
  have hlinks := (link_scalars made.wellFormed.scalar {}).2
  generalize (main.link {}).1 = function at hlinks
  have hopens := opens_startFunction "M" ⟨"M.measure", [⟨"x", .int, none⟩], none⟩
    (List.nodup_singleton _)
  have hbounded := Compiler.bounded_startFunction "M" ⟨"M.measure", [⟨"x", .int, none⟩], none⟩
  have hbody : measuringStart.InBody [("x", .int), ("size", .int)] :=
    .of_opens (hopens.declareLocal .int (by decide)) (bounded_allocate hbounded "size" .int) rfl
  have hhas : function.Has measuringStart.builder after.builder := hlinks.has rfl hconsists
  have hfree : ∀ errand ∈ measurement.errand?, areCallFree errand.operands = true := by
    rintro errand ⟨⟩
    rfl
  obtain ⟨errand, operands, asking, rest, herrand, -, -, -, -, hruns⟩ :=
    capability_statement_marshals hknows.symm hbody hlowered.symm ⟨hclean, hlimits⟩ rfl hfree
  obtain rfl : areaErrand = errand := Option.some.inj herrand
  let setup : Setup (List ForeignCall) HeadlessGraphics :=
    .measured (compilation.functions.link {}).1
  let machine : Machine (List ForeignCall) HeadlessGraphics :=
    { frames := [⟨function, 0, #[.int 3, .null]⟩]
      stack := [.null], heap := {}, graphics := .absent, environment := [] }
  have hframes : machine.frames =
      ⟨function, measuringStart.builder.offset, #[.int 3, .null]⟩ :: [] := rfl
  have hrun := hruns setup function machine #[.int 3, .null] [] hhas hframes rfl
  have hcall : areaErrand.call (.start [("x", .int), ("size", .int)]
      #[Value.int 3, .null].toList) machine.heap = .ok (.foreign
        ⟨"c", "area", [⟨"int", .int 3⟩, ⟨"long", .int 4⟩], "double"⟩) {} := rfl
  rw [hcall] at hrun
  obtain ⟨-, value, position, type, hvalue, hslot, hstored⟩ := hrun _ rfl
  cases hvalue
  have hwhole : StaticType.stores .int (.float ⟨0x4029000000000000⟩) = .ok (.int 12) := rfl
  match position with
  | 0 => simp at hslot
  | 1 =>
      cases hslot
      simp only at hstored
      rw [hwhole] at hstored
      exact ⟨setup, _, machine, _, hstored, rfl, rfl, rfl, rfl, rfl⟩
  | _ + 2 => cases hslot

end DocScript
