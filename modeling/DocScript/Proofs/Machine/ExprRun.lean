import DocScript.Proofs.Compile.Code
import DocScript.Proofs.Compile.Locals
import DocScript.Proofs.Machine.Execution
import DocScript.Proofs.Machine.Instructions
import DocScript.Proofs.Machine.Reach
import DocScript.Proofs.Source.Allocation

/-! # Runs of expressions

The code of an expression without calls leaves the value on the stack that the
structured reading gives the expression, or faults for the same reason.
-/

namespace DocScript

open Command FunctionBuilder

/-- The host accepts every text. -/
def Setup.Accepts (setup : Setup σ γ) : Prop :=
  ∀ text environment, ∃ after, setup.capabilities.print text environment = .ok () after

/-- The state of the host after it has been given a text. -/
def Setup.afterPrint (setup : Setup σ γ) (environment : σ) (text : String) : σ :=
  match setup.capabilities.print text environment with
  | .ok _ after | .error _ after => after

theorem Setup.Accepts.print {setup : Setup σ γ} (h : setup.Accepts) (text : String)
    (environment : σ) :
    setup.capabilities.print text environment = .ok () (setup.afterPrint environment text) := by
  obtain ⟨after, hprint⟩ := h text environment
  rw [Setup.afterPrint, hprint]

/-- A function that runs above other frames, with what is known of its constants and its locals,
and the machine in which it began. -/
structure Running (σ γ : Type) where
  setup : Setup σ γ
  function : CompiledFunction Value
  pool : List Constant
  names : FunctionBuilder
  slots : List (String × StaticType)
  outer : List Frame
  begun : Machine σ γ
  constant : ∀ (position : Nat) (value : Scalar), pool[position]? = some (.scalar value) →
    function.constants[position]? = some (.scalar value)
  laidOut : names.LaidOut slots

/-- A running function whose host accepts every text. -/
structure Activation (σ γ : Type) extends Running σ γ where
  accepts : setup.Accepts

/-- The values of locals in the order of their slots. -/
def Store.values (store : Store) (slots : List (String × StaticType)) : Array Value :=
  (slots.map fun slot => store slot.1).toArray

theorem Store.getElem?_values (store : Store) {slots : List (String × StaticType)} {position : Nat}
    {name : String} {type : StaticType} (hslot : slots[position]? = some (name, type)) :
    (store.values slots)[position]? = some (store name) := by
  simp [Store.values, hslot]

namespace Running

variable (run : Running σ γ)

/-- The machine at an offset of the function, as the structured reading sees it. -/
def state (offset : Nat) (stack : List Value) (situation : Situation) : Machine σ γ :=
  { run.begun with
    frames := ⟨run.function, offset, situation.store.values run.slots⟩ :: run.outer
    stack
    heap := situation.heap
    environment := situation.lines.foldl run.setup.afterPrint run.begun.environment }

theorem frames_state (offset : Nat) (stack : List Value) (situation : Situation) :
    (run.state offset stack situation).frames =
      ⟨run.function, offset, situation.store.values run.slots⟩ :: run.outer := rfl

/-- The run comes from the first machine to the last one, and goes on there. -/
def Comes (first last : Machine σ γ) : Prop :=
  ∃ count, first.advance run.setup run.outer.length count = some last

/-- The run comes to a fault of a kind, in a situation. -/
def Fails (first : Machine σ γ) (kind : FaultKind) (situation : Situation) : Prop :=
  ∃ last fault offset stack, run.Comes first last ∧
    Exec.step run.setup last = .error fault (run.state offset stack situation) ∧ fault.kind = kind

/-- The run does what the result of an evaluation says: it comes to an offset with the stack that
goes with the value, or it fails. -/
def Gives (first : Machine σ γ) (finish : Nat) (stacked : β → List Value) (situation : Situation) :
    EStateM.Result FaultKind Heap β → Prop
  | .ok value heap => run.Comes first (run.state finish (stacked value) { situation with heap })
  | .error kind heap => run.Fails first kind { situation with heap }

/-- The run does so by carrying out commands one behind the other. -/
def Yields (commands : List Command) (first : Machine σ γ) (finish : Nat)
    (stacked : β → List Value) (situation : Situation) :
    EStateM.Result FaultKind Heap β → Prop
  | .ok value heap => first.CarriesOut run.setup commands
      (run.state finish (stacked value) { situation with heap })
  | .error kind heap => ∃ fault offset stack, first.Breaks run.setup commands fault
      (run.state offset stack { situation with heap }) ∧ fault.kind = kind

variable {run : Running σ γ} {situation : Situation} {start finish : Nat} {stack : List Value}
  {first middle last : Machine σ γ} {stacked : β → List Value} {command : Command}

theorem goes (offset : Nat) (stack : List Value) (situation : Situation) :
    (run.state offset stack situation).hasFramesAbove run.outer.length = true :=
  (Machine.hasFramesAbove_iff _ _).2 (Nat.lt_succ_self _)

theorem Comes.refl (offset : Nat) (stack : List Value) (situation : Situation) :
    run.Comes (run.state offset stack situation) (run.state offset stack situation) :=
  ⟨0, if_pos (goes offset stack situation)⟩

theorem Comes.trans (h : run.Comes first middle) (hrest : run.Comes middle last) :
    run.Comes first last := by
  obtain ⟨count, hcount⟩ := h
  obtain ⟨more, hmore⟩ := hrest
  exact ⟨count + more, (advance_add hcount more).trans hmore⟩

theorem Fails.after {kind : FaultKind} (h : run.Comes first middle)
    (hfails : run.Fails middle kind situation) : run.Fails first kind situation := by
  obtain ⟨last, fault, offset, stack, hcomes, hstep, hkind⟩ := hfails
  exact ⟨last, fault, offset, stack, h.trans hcomes, hstep, hkind⟩

/-- A run above its outer frames goes where its commands lead. -/
theorem Yields.gives {commands : List Command} {result : EStateM.Result FaultKind Heap β}
    (hgoes : first.hasFramesAbove run.outer.length = true)
    (h : run.Yields commands first finish stacked situation result) :
    run.Gives first finish stacked situation result := by
  cases result with
  | ok value heap => exact ⟨_, Machine.CarriesOut.advance h hgoes⟩
  | error kind heap =>
      obtain ⟨fault, offset, stack, hbreaks, hkind⟩ := h
      obtain ⟨count, last, hlast, hstep⟩ := hbreaks.advance hgoes
      exact ⟨last, fault, offset, stack, ⟨count, hlast⟩, hstep, hkind⟩

theorem Yields.after {commands others : List Command} {result : EStateM.Result FaultKind Heap β}
    (h : first.CarriesOut run.setup commands middle)
    (hyields : run.Yields others middle finish stacked situation result) :
    run.Yields (commands ++ others) first finish stacked situation result := by
  cases result with
  | ok value heap => exact h.trans hyields
  | error kind heap =>
      obtain ⟨fault, offset, stack, hbreaks, hkind⟩ := hyields
      exact ⟨fault, offset, stack, h.breaks hbreaks, hkind⟩

/-- What one evaluation leaves on the stack is there for the next one. -/
theorem Yields.bind {action : Evaluation α} {next : α → Evaluation β} {passed : α → List Value}
    {between : Nat} {heap : Heap} {commands others : List Command}
    (h : run.Yields commands first between passed situation (action heap))
    (hnext : ∀ value after, action heap = .ok value after →
      run.Yields others (run.state between (passed value) { situation with heap := after }) finish
        stacked situation (next value after)) :
    run.Yields (commands ++ others) first finish stacked situation ((action >>= next) heap) := by
  change run.Yields _ first finish stacked situation (EStateM.bind action next heap)
  unfold EStateM.bind
  cases haction : action heap with
  | ok value after =>
      rw [haction] at h
      exact Yields.after h (hnext value after haction)
  | error kind after =>
      rw [haction] at h
      obtain ⟨fault, offset, stack, hbreaks, hkind⟩ := h
      exact ⟨fault, offset, stack, hbreaks.append others, hkind⟩

/-- A value below the values of what comes after it. -/
theorem Yields.cons {action : Evaluation Value} {rest : Evaluation (List Value)} {middle : Nat}
    {heap : Heap} {commands others : List Command}
    (h : run.Yields commands first middle (· :: stack) situation (action heap))
    (hrest : ∀ value after, run.Yields others
      (run.state middle (value :: stack) { situation with heap := after }) finish
      (·.reverse ++ value :: stack) { situation with heap := after } (rest after)) :
    run.Yields (commands ++ others) first finish (·.reverse ++ stack) situation
      ((do
        let value ← action
        let values ← rest
        return value :: values : Evaluation (List Value)) heap) := by
  refine h.bind fun value heap _ => ?_
  rw [← List.append_nil others]
  refine (hrest value heap).bind fun values heap _ => ?_
  have hstack : (value :: values).reverse ++ stack = values.reverse ++ value :: stack := by simp
  change Machine.CarriesOut _ _ _ (run.state _ ((value :: values).reverse ++ stack) _)
  rw [hstack]
  exact .done _

/-! ### Single instructions -/

/-- At its offset a command is the next to be run. -/
theorem step_state (hcode : Loaded run.function.code start [command]) (stack : List Value)
    (situation : Situation) :
    Exec.step run.setup (run.state start stack situation) =
      Exec.execute run.setup ⟨run.function.name, start⟩ run.function command.operand command.op
        (run.state (start + command.op.width) stack situation) :=
  Exec.step_eq (run.frames_state start stack situation) hcode.decode

theorem comes_of_step (h : Exec.step run.setup (run.state start stack situation) =
      .ok .proceed (run.state finish stack' situation')) :
    run.Comes (run.state start stack situation) (run.state finish stack' situation') :=
  ⟨1, (advance_succ (goes start stack situation) h 0).trans (if_pos (goes ..))⟩

/-- An instruction that performs what a result says makes the run do so. -/
theorem yields_of_performs {result : EStateM.Result FaultKind Heap β}
    (hcode : Loaded run.function.code start [command])
    (hfinish : finish = start + command.op.width)
    (h : Exec.Performs (run.state finish stack situation) stacked result .proceed
      (Exec.execute run.setup ⟨run.function.name, start⟩ run.function command.operand command.op
        (run.state finish stack situation))) :
    run.Yields [command] (run.state start stack situation) finish stacked situation result := by
  have hstep := step_state hcode stack situation
  have hfaces : (run.state start stack situation).Faces command
      ⟨run.function, start, situation.store.values run.slots⟩ run.outer :=
    ⟨rfl, hcode.decode⟩
  rw [← hfinish] at hstep
  cases result with
  | ok value heap =>
      have hbehind : (run.state finish (stacked value) { situation with heap }).frames =
          ⟨run.function, start + command.op.width, situation.store.values run.slots⟩ ::
            run.outer := by
        rw [hfinish]
        rfl
      exact .next hfaces (hstep.trans h) hbehind (.done _)
  | error kind heap =>
      obtain ⟨fault, remaining, hexecute, hkind⟩ := h
      exact ⟨fault, finish, remaining, .here hfaces (hstep.trans hexecute), hkind⟩

theorem gives_of_performs {result : EStateM.Result FaultKind Heap β}
    (hcode : Loaded run.function.code start [command])
    (hfinish : finish = start + command.op.width)
    (h : Exec.Performs (run.state finish stack situation) stacked result .proceed
      (Exec.execute run.setup ⟨run.function.name, start⟩ run.function command.operand command.op
        (run.state finish stack situation))) :
    run.Gives (run.state start stack situation) finish stacked situation result :=
  (yields_of_performs hcode hfinish h).gives (goes ..)

theorem yields_push {position : Nat} {value : Scalar}
    (hcode : Loaded run.function.code start [⟨.pushConst, position⟩])
    (hpool : Holds run.pool position value) (stack : List Value) (situation : Situation) :
    run.Yields [⟨.pushConst, position⟩] (run.state start stack situation) (start + 3) (· :: stack)
      situation (.ok (.scalar value) situation.heap) :=
  yields_of_performs hcode rfl
    (Exec.performs_pushConst (run.constant position value hpool.1)).proceeding

theorem gives_push {position : Nat} {value : Scalar}
    (hcode : Loaded run.function.code start [⟨.pushConst, position⟩])
    (hpool : Holds run.pool position value) (stack : List Value) (situation : Situation) :
    run.Gives (run.state start stack situation) (start + 3) (· :: stack) situation
      (.ok (.scalar value) situation.heap) :=
  (yields_push hcode hpool stack situation).gives (goes ..)

theorem yields_load {name : String} {target : LocalSlot}
    (hcode : Loaded run.function.code start [⟨.loadLocal, target.slot⟩])
    (hslot : run.names.slot? name = some target) (stack : List Value) (situation : Situation) :
    run.Yields [⟨.loadLocal, target.slot⟩] (run.state start stack situation) (start + 3)
      (· :: stack) situation (.ok (situation.store name) situation.heap) := by
  have hvalue := situation.store.getElem?_values ((run.laidOut.slot name target).1 hslot)
  exact yields_of_performs hcode rfl (Exec.performs_loadLocal rfl hvalue).proceeding

theorem gives_load {name : String} {target : LocalSlot}
    (hcode : Loaded run.function.code start [⟨.loadLocal, target.slot⟩])
    (hslot : run.names.slot? name = some target) (stack : List Value) (situation : Situation) :
    run.Gives (run.state start stack situation) (start + 3) (· :: stack) situation
      (.ok (situation.store name) situation.heap) :=
  (yields_load hcode hslot stack situation).gives (goes ..)

/-- An instruction goes on with what the code before it leaves on the stack. -/
theorem Yields.instruction {commands : List Command} {heap : Heap} {action : Evaluation α}
    {next : α → Evaluation β} {passed : α → List Value}
    (hcode : Loaded run.function.code start (commands ++ [command]))
    (h : run.Yields commands first (start + size commands) passed situation (action heap))
    (hperforms : ∀ machine value after, action heap = .ok value after →
      machine.stack = passed value →
      Exec.Performs machine stacked (next value machine.heap) .proceed
        (Exec.execute run.setup ⟨run.function.name, start + size commands⟩ run.function
          command.operand command.op machine)) :
    run.Yields (commands ++ [command]) first (start + size (commands ++ [command])) stacked
      situation ((action >>= next) heap) := by
  refine h.bind fun value after haction => ?_
  refine yields_of_performs hcode.right ?_ (hperforms _ value after haction rfl)
  rw [size_append, size_cons, size_nil, Nat.add_zero, Nat.add_assoc]

end Running

/-! ### Expressions -/

open Running

/-- Each expression has one value. -/
theorem length_of_evaluateItems {store : Store} {items : List Expr} {heap after : Heap}
    {values : List Value} (h : evaluateItems store items heap = .ok values after) :
    values.length = items.length := by
  induction items generalizing heap values with
  | nil =>
      cases h
      rfl
  | cons item rest ih =>
      obtain ⟨value, middle, -, hrest⟩ := Evaluation.bind_ok h
      obtain ⟨others, last, hothers, hlast⟩ := Evaluation.bind_ok hrest
      cases hlast
      rw [List.length_cons, List.length_cons, ih hothers]

variable {run : Running σ γ} {signatures : SignatureTable} {assigned : List String}

mutual

/-- The code of an expression leaves its value on the stack, or fails as the expression does. -/
theorem ExprCode.yields {expr : Expr} {commands : List Command}
    (h : ExprCode ⟨signatures, run.names⟩ run.pool assigned expr commands)
    (hfree : expr.isCallFree = true) {start finish : Nat}
    (hcode : Loaded run.function.code start commands) (hfinish : finish = start + size commands)
    (stack : List Value) (situation : Situation) :
    run.Yields commands (run.state start stack situation) finish (· :: stack) situation
      (expr.evaluate situation.store situation.heap) := by
  subst hfinish
  match h with
  | .int hpool | .float hpool | .bool hpool | .null hpool | .string hpool =>
      exact yields_push hcode hpool stack situation
  | .reference hread | .named hread => exact yields_load hcode hread.1 stack situation
  | .overfull hexpr => exact ExprCode.yields hexpr hfree hcode rfl stack situation
  | .array _ _ hitems =>
      have hvalues := ItemsCode.yields hitems hfree hcode.left rfl stack situation
      refine hvalues.instruction hcode fun machine values _ hitems hstack => ?_
      rw [← length_of_evaluateItems hitems]
      exact (Exec.performs_makeArray hstack).proceeding
  | .not hoperand =>
      have hvalue := ExprCode.yields hoperand hfree hcode.left rfl stack situation
      exact hvalue.instruction hcode fun machine value _ _ hstack =>
        (Exec.performs_not hstack).proceeding
  | .negate _ hoperand =>
      have hvalue := ExprCode.yields hoperand hfree hcode.left rfl stack situation
      exact hvalue.instruction hcode fun machine value _ _ hstack =>
        (Exec.performs_neg hstack).proceeding
  | .length _ hoperand =>
      have hvalue := ExprCode.yields hoperand hfree hcode.left rfl stack situation
      exact hvalue.instruction hcode fun machine value _ _ hstack =>
        (Exec.performs_arrayLen hstack).proceeding
  | .operator hsome _ hoperands =>
      have hvalues := ItemsCode.yields hoperands hfree hcode.left rfl stack situation
      refine hvalues.instruction hcode fun machine values _ hitems hstack => ?_
      have hlength := length_of_evaluateItems hitems
      -- An operator without operands is not lowered.
      have hvalues : values ≠ [] := by
        rintro rfl
        exact hsome (List.eq_nil_of_length_eq_zero hlength.symm)
      rw [← hlength, Exec.execute_operator]
      exact (Exec.performs_combine hvalues hstack).proceeding
  | .get hread hindex =>
      have hload := yields_load hcode.head hread.1.1 stack situation
      have hposition (array : Value) := ExprCode.yields hindex hfree hcode.tail.left rfl
        (array :: stack) situation
      rw [size_cons, ← Nat.add_assoc]
      refine Yields.after hload ((hposition _).instruction hcode.tail ?_)
      exact fun machine value _ _ hstack => (Exec.performs_arrayGet hstack).proceeding
  | .call _ _ _ => cases hfree

/-- The code of expressions leaves their values on the stack, the last one on top. -/
theorem ItemsCode.yields {operator : Option Operator} {items : List Expr} {commands : List Command}
    (h : ItemsCode ⟨signatures, run.names⟩ run.pool assigned operator items commands)
    (hfree : areCallFree items = true) {start finish : Nat}
    (hcode : Loaded run.function.code start commands) (hfinish : finish = start + size commands)
    (stack : List Value) (situation : Situation) :
    run.Yields commands (run.state start stack situation) finish (·.reverse ++ stack) situation
      (evaluateItems situation.store items situation.heap) := by
  subst hfinish
  match h with
  | .nil => exact .done _
  | .cons _ hitem hrest =>
      simp only [areCallFree, Bool.and_eq_true] at hfree
      have hfirst := ExprCode.yields hitem hfree.1 hcode.left rfl stack situation
      rw [size_append, ← Nat.add_assoc]
      exact hfirst.cons fun value heap => ItemsCode.yields hrest hfree.2 hcode.right rfl
        (value :: stack) { situation with heap }

end

/-- So a run comes to the end of the code with the value, or fails as the expression does. -/
theorem ExprCode.gives {expr : Expr} {commands : List Command}
    (h : ExprCode ⟨signatures, run.names⟩ run.pool assigned expr commands)
    (hfree : expr.isCallFree = true) {start finish : Nat}
    (hcode : Loaded run.function.code start commands) (hfinish : finish = start + size commands)
    (stack : List Value) (situation : Situation) :
    run.Gives (run.state start stack situation) finish (· :: stack) situation
      (expr.evaluate situation.store situation.heap) :=
  (h.yields hfree hcode hfinish stack situation).gives (goes ..)

end DocScript
