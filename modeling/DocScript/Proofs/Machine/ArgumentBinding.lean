import DocScript.Proofs.Machine.NamedCalls
import DocScript.Proofs.Machine.StructuredBody

/-! # Arguments and the locals that they become

A call names its arguments, in any order, and leaves out those that have a default. Its
code pushes them in the order of the parameters, and the callee finds them in the slots
of its parameters, with nothing else in its locals and nothing of theirs on the stack.
-/

namespace DocScript

open Command FunctionBuilder Machine

/-- The value of an argument: that of the expression under the name of the parameter, or else the
literal that is its default. -/
def Parameter.evaluate (store : Store) (arguments : List (String × Expr)) (param : Parameter) :
    Evaluation Value :=
  match arguments.lookup param.name, param.default with
  | some argument, _ => argument.evaluate store
  | none, some (.scalar value) => pure (.scalar value)
  | none, _ => pure .null

namespace Parameter

variable {param : Parameter} {name : String} {argument : Expr} {rest : List (String × Expr)}

theorem evaluate_given (store : Store) (hname : name = param.name) :
    param.evaluate store ((name, argument) :: rest) = argument.evaluate store := by
  subst hname
  simp [evaluate]

theorem evaluate_later (store : Store) (hname : name ≠ param.name) :
    param.evaluate store ((name, argument) :: rest) = param.evaluate store rest := by
  have hother : (param.name == name) = false := by simpa using hname.symm
  simp only [evaluate, List.lookup_cons, hother]

end Parameter

/-! ### The code of arguments -/

section Arguments

variable {run : Running σ γ} {signatures : SignatureTable} {assigned : List String}

/-- The code of an argument leaves the value of the argument on the stack. -/
theorem ArgumentCode.yields {param : Parameter} {arguments : List (String × Expr)}
    {commands : List Command}
    (h : ArgumentCode ⟨signatures, run.names⟩ run.pool assigned param arguments commands)
    (hfree : areCallFree (arguments.map Prod.snd) = true) {start finish : Nat}
    (hcode : Loaded run.function.code start commands) (hfinish : finish = start + size commands)
    (stack : List Value) (situation : Situation) :
    run.Yields commands (run.state start stack situation) finish (· :: stack) situation
      (param.evaluate situation.store arguments situation.heap) := by
  match h with
  | .given hname _ hargument =>
      rw [List.map_cons, areCallFree, Bool.and_eq_true] at hfree
      rw [Parameter.evaluate_given _ hname]
      exact hargument.yields hfree.1 hcode hfinish stack situation
  | .later hname hrest =>
      rw [List.map_cons, areCallFree, Bool.and_eq_true] at hfree
      rw [Parameter.evaluate_later _ hname]
      exact ArgumentCode.yields hrest hfree.2 hcode hfinish stack situation
  | .omitted hdefault hpool =>
      subst hfinish
      rw [Parameter.evaluate, List.lookup_nil, hdefault]
      exact Running.yields_push hcode hpool stack situation

/-- The code of the arguments leaves their values on the stack, that of the last parameter on
top. -/
theorem ArgumentsCode.yields {params : List Parameter} {arguments : List (String × Expr)}
    {commands : List Command}
    (h : ArgumentsCode ⟨signatures, run.names⟩ run.pool assigned arguments params commands)
    (hfree : areCallFree (arguments.map Prod.snd) = true) {start finish : Nat}
    (hcode : Loaded run.function.code start commands) (hfinish : finish = start + size commands)
    (stack : List Value) (situation : Situation) :
    run.Yields commands (run.state start stack situation) finish (·.reverse ++ stack) situation
      (params.mapM (Parameter.evaluate situation.store arguments) situation.heap) := by
  subst hfinish
  match h with
  | .nil =>
      exact .done _
  | .cons hparam hrest =>
      have hfirst := hparam.yields hfree hcode.left rfl stack situation
      rw [List.mapM_cons, size_append, ← Nat.add_assoc]
      exact hfirst.cons fun value heap => ArgumentsCode.yields hrest hfree hcode.right rfl
        (value :: stack) { situation with heap }

end Arguments

/-- A parameter without a default is given by its name. -/
theorem ArgumentCode.supplied {body : BodyScope} {pool : List Constant} {assigned : List String}
    {param : Parameter} {arguments : List (String × Expr)} {commands : List Command}
    (h : ArgumentCode body pool assigned param arguments commands) (hnone : param.default = none) :
    param.name ∈ arguments.map Prod.fst := by
  induction arguments generalizing commands with
  | nil =>
      cases h with
      | omitted hdefault _ => exact absurd (hnone.symm.trans hdefault) (Option.some_ne_none _).symm
  | cons argument rest ih =>
      cases h with
      | given hname _ _ => exact hname ▸ List.mem_cons_self
      | later _ hrest => exact List.mem_cons_of_mem _ (ih hrest)

theorem ArgumentsCode.supplied {body : BodyScope} {pool : List Constant} {assigned : List String}
    {arguments : List (String × Expr)} {params : List Parameter} {commands : List Command}
    (h : ArgumentsCode body pool assigned arguments params commands) :
    ∀ param ∈ params, param.default = none → param.name ∈ arguments.map Prod.fst := by
  induction params generalizing commands with
  | nil => exact List.forall_mem_nil _
  | cons param rest ih =>
      cases h with
      | cons hparam hrest => exact List.forall_mem_cons.2 ⟨hparam.supplied, ih hrest⟩

/-! ### The code of a call -/

/-- The state is one on the way through the body of a function: its locals have their slots one
after the other, and the constants so far have positions. -/
structure Lowering.InBody (slots : List (String × StaticType)) (state : Lowering) : Prop where
  names : state.builder.outline.LaidOut slots
  bounded : state.builder.Bounded

/-- The function has what was emitted between two states of its builder: the bytes at their
offsets, and all constants. -/
structure CompiledFunction.Has (function : CompiledFunction Value)
    (before after : FunctionBuilder) : Prop where
  code : ∃ front rest, function.code.toList =
    front ++ after.code.toList.drop before.offset ++ rest ∧ front.length = before.offset
  constant : ∀ (position : Nat) (value : Scalar),
    after.constants[position]? = some (.scalar value) →
      function.constants[position]? = some (.scalar value)

namespace Lowering

variable {slots : List (String × StaticType)} {before after state : Lowering}

/-- A body begins behind the parameters and the declared locals. -/
theorem InBody.of_opens {space : String} {signature : Signature}
    (hopens : state.builder.Opens space signature slots) (hbounded : state.builder.Bounded)
    (hlimits : state.builder.overflow = none) : state.InBody slots where
  names := ⟨hopens.laidOut.count, hopens.laidOut.slot, hopens.laidOut.distinct,
    fun _ => hopens.laidOut.fits hlimits⟩
  bounded := hbounded

/-- All that the code of a part of a body may refer to. -/
theorem InBody.covers (hbody : before.InBody slots) (scope : LoweringScope)
    (pool : List Constant) :
    CodeLimits.Covers ⟨scope.signatures, pool, 0, slots.length, before.builder.returns.isSome⟩
      (scope.body before.builder.outline) where
  signatures := rfl
  valued := rfl
  slot name target hslot := (List.getElem?_eq_some_iff.1 ((hbody.names.slot name target).1 hslot)).1
  written _ _ _ := Nat.zero_le _
  few := hbody.names.fits rfl

/-- The code of a call has operands that fit. -/
theorem InBody.fits (hbody : before.InBody slots) {scope : LoweringScope} {pool : List Constant}
    {asValue : Bool} {target : CallTarget} {place : ArgumentPlace} {callee : String}
    {given : List (String × Expr)} {signature : Signature} {assigned : List String}
    {position : Nat} {commands : List Command}
    (hcall : (scope.body before.builder.outline).Calls asValue target place (given.map Prod.fst)
      callee signature)
    (harguments : ArgumentsCode (scope.body before.builder.outline) pool assigned given
      signature.params commands)
    (hpool : Holds pool position (.string callee)) :
    ∀ command ∈ commands ++ [⟨.pushConst, position⟩, ⟨.call, signature.params.length⟩],
      command.Fits := by
  have hcovers := hbody.covers scope pool
  have horderly : Orderly _ (fun _ => True) _ before.builder.offset :=
    (harguments.orderly hcovers before.builder.offset).append (hcovers.call hcall hpool _)
  exact fun command hmem => (horderly.allows command hmem).fits

/-- A call that is lowered without an error has been checked, and its code has been emitted. -/
theorem call_emits {scope : LoweringScope} {target : CallTarget} {place : ArgumentPlace}
    {arguments : Option (List (String × Expr))} {path : SourcePath}
    (hdefaults : scope.signatures.ScalarDefaults) (hbounded : before.builder.Bounded)
    (hlowered : after = lowerExpr scope (.call target place arguments) path before ∨
      after = lowerStmt scope (.call target place arguments) path before)
    (hclean : after.Clean) :
    ∃ given asValue callee signature position commands, arguments = some given ∧
      (scope.body before.builder.outline).Calls asValue target place (given.map Prod.fst) callee
        signature ∧
      ArgumentsCode (scope.body before.builder.outline) after.builder.constants.toList
        before.builder.assigned given signature.params commands ∧
      Holds after.builder.constants.toList position (.string callee) ∧
      Emits before.builder after.builder
        (commands ++ [⟨.pushConst, position⟩, ⟨.call, signature.params.length⟩]) := by
  have hwithin : Within before.builder.outline before := ⟨rfl, hbounded⟩
  rcases hlowered with rfl | rfl
  · obtain ⟨-, commands, hemits, hshape⟩ :=
      (lowerExpr_lowers before.builder.outline hdefaults _ path before).adds hwithin hclean
    obtain ⟨-, hcode⟩ := hshape _ List.prefix_rfl
    cases hcode with
    | call hcall harguments hpool => exact ⟨_, _, _, _, _, _, rfl, hcall, harguments, hpool, hemits⟩
  · obtain ⟨-, commands, hemits, hshape⟩ :=
      (lowerStmt_lowers before.builder.outline hdefaults _ path before).adds hwithin hclean
    have hcode : StmtCode _ _ _ _ _ _ _ := hshape _ List.prefix_rfl
    generalize (lowerStmt _ _ _ _).builder.assigned = assigned at hcode
    cases hcode with
    | call hcall harguments hpool => exact ⟨_, _, _, _, _, _, rfl, hcall, harguments, hpool, hemits⟩

end Lowering

/-- What was emitted can be run in the function. -/
theorem CompiledFunction.Has.loaded {function : CompiledFunction Value}
    {before after : FunctionBuilder} {commands : List Command} (h : function.Has before after)
    (hemits : Emits before after commands) (hfits : ∀ command ∈ commands, command.Fits) :
    Loaded function.code before.offset commands where
  stands := by
    obtain ⟨front, rest, hcode, hlength⟩ := h.code
    have hdrop : after.code.toList.drop before.offset = assemble commands := by
      rw [hemits.code]
      exact List.drop_left
    exact ⟨front, rest, hdrop ▸ hcode, hlength⟩
  fits := hfits

/-! ### Frames in which the code of a call runs -/

namespace Lowering.InBody

variable {slots : List (String × StaticType)} {before after : Lowering}
  {function : CompiledFunction Value} {machine : Machine σ γ} {locals : Array Value}
  {outer : List Frame}

/-- A function that runs what was emitted on the way through its body. -/
def running (hbody : before.InBody slots) (setup : Setup σ γ)
    (hhas : function.Has before.builder after.builder) (outer : List Frame)
    (begun : Machine σ γ) : Running σ γ where
  setup
  function
  pool := after.builder.constants.toList
  names := before.builder.outline
  slots
  outer
  begun
  constant position value hvalue := hhas.constant position value (by simpa using hvalue)
  laidOut := hbody.names

variable (hbody : before.InBody slots) (setup : Setup σ γ)
  (hhas : function.Has before.builder after.builder)

/-- The locals of a frame go by their names. -/
theorem running_values (outer : List Frame) (begun : Machine σ γ)
    (hlocals : locals.size = slots.length) :
    (Store.start slots locals.toList).values (hbody.running setup hhas outer begun).slots =
      locals := by
  change (Store.start slots locals.toList).values slots = locals
  rw [Store.values_start hbody.names.distinct (Nat.le_of_eq hlocals)]
  simp [hlocals]

theorem running_state
    (hframes : machine.frames = ⟨function, before.builder.offset, locals⟩ :: outer)
    (hlocals : locals.size = slots.length) :
    (hbody.running setup hhas outer machine).state before.builder.offset machine.stack
      ⟨.start slots locals.toList, machine.heap, []⟩ = machine := by
  rw [Running.state, hbody.running_values setup hhas outer machine hlocals]
  obtain ⟨frames, stack, heap, registrations, base, result, graphics, environment⟩ := machine
  cases hframes
  rfl

end Lowering.InBody

/-! ### The call itself -/

/-- Each result of a list of evaluations is that of the evaluation at its place. -/
theorem Evaluation.mapM_ok {α β : Type} {evaluate : α → Evaluation β} {items : List α}
    {heap after : Heap} {results : List β} (h : items.mapM evaluate heap = .ok results after) :
    results.length = items.length ∧ ∀ (position : Nat) (item : α), items[position]? = some item →
      ∃ result before behind, results[position]? = some result ∧
        evaluate item before = .ok result behind := by
  induction items generalizing heap results with
  | nil =>
      cases h
      exact ⟨rfl, nofun⟩
  | cons first rest ih =>
      rw [List.mapM_cons] at h
      obtain ⟨result, middle, hfirst, hrest⟩ := Evaluation.bind_ok h
      obtain ⟨others, last, hothers, hlast⟩ := Evaluation.bind_ok hrest
      cases hlast
      obtain ⟨hlength, hall⟩ := ih hothers
      refine ⟨congrArg (· + 1) hlength, fun position item hitem => ?_⟩
      cases position with
      | zero =>
          cases hitem
          exact ⟨result, heap, middle, rfl, hfirst⟩
      | succ position => exact hall position item hitem

namespace Running

variable {run : Running σ γ} {start : Nat} {values : List Value} {callee : String}
  {compiled : CompiledFunction Value}

/-- A call of a function of the program with as many arguments as it has parameters begins the
function, unless there are too many frames. -/
theorem step_call (hcode : Loaded run.function.code start [⟨.call, values.length⟩])
    (huser : Native.localName? callee = none)
    (hget : run.setup.program.get? callee = some compiled)
    (hcount : values.length = compiled.paramCount) (stack : List Value) (situation : Situation) :
    let calling := run.state start (.string callee :: (values.reverse ++ stack)) situation
    let caller := run.state (start + Opcode.call.width) stack situation
    (run.setup.callDepthLimit ≤ caller.frames.length → ∃ fault,
        Exec.step run.setup calling = .error fault caller ∧ fault.kind = .stackOverflow) ∧
      (caller.frames.length < run.setup.callDepthLimit →
        Exec.step run.setup calling =
          .ok .proceed { caller with frames := .enter compiled values :: caller.frames }) := by
  intro calling caller
  let site : Site := ⟨run.function.name, start⟩
  have hstack : calling.stack = .string callee :: (values.reverse ++ stack) := rfl
  have hstep : Exec.step run.setup calling =
      Exec.within site (Exec.callNamed run.setup site callee values) caller :=
    Exec.step_call run.setup (run.frames_state start _ situation) hcode.decode hstack
  obtain ⟨hshallow, hdeep⟩ := Exec.callNamed_function huser hget hcount caller
  refine ⟨fun h => ?_, fun h => hstep.trans (Exec.within_ok (hshallow h) site)⟩
  obtain ⟨fault, hfault, hkind⟩ := hdeep h
  exact ⟨_, hstep.trans (Exec.within_error hfault site), hkind⟩

/-- The code of a call runs as far as its arguments have values, and then begins the function. -/
theorem runs_call {signatures : SignatureTable} {assigned : List String}
    {arguments : List (String × Expr)} {params : List Parameter} {commands : List Command}
    {position : Nat}
    (harguments : ArgumentsCode ⟨signatures, run.names⟩ run.pool assigned arguments params commands)
    (hfree : areCallFree (arguments.map Prod.snd) = true)
    (hcode : Loaded run.function.code start
      (commands ++ [⟨.pushConst, position⟩, ⟨.call, params.length⟩]))
    (hpool : Holds run.pool position (.string callee)) (huser : Native.localName? callee = none)
    (hget : run.setup.program.get? callee = some compiled)
    (hcount : params.length = compiled.paramCount) (stack : List Value) (situation : Situation) :
    let first := run.state start stack situation
    match params.mapM (Parameter.evaluate situation.store arguments) situation.heap with
    | .error kind heap => run.Fails first kind { situation with heap }
    | .ok values heap =>
        let caller := run.state (start + size commands + 5) stack { situation with heap }
        (run.setup.callDepthLimit ≤ caller.frames.length →
          run.Fails first .stackOverflow { situation with heap }) ∧
        (caller.frames.length < run.setup.callDepthLimit →
          run.Comes first { caller with frames := .enter compiled values :: caller.frames }) := by
  intro first
  have hgives : run.Gives first (start + size commands)
      (fun values : List Value => values.reverse ++ stack)
      situation _ := (harguments.yields hfree hcode.left rfl stack situation).gives (goes ..)
  cases hvalues : params.mapM (Parameter.evaluate situation.store arguments) situation.heap with
  | error kind heap =>
      rw [hvalues] at hgives
      exact hgives
  | ok values heap =>
      rw [hvalues] at hgives
      let caller := run.state (start + size commands + 5) stack { situation with heap }
      have hlength := (Evaluation.mapM_ok hvalues).1
      have hpushed := gives_push hcode.right.head hpool (values.reverse ++ stack)
        { situation with heap }
      have hcall := hcode.right.tail
      rw [← hlength] at hcall hcount
      obtain ⟨hdeep, hshallow⟩ := step_call hcall huser hget hcount stack { situation with heap }
      refine ⟨fun h => ?_, fun h => ?_⟩
      · obtain ⟨fault, hstep, hkind⟩ := hdeep h
        exact .after (hgives.trans hpushed) ⟨_, fault, _, stack, .refl .., hstep, hkind⟩
      -- The frame of the callee stands above that of the caller, so the run goes on in it.
      · let entered : Machine σ γ :=
          { caller with frames := .enter compiled values :: caller.frames }
        have habove : entered.hasFramesAbove run.outer.length = true := by
          rw [hasFramesAbove_iff]
          exact Nat.lt_succ_of_lt (Nat.lt_succ_self _)
        have hentered : run.Comes _ entered :=
          ⟨1, (advance_succ (goes ..) (hshallow h) 0).trans (if_pos habove)⟩
        exact hgives.trans (hpushed.trans hentered)

end Running

/-- On its way above `base` the machine comes to an instruction that fails with a fault of the
kind, and the arrays are then as given. -/
def Machine.Faults (setup : Setup σ γ) (base : Nat) (machine : Machine σ γ) (kind : FaultKind)
    (heap : Heap) : Prop :=
  ∃ count last fault stopped, machine.advance setup base count = some last ∧
    Exec.step setup last = .error fault stopped ∧ fault.kind = kind ∧ stopped.heap = heap

theorem Running.Fails.faults {run : Running σ γ} {machine : Machine σ γ} {kind : FaultKind}
    {situation : Situation} (h : run.Fails machine kind situation) :
    machine.Faults run.setup run.outer.length kind situation.heap := by
  obtain ⟨last, fault, offset, stack, ⟨count, hlast⟩, hstep, hkind⟩ := h
  exact ⟨count, last, fault, _, hlast, hstep, hkind, rfl⟩

/-- The frame stands where its function begins. In the slot of each parameter is the value of the
argument of that name, or the default, and in all other slots is null. -/
structure Frame.Binds (store : Store) (arguments : List (String × Expr)) (params : List Parameter)
    (frame : Frame) : Prop where
  begins : frame.offset = 0
  size : frame.locals.size = frame.function.localCount
  bound : ∀ (position : Nat) (param : Parameter), params[position]? = some param →
    ∃ value before after, frame.locals[position]? = some value ∧
      param.evaluate store arguments before = .ok value after
  blank : ∀ position, params.length ≤ position → position < frame.function.localCount →
    frame.locals[position]? = some .null

theorem Frame.binds_enter {store : Store} {arguments : List (String × Expr)}
    {params : List Parameter} {heap after : Heap} {values : List Value}
    {compiled : CompiledFunction Value}
    (hvalues : params.mapM (Parameter.evaluate store arguments) heap = .ok values after)
    (hcount : params.length ≤ compiled.localCount) :
    (Frame.enter compiled values).Binds store arguments params := by
  obtain ⟨hlength, hall⟩ := Evaluation.mapM_ok hvalues
  have hslot (position : Nat) : (Frame.enter compiled values).locals[position]? =
      (values ++ List.replicate (compiled.localCount - values.length) Value.null)[position]? :=
    List.getElem?_toArray
  refine ⟨rfl, ?_, fun position param hparam => ?_, fun position hbehind hinside => ?_⟩
  · simp only [Frame.enter, List.size_toArray, List.length_append, List.length_replicate]
    omega
  · obtain ⟨value, before, behind, hvalue, hdone⟩ := hall position param hparam
    refine ⟨value, before, behind, ?_, hdone⟩
    have hposition := (List.getElem?_eq_some_iff.1 hvalue).1
    rw [hslot, List.getElem?_append_left hposition, hvalue]
  · change position < compiled.localCount at hinside
    have hrest : position - values.length < compiled.localCount - values.length := by omega
    rw [hslot, List.getElem?_append_right (by omega), List.getElem?_replicate, if_pos hrest]

/-- A call that is lowered without an error binds its arguments to the parameters that they name.
From any state of the machine its code evaluates them in the order of the parameters and fails as
one of them does, or fails because there are too many frames, or begins the callee with their
values in its slots and with the stack as it was before the first argument. -/
theorem call_binds_arguments {units : List SourceUnit} {compilation : Compilation}
    {linked : Heap} {setup : Setup σ γ} {scope : LoweringScope} {before after : Lowering}
    {slots : List (String × StaticType)} {target : CallTarget} {place : ArgumentPlace}
    {arguments : Option (List (String × Expr))} {path : SourcePath} {callee : String}
    {function : CompiledFunction Value} {machine : Machine σ γ} {locals : Array Value}
    {outer : List Frame}
    (hcompile : compileUnits units = .ok compilation)
    (hprogram : setup.program = (compilation.functions.link linked).1)
    (hscope : scope.signatures = programSignatures units) (hbody : before.InBody slots)
    (hlowered : after = lowerExpr scope (.call target place arguments) path before ∨
      after = lowerStmt scope (.call target place arguments) path before)
    (hclean : after.Clean)
    (hcallee : target.function.map (before.builder.calleeName target.space) = some callee)
    (huser : Native.localName? callee = none)
    (hfree : ∀ given, arguments = some given → areCallFree (given.map Prod.snd) = true)
    (hhas : function.Has before.builder after.builder)
    (hframes : machine.frames = ⟨function, before.builder.offset, locals⟩ :: outer)
    (hlocals : locals.size = slots.length) :
    ∃ given signature compiled, arguments = some given ∧
      scope.signatures.get? callee = some signature ∧
      setup.program.get? callee = some compiled ∧
      (∀ param ∈ signature.params, param.default = none → param.name ∈ given.map Prod.fst) ∧
      (∀ name ∈ given.map Prod.fst, name ∈ signature.params.map Parameter.name) ∧
      match signature.params.mapM (Parameter.evaluate (.start slots locals.toList) given)
        machine.heap with
      | .error kind heap => machine.Faults setup outer.length kind heap
      | .ok values heap =>
          (setup.callDepthLimit ≤ machine.frames.length →
            machine.Faults setup outer.length .stackOverflow heap) ∧
          (machine.frames.length < setup.callDepthLimit →
            (Frame.enter compiled values).Binds (.start slots locals.toList) given
              signature.params ∧
            ∃ count, machine.advance setup outer.length count = some { machine with
              frames := .enter compiled values ::
                ⟨function, after.builder.offset, locals⟩ :: outer
              heap }) := by
  have hsound := Compiler.registered_sound units
  have hdefaults : scope.signatures.ScalarDefaults := by
    rw [hscope]
    exact fun _ _ hget => (hsound.get? hget).1.scalar
  obtain ⟨given, asValue, name, signature, position, commands, rfl, hcall, harguments, hpool,
    hemits⟩ := Lowering.call_emits hdefaults hbody.bounded hlowered hclean
  have hname : name = callee := by
    obtain ⟨text, htext, rfl⟩ := hcall.named
    rw [htext] at hcallee
    exact Option.some.inj hcallee
  subst hname
  have hknown : scope.signatures.get? name = some signature := hcall.known
  obtain ⟨compiled, hget, hcount, hfits⟩ :=
    resolves_of_known hcompile hprogram (hscope ▸ hknown) huser
  have hloaded := hhas.loaded hemits (hbody.fits hcall harguments hpool)
  have hoffset : before.builder.offset + size commands + 5 = after.builder.offset := by
    rw [hemits.offset, size_append]
    rfl
  have hbegun := hbody.running_state setup hhas hframes hlocals
  have hruns := (hbody.running setup hhas outer machine).runs_call harguments (hfree given rfl)
    hloaded hpool huser hget hcount.symm machine.stack
    ⟨.start slots locals.toList, machine.heap, []⟩
  rw [hbegun, hoffset] at hruns
  refine ⟨given, signature, compiled, rfl, hknown, hget, harguments.supplied, ?_, ?_⟩
  · intro name hname
    obtain ⟨param, hparam⟩ := Option.isSome_iff_exists.1 (hcall.expected name hname)
    have hsame : param.name = name := by simpa using List.find?_some hparam
    exact hsame ▸ List.mem_map_of_mem (List.mem_of_find?_eq_some hparam)
  cases hvalues : signature.params.mapM (Parameter.evaluate (.start slots locals.toList) given)
    machine.heap with
  | error kind heap =>
      rw [hvalues] at hruns
      exact hruns.faults
  | ok values heap =>
      rw [hvalues] at hruns
      obtain ⟨hdeep, hshallow⟩ := hruns
      rw [hframes]
      refine ⟨fun h => (hdeep h).faults, fun h => ⟨Frame.binds_enter hvalues hfits, ?_⟩⟩
      obtain ⟨count, hentered⟩ := hshallow h
      refine ⟨count, hentered.trans ?_⟩
      rw [Running.state, hbody.running_values setup hhas outer machine hlocals]
      rfl

/-- A function with a default, and a call that names its arguments in another order. -/
def choosing : SourceUnit where
  id := "choosing.json"
  text := "\x7b\"namespace\": \"M\", \"functions\": [\x7b\"name\": \"pick\", \"params\":
    [\x7b\"name\": \"a\"\x7d, \x7b\"name\": \"b\", \"default\": 7\x7d, \x7b\"name\":
    \"c\"\x7d], \"locals\": [\x7b\"name\": \"t\", \"type\": \"int\"\x7d], \"body\":
    []\x7d, \x7b\"name\": \"main\", \"body\": [\x7b\"call\": \x7b\"function\":
    \"pick\"\x7d, \"args\": \x7b\"c\": 3, \"a\": 1\x7d\x7d]\x7d]\x7d"

/-- The arguments of the call in `choosing`. -/
def choosingArguments : List (String × Expr) := [("c", .int 3), ("a", .int 1)]

/-- The state in which the body of the function that calls begins. -/
def choosingStart : Lowering := ⟨Compiler.startFunction "M" ⟨"M.main", [], none⟩, {}⟩

/-- The state after the call in `choosing`. -/
def choosingEnd (signatures : SignatureTable) : Lowering :=
  lowerStmt ⟨signatures, nowhere⟩
    (.call ⟨[], none, some "pick"⟩ .beside (some choosingArguments)) .root choosingStart

/-- Whether the call is lowered without an error to code that the function has, and its arguments
have the given values. -/
def choosesTo (signatures : SignatureTable) (functions : FunctionTable Constant)
    (values : List Value) : Bool :=
  let after := choosingEnd signatures
  !after.diagnostics.hasErrors && after.builder.overflow.isNone &&
    ((functions.get? "M.main").any fun main =>
      main.code.toList = after.builder.code.toList ++ [Opcode.halt.byte] &&
        main.constants.size = after.builder.constants.size &&
        (main.constants.toList.zip after.builder.constants.toList).all fun pair =>
          pair.1.identicalTo pair.2) &&
    ((functions.get? "M.pick").any (·.localCount = 4)) &&
    (signatures.get? "M.pick").any fun signature =>
      match signature.params.mapM (Parameter.evaluate (.start [] []) choosingArguments) {} with
      | .ok found _ => found = values
      | .error _ _ => false

/-- Constants that are the same in two pools. -/
theorem getElem?_of_identical {first second : List Constant}
    (hlength : first.length = second.length)
    (hsame : (first.zip second).all (fun pair => pair.1.identicalTo pair.2) = true)
    {position : Nat} {value : Scalar} (hvalue : second[position]? = some (.scalar value)) :
    first[position]? = some (.scalar value) := by
  obtain ⟨hposition, heq⟩ := List.getElem?_eq_some_iff.1 hvalue
  have hpair : (first[position], second[position]) ∈ first.zip second :=
    List.mem_iff_getElem.2 ⟨position, by simp [hlength, hposition], by simp⟩
  have hidentical : first[position].identicalTo second[position] = true :=
    List.all_eq_true.1 hsame _ hpair
  rw [heq] at hidentical
  rw [List.getElem?_eq_getElem (hlength ▸ hposition), identicalTo_scalar hidentical]

set_option maxRecDepth 100000 in
theorem choosing_binds : ∃ (setup : Setup Transcript HeadlessGraphics)
    (machine entered : Machine Transcript HeadlessGraphics) (count : Nat) (frame : Frame),
    machine.stack = [.bool true] ∧ machine.advance setup 0 count = some entered ∧
      entered.stack = [.bool true] ∧ entered.frames.head? = some frame ∧ frame.offset = 0 ∧
      frame.locals = #[.int 1, .int 7, .int 3, .null] := by
  obtain ⟨compilation, entries, hcompile, -, hcheck⟩ := exists_of_compilesTo choosing
    (fun _ signatures compilation =>
      choosesTo signatures compilation.functions [.int 1, .int 7, .int 3]) rfl (by decide +kernel)
  -- What the text means stays abstract: nothing below may run the compiler.
  generalize hknows : programSignatures [choosing] = signatures at hcheck
  simp only [choosesTo, Bool.and_eq_true, Bool.not_eq_true', Option.isNone_iff_eq_none,
    Option.any_eq_true, decide_eq_true_eq] at hcheck
  generalize hafter : choosingEnd signatures = after at hcheck
  obtain ⟨⟨⟨⟨hclean, hlimits⟩, main, hmain, ⟨hcode, hsize⟩, hconstants⟩, pick, hpick, hcount⟩,
    signature, hsignature, hvalues⟩ := hcheck
  obtain ⟨_, _, -, ⟨made⟩⟩ := translation_of_mem hcompile (FunctionTable.mem_of_get? hmain).1
  have hlinks := (link_scalars made.wellFormed.scalar {}).2
  generalize (main.link {}).1 = function at hlinks
  obtain ⟨setup, hprogram, hdepth⟩ : ∃ setup : Setup Transcript HeadlessGraphics,
      setup.program = (compilation.functions.link {}).1 ∧ setup.callDepthLimit = 128 :=
    ⟨.printing (compilation.functions.link {}).1, rfl, rfl⟩
  let machine : Machine Transcript HeadlessGraphics :=
    { frames := [⟨function, 0, #[]⟩]
      stack := [.bool true], heap := {}, graphics := .absent, environment := {} }
  have hbody : choosingStart.InBody [] :=
    .of_opens (opens_startFunction "M" ⟨"M.main", [], none⟩ List.nodup_nil)
      (Compiler.bounded_startFunction "M" ⟨"M.main", [], none⟩) rfl
  have hhas : function.Has choosingStart.builder after.builder := by
    refine ⟨⟨[], [Opcode.halt.byte], ?_, rfl⟩, fun position value hvalue => ?_⟩
    · have hzero : choosingStart.builder.offset = 0 := rfl
      rw [hlinks.code, hcode, hzero, List.drop_zero, List.nil_append]
    · refine hlinks.constant position value
        (getElem?_of_identical (by simpa using hsize) hconstants ?_)
      simpa using hvalue
  have hfree : ∀ given, some choosingArguments = some given →
      areCallFree (given.map Prod.snd) = true := by
    rintro given ⟨⟩
    rfl
  let scope : LoweringScope := ⟨signatures, nowhere⟩
  let call := Stmt.call ⟨[], none, some "pick"⟩ .beside (some choosingArguments)
  have hlowered : after = lowerExpr scope
        (.call ⟨[], none, some "pick"⟩ .beside (some choosingArguments)) .root choosingStart ∨
      after = lowerStmt scope call .root choosingStart := .inr hafter.symm
  have hcallee : (some "pick").map (choosingStart.builder.calleeName none) = some "M.pick" := rfl
  have huser : Native.localName? "M.pick" = none := by decide
  have hframes : machine.frames = ⟨function, choosingStart.builder.offset, #[]⟩ :: [] := rfl
  obtain ⟨given, known, compiled, hgiven, hknown, hget, -, -, hbinds⟩ :=
    call_binds_arguments hcompile hprogram hknows.symm hbody hlowered ⟨hclean, hlimits⟩ hcallee
      huser hfree hhas hframes rfl
  cases hgiven
  cases hsignature.symm.trans hknown
  rw [hprogram, link_get? hcompile, hpick] at hget
  cases hget
  change match signature.params.mapM (Parameter.evaluate (.start [] []) choosingArguments) {} with
    | .error kind heap => _
    | .ok values heap => _ at hbinds
  cases hresult :
    signature.params.mapM (Parameter.evaluate (.start [] []) choosingArguments) {} with
  | error kind heap =>
      rw [hresult] at hvalues
      cases hvalues
  | ok values heap =>
      rw [hresult] at hvalues hbinds
      cases of_decide_eq_true hvalues
      have hshallow : machine.frames.length < setup.callDepthLimit := by
        rw [hdepth]
        exact (by decide : 1 < 128)
      obtain ⟨-, count, hentered⟩ := hbinds.2 hshallow
      refine ⟨setup, machine, _, count, _, rfl, hentered, rfl, rfl, rfl, ?_⟩
      have hlocals : (Frame.enter (pick.link {}).1 [.int 1, .int 7, .int 3]).locals =
          ([Value.int 1, .int 7, .int 3] ++
            List.replicate (pick.localCount - 3) Value.null).toArray := rfl
      rw [hlocals, hcount]
      rfl

end DocScript
