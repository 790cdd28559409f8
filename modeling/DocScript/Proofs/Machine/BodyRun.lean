import DocScript.Proofs.Machine.ExprRun

/-! # Runs of bodies

The code of statements without calls goes the way that their structured reading goes.
If the reading comes to an end, then the run comes to the end of the code, to a return
or to a fault in the same situation. If loops go on too long for it, then the run takes
as many steps and still goes on, or it comes to a computation without an end.
-/

namespace DocScript

open Command FunctionBuilder

/-! ### Locals by their names -/

theorem lookup_of_getElem? {slots : List (String × StaticType)}
    (hdistinct : (slots.map Prod.fst).Nodup) {position : Nat} {name : String} {type : StaticType}
    (hslot : slots[position]? = some (name, type)) : slots.lookup name = some type := by
  induction slots generalizing position with
  | nil => simp at hslot
  | cons slot rest ih =>
      rw [List.map_cons, List.nodup_cons] at hdistinct
      cases position with
      | zero =>
          cases hslot
          simp
      | succ position =>
          rw [List.getElem?_cons_succ] at hslot
          have hmem : name ∈ rest.map Prod.fst :=
            List.mem_map.2 ⟨_, List.mem_of_getElem? hslot, rfl⟩
          have hother : ¬ name = slot.1 := fun h => hdistinct.1 (h ▸ hmem)
          have hfirst : (name == slot.1) = false := by simpa using hother
          rw [List.lookup_cons, hfirst]
          exact ih hdistinct.2 hslot

/-- Storing in the slot of a name is giving the name a value. -/
theorem Store.values_set (store : Store) {slots : List (String × StaticType)}
    (hdistinct : (slots.map Prod.fst).Nodup) {position : Nat} {name : String} {type : StaticType}
    (hslot : slots[position]? = some (name, type)) (value : Value) :
    (store.values slots).setIfInBounds position value = (store.set name value).values slots := by
  have hlist : (slots.map fun slot => store slot.1).set position value =
      slots.map fun slot => store.set name value slot.1 := by
    induction slots generalizing position with
    | nil => rfl
    | cons slot rest ih =>
        rw [List.map_cons, List.nodup_cons] at hdistinct
        -- The names are distinct, so no slot before or behind the position has the name.
        cases position with
        | zero =>
            cases hslot
            have hrest : ∀ other ∈ rest, store other.1 = store.set name value other.1 := by
              intro other hother
              have hname : ¬ other.1 = name := fun h =>
                hdistinct.1 (List.mem_map.2 ⟨other, hother, h⟩)
              rw [Store.set, if_neg hname]
            simp only [List.map_cons, List.set_cons_zero, Store.set, if_true,
              List.map_congr_left hrest]
        | succ position =>
            rw [List.getElem?_cons_succ] at hslot
            have hname : ¬ slot.1 = name := fun h =>
              hdistinct.1 (List.mem_map.2 ⟨_, List.mem_of_getElem? hslot, h.symm⟩)
            rw [List.map_cons, List.map_cons, List.set_cons_succ, ih hdistinct.2 hslot, Store.set,
              if_neg hname]
  rw [Store.values, List.setIfInBounds_toArray, hlist]
  rfl

theorem size_store (target : LocalSlot) : size [target.store] = 3 := by
  unfold LocalSlot.store LocalSlot.storeOp
  split <;> rfl

/-- A store into a local is carried out with what the local makes of the value. -/
theorem Running.stores (run : Running σ γ) {name : String} {target : LocalSlot} {start : Nat}
    (hcode : Loaded run.function.code start [target.store])
    (hslot : run.names.slot? name = some target) (value : Value) (stack : List Value)
    (situation : Situation) :
    match target.type.stores value with
    | .ok stored => (run.state start (value :: stack) situation).CarriesOut run.setup [target.store]
        (run.state (start + 3) stack { situation with store := situation.store.set name stored })
    | .error kind => ∃ fault, (run.state start (value :: stack) situation).Breaks run.setup
        [target.store] fault (run.state (start + 3) stack situation) ∧ fault.kind = kind := by
  have hentry := (run.laidOut.slot name target).1 hslot
  have hset := situation.store.values_set run.laidOut.distinct hentry
  have hbound : target.slot < (situation.store.values run.slots).size := by
    obtain ⟨hlt, -⟩ := List.getElem?_eq_some_iff.1 hentry
    simpa [Store.values] using hlt
  have hfaces : (run.state start (value :: stack) situation).Faces target.store
      ⟨run.function, start, situation.store.values run.slots⟩ run.outer := ⟨rfl, hcode.decode⟩
  have hframes := run.frames_state (start + 3) (value :: stack) situation
  have hstep := step_state hcode (value :: stack) situation
  unfold StaticType.stores
  -- A slot of type int has an instruction of its own, which converts floats and refuses the rest.
  by_cases htype : target.type = .int
  · have hop : target.store = ⟨.storeLocalInt, target.slot⟩ := by
      rw [LocalSlot.store, LocalSlot.storeOp, if_pos htype]
    rw [if_pos htype]
    rw [hop] at hstep hfaces ⊢
    cases hnumber : value.int? with
    | some number =>
        have hstore := Exec.storeLocalInt_eq rfl hnumber hframes hbound
        rw [hset] at hstore
        exact .next hfaces (hstep.trans (Exec.proceeding_ok hstore)) rfl (.done _)
    | none =>
        have hstack : (run.state (start + 3) (value :: stack) situation).stack = value :: stack :=
          rfl
        have hstore := Exec.storeLocalInt_error hstack hnumber target.slot
        exact ⟨_, .here hfaces (hstep.trans (Exec.proceeding_error hstore)), rfl⟩
  · have hop : target.store = ⟨.storeLocal, target.slot⟩ := by
      rw [LocalSlot.store, LocalSlot.storeOp, if_neg htype]
    rw [if_neg htype]
    rw [hop] at hstep hfaces ⊢
    have hstore := Exec.storeLocal_eq rfl hframes hbound
    rw [hset] at hstore
    exact .next hfaces (hstep.trans (Exec.proceeding_ok hstore)) rfl (.done _)

namespace Activation

open Running

variable (run : Activation σ γ)

/-- At the offset the function returns, with or without a value. -/
def Returns (offset : Nat) (value : Option Value) : Prop :=
  Instruction.decode? run.function.code offset =
    some (.operation (if value.isSome then .ret else .halt) 0)

/-- The run makes the progress that the structured reading makes. If that runs for too long, then
the run takes more steps than the fuel would allow, or it comes to a computation without an end. -/
def Meets (fuel : Nat) (first : Machine σ γ) (finish : Nat) (stack : List Value) : Progress → Prop
  | none =>
      (∃ count last, fuel ≤ count ∧
        first.advance run.setup run.outer.length count = some last) ∨
      ∃ situation, run.Fails first .endless situation
  | some (.next, situation) => run.Comes first (run.state finish stack situation)
  | some (.returned value, situation) => ∃ offset, run.Returns offset value ∧
      run.Comes first (run.state offset (value.toList ++ stack) situation)
  | some (.faulted kind, situation) => kind ≠ .endless ∧ run.Fails first kind situation

variable {run : Activation σ γ} {situation : Situation} {fuel more start middle finish : Nat}
  {stack : List Value} {first between : Machine σ γ} {progress : Progress} {command : Command}

/-- What fails in a run has failed in the reading, unless it has no end. -/
theorem Meets.failing {kind : FaultKind} (h : run.Fails first kind situation) :
    run.Meets fuel first finish stack (situation.failing kind) := by
  unfold Situation.failing
  by_cases hkind : kind = .endless
  · rw [if_pos hkind]
    exact .inr ⟨situation, hkind ▸ h⟩
  · rw [if_neg hkind]
    exact ⟨hkind, h⟩

theorem Meets.mono (hfuel : fuel ≤ more) (h : run.Meets more first finish stack progress) :
    run.Meets fuel first finish stack progress := by
  match progress with
  | none =>
      refine h.imp_left fun ⟨count, last, hcount, hlast⟩ => ?_
      exact ⟨count, last, Nat.le_trans hfuel hcount, hlast⟩
  | some (.next, _) => exact h
  | some (.returned _, _) => exact h
  | some (.faulted _, _) => exact h

theorem Meets.after (hcomes : run.Comes first between)
    (h : run.Meets fuel between finish stack progress) :
    run.Meets fuel first finish stack progress := by
  match progress with
  | none =>
      rcases h with ⟨count, last, hcount, hlast⟩ | ⟨situation, hfails⟩
      · obtain ⟨steps, hsteps⟩ := hcomes
        exact .inl ⟨steps + count, last, Nat.le_add_left_of_le hcount,
          (advance_add hsteps count).trans hlast⟩
      · exact .inr ⟨situation, hfails.after hcomes⟩
  | some (.next, _) => exact hcomes.trans h
  | some (.returned value, _) =>
      obtain ⟨offset, hreturns, hlast⟩ := h
      exact ⟨offset, hreturns, hcomes.trans hlast⟩
  | some (.faulted _, _) => exact ⟨h.1, h.2.after hcomes⟩

/-- A step is taken before the rest of the run. -/
theorem Meets.step (hstep : Exec.step run.setup (run.state start stack situation) =
      .ok .proceed (run.state middle stack situation))
    (h : run.Meets fuel (run.state middle stack situation) finish stack progress) :
    run.Meets (fuel + 1) (run.state start stack situation) finish stack progress := by
  have hcomes : run.Comes (run.state start stack situation) (run.state middle stack situation) :=
    comes_of_step hstep
  match progress with
  | none =>
      rcases h with ⟨count, last, hcount, hlast⟩ | ⟨situation, hfails⟩
      · exact .inl ⟨count + 1, last, Nat.succ_le_succ hcount,
          (advance_succ (goes ..) hstep count).trans hlast⟩
      · exact .inr ⟨situation, hfails.after hcomes⟩
  | some (.next, _) => exact Meets.after hcomes h
  | some (.returned _, _) => exact Meets.after hcomes h
  | some (.faulted _, _) => exact Meets.after hcomes h

/-- What follows runs where the code before it ends. -/
theorem Meets.andThen {following : Situation → Progress}
    (h : run.Meets fuel first middle stack progress)
    (hnext : ∀ situation, run.Meets fuel (run.state middle stack situation) finish stack
      (following situation)) :
    run.Meets fuel first finish stack (progress.andThen following) := by
  match progress with
  | none => exact h
  | some (.next, situation) => exact (hnext situation).after h
  | some (.returned _, _) => exact h
  | some (.faulted _, _) => exact h

/-- Code that ends at one offset may go on to another one. -/
theorem Meets.further (h : run.Meets fuel first middle stack progress)
    (hcomes : ∀ situation,
      run.Comes (run.state middle stack situation) (run.state finish stack situation)) :
    run.Meets fuel first finish stack progress := by
  match progress with
  | none => exact h
  | some (.next, situation) => exact Comes.trans h (hcomes situation)
  | some (.returned _, _) => exact h
  | some (.faulted _, _) => exact h

/-- What goes on with the value of an expression finds it on the stack. -/
theorem Meets.evaluating {below : List Value} {expr : Expr} {next : Value → Situation → Progress}
    (h : run.Gives first middle (· :: below) situation
      (expr.evaluate situation.store situation.heap))
    (hnext : ∀ value heap, run.Meets fuel
      (run.state middle (value :: below) { situation with heap }) finish stack
      (next value { situation with heap })) :
    run.Meets fuel first finish stack (situation.evaluating expr next) := by
  unfold Situation.evaluating
  cases hresult : expr.evaluate situation.store situation.heap with
  | ok value heap =>
      rw [hresult] at h
      exact (hnext value heap).after h
  | error kind heap =>
      rw [hresult] at h
      exact .failing h

/-! ### Single instructions -/

theorem step_jump {target : Nat} (hcode : Loaded run.function.code start [⟨.jmp, target⟩])
    (htarget : target ≤ run.function.code.size) (stack : List Value) (situation : Situation) :
    Exec.step run.setup (run.state start stack situation) =
      .ok .proceed (run.state target stack situation) := by
  have hjump := Exec.jump_eq htarget (run.frames_state (start + 3) stack situation)
  exact (step_state hcode stack situation).trans (Exec.proceeding_ok hjump)

/-- A branch goes on behind it if the condition holds, and elsewhere if not. -/
theorem comes_branch {target : Nat} (hcode : Loaded run.function.code start [⟨.jmpIfFalse, target⟩])
    (htarget : target ≤ run.function.code.size) (value : Value) (stack : List Value)
    (situation : Situation) :
    run.Comes (run.state start (value :: stack) situation)
      (run.state (if value.holds then start + 3 else target) stack situation) := by
  have hframes := run.frames_state (start + 3) (value :: stack) situation
  have hjump := Exec.jumpIfFalse_eq htarget rfl hframes
  have hstep := (step_state hcode _ situation).trans (Exec.proceeding_ok hjump)
  by_cases hholds : value.holds = true
  · rw [if_pos hholds] at hstep ⊢
    exact comes_of_step hstep
  · rw [if_neg hholds] at hstep ⊢
    exact comes_of_step hstep

/-- A value is printed if it has a text, and otherwise printing it has no end. -/
theorem meets_print (hcode : Loaded run.function.code start [⟨.print, 0⟩]) (fuel : Nat)
    (value : Value) (stack : List Value) (situation : Situation) :
    run.Meets fuel (run.state start (value :: stack) situation) (start + 1) stack
      (situation.printing value) := by
  let site : Site := ⟨run.function.name, start⟩
  let moved := run.state (start + 1) (value :: stack) situation
  have hstack : moved.stack = value :: stack := rfl
  have hexecute : Exec.execute run.setup site run.function 0 .print moved =
      (Exec.print run.setup site >>= fun _ => pure .proceed : Exec σ γ (Signal γ)) moved := rfl
  have hstep := (step_state hcode (value :: stack) situation).trans hexecute
  unfold Situation.printing
  rw [Exec.bind_eq] at hstep
  cases htext : situation.heap.text? value with
  | none =>
      rw [Exec.print_endless run.setup hstack htext site] at hstep
      exact .inr ⟨situation, _, _, start + 1, stack, .refl .., hstep, rfl⟩
  | some text =>
      have hprint := run.accepts.print text moved.environment
      have hafter : run.state (start + 1) stack
          { situation with lines := situation.lines ++ [text] } =
          { moved with stack, environment := run.setup.afterPrint moved.environment text } := by
        unfold state
        rw [List.foldl_append]
        rfl
      rw [Exec.print_eq hstack htext hprint site, ← hafter] at hstep
      exact comes_of_step hstep

/-- Storing into a local is what an assignment does with its value. -/
theorem meets_store {name : String} {target : LocalSlot}
    (hcode : Loaded run.function.code start [target.store])
    (hslot : run.names.slot? name = some target) (fuel : Nat) (value : Value) (stack : List Value)
    (situation : Situation) :
    run.Meets fuel (run.state start (value :: stack) situation) (start + 3) stack
      (situation.assign (some target.type) name value) := by
  have hstores := run.stores hcode hslot value stack situation
  rw [Situation.assign_eq]
  cases hstored : target.type.stores value with
  | ok stored =>
      rw [hstored] at hstores
      exact ⟨_, hstores.advance (goes ..)⟩
  | error kind =>
      rw [hstored] at hstores
      obtain ⟨fault, hbreaks, hkind⟩ := hstores
      obtain ⟨count, last, hlast, hstep⟩ := hbreaks.advance (goes ..)
      exact .failing ⟨last, fault, _, stack, ⟨count, hlast⟩, hstep, hkind⟩

theorem meets_changing {result : Except FaultKind Heap}
    (h : run.Gives first finish (fun _ => stack) situation (Exec.changed result situation.heap)) :
    run.Meets fuel first finish stack (situation.changing result) := by
  cases result with
  | ok heap => exact h
  | error kind => exact .failing h

/-! ### Branches and loops -/

/-- A branch tests its condition and goes one way or the other. -/
theorem meets_branch {condition : Expr} {whenTrue whenFalse : Situation → Progress} {target : Nat}
    (htest : run.Gives first middle (· :: stack) situation
      (condition.evaluate situation.store situation.heap))
    (hbranch : Loaded run.function.code middle [⟨.jmpIfFalse, target⟩])
    (htarget : target ≤ run.function.code.size)
    (htrue : ∀ situation, run.Meets fuel (run.state (middle + 3) stack situation) finish stack
      (whenTrue situation))
    (hfalse : ∀ situation, run.Meets fuel (run.state target stack situation) finish stack
      (whenFalse situation)) :
    run.Meets fuel first finish stack (situation.evaluating condition fun value situation =>
      if value.holds then whenTrue situation else whenFalse situation) := by
  refine Meets.evaluating htest fun value heap => ?_
  have hcomes := comes_branch hbranch htarget value stack { situation with heap }
  by_cases hholds : value.holds = true
  · simp only [if_pos hholds] at hcomes ⊢
    exact Meets.after hcomes (htrue _)
  · simp only [if_neg hholds] at hcomes ⊢
    exact Meets.after hcomes (hfalse _)

/-- A loop tests its condition before every round and goes back behind its body. -/
theorem meets_repeating {condition : Expr} {body : Situation → Progress} {back : Nat}
    (htest : ∀ situation, run.Gives (run.state start stack situation) middle (· :: stack) situation
      (condition.evaluate situation.store situation.heap))
    (hbranch : Loaded run.function.code middle [⟨.jmpIfFalse, finish⟩])
    (hfinish : finish ≤ run.function.code.size)
    (hbody : ∀ situation, run.Meets fuel (run.state (middle + 3) stack situation) back stack
      (body situation))
    (hjump : Loaded run.function.code back [⟨.jmp, start⟩])
    (hstart : start ≤ run.function.code.size) {times : Nat} (htimes : times ≤ fuel)
    (situation : Situation) :
    run.Meets times (run.state start stack situation) finish stack
      (situation.repeating condition body times) := by
  induction times generalizing situation with
  | zero => exact .inl ⟨0, _, Nat.le_refl 0, if_pos (goes start stack situation)⟩
  | succ times ih =>
      refine meets_branch (htest situation) hbranch hfinish (fun situation => ?_)
        fun situation => .refl finish stack situation
      -- The jump back is the step by which a round uses up its share of the fuel.
      exact ((hbody situation).mono htimes).andThen fun situation =>
        Meets.step (step_jump hjump hstart stack situation)
          (ih (Nat.le_of_succ_le htimes) situation)

end Activation

/-! ### Statements -/

open Running Activation

variable {run : Activation σ γ} {signatures : SignatureTable}

mutual

/-- The code of a statement goes the way of the statement. -/
theorem StmtCode.meets {assigned after : List String} {start finish : Nat} {stmt : Stmt}
    {commands : List Command}
    (h : StmtCode ⟨signatures, run.names⟩ run.pool assigned start stmt commands after)
    (hstructured : stmt.isStructured = true) (hcode : Loaded run.function.code start commands)
    (hfinish : finish = start + size commands) (fuel : Nat) (stack : List Value)
    (situation : Situation) :
    run.Meets fuel (run.state start stack situation) finish stack
      (stmt.execute run.slots fuel situation) := by
  have hbranching : Opcode.width .jmpIfFalse = 3 := rfl
  have hjumping : Opcode.width .jmp = 3 := rfl
  -- Every jump of the statement stays at or before its end, which lies in the code.
  have hbound : finish ≤ run.function.code.size := hfinish ▸ hcode.stands.size_le
  match h with
  | .overfull hstmt => exact StmtCode.meets hstmt hstructured hcode hfinish fuel stack situation
  | .assign hwrite _ hpointer haccepts hvalue =>
      have hlookup := lookup_of_getElem? run.laidOut.distinct ((run.laidOut.slot _ _).1 hwrite.2)
      have hgives := hvalue.gives hstructured hcode.left rfl stack situation
      rw [size_append, ← Nat.add_assoc, size_store] at hfinish
      unfold Stmt.execute
      simp only [hlookup]
      split
      next pointee htype =>
        have hno := hpointer rfl
        rw [Option.some.inj htype] at hno
        cases hno
      next =>
        subst hfinish
        refine Meets.evaluating hgives fun value heap => ?_
        exact meets_store hcode.right hwrite.2 fuel value stack { situation with heap }
  | .assignNull hwrite _ htype hpool =>
      have hlookup := lookup_of_getElem? run.laidOut.distinct ((run.laidOut.slot _ _).1 hwrite.2)
      have hpush := gives_push hcode.head hpool stack situation
      have hstore (value : Value) := meets_store hcode.tail hwrite.2 fuel value stack situation
      rw [htype] at hlookup hstore
      rw [size_cons, ← Nat.add_assoc, size_store] at hfinish
      subst hfinish
      unfold Stmt.execute
      simp only [hlookup]
      exact (hstore _).after hpush
  | .print hvalue =>
      have hgives := hvalue.gives hstructured hcode.left rfl stack situation
      rw [size_append, ← Nat.add_assoc] at hfinish
      subst hfinish
      unfold Stmt.execute
      refine Meets.evaluating hgives fun value heap => ?_
      exact meets_print hcode.right fuel value stack { situation with heap }
  | .branch hcondition htrue htarget _ =>
      simp only [Stmt.isStructured, fieldIsStructured, Bool.and_eq_true] at hstructured
      simp only [size_append, size_cons, hbranching] at hfinish
      have hend : finish = _ := Eq.trans (by omega) htarget.symm
      rw [hend] at hbound ⊢
      have htest := hcondition.gives hstructured.1.1 hcode.left rfl stack situation
      have htrue := BlockCode.meets htrue hstructured.1.2 hcode.right.tail htarget fuel stack
      unfold Stmt.execute
      exact meets_branch htest hcode.right.head hbound htrue fun situation =>
        Comes.refl _ stack situation
  | .branchElse hcondition htrue hmiddle hfalse htarget _ =>
      simp only [Stmt.isStructured, fieldIsStructured, Bool.and_eq_true] at hstructured
      simp only [size_append, size_cons, hbranching, hjumping] at hfinish
      have hend : finish = _ := Eq.trans (by omega) htarget.symm
      rw [hend] at hbound ⊢
      have htest := hcondition.gives hstructured.1.1 hcode.left rfl stack situation
      have hinner := hcode.right.tail
      have hsecond := hinner.right.tail
      have htrue := BlockCode.meets htrue hstructured.1.2 hinner.left rfl fuel stack
      have hfalse := BlockCode.meets hfalse hstructured.2 (hmiddle ▸ hsecond) htarget fuel stack
      unfold Stmt.execute
      refine meets_branch htest hcode.right.head (by omega) (fun situation => ?_) hfalse
      exact (htrue situation).further fun situation =>
        comes_of_step (step_jump hinner.right.head hbound stack situation)
  | .loop hcondition hbody htarget _ =>
      simp only [Stmt.isStructured, fieldIsStructured, Bool.and_eq_true] at hstructured
      simp only [size_append, size_cons, size_nil, hbranching, hjumping] at hfinish
      have hend : finish = _ := Eq.trans (by omega) htarget.symm
      rw [hend] at hbound ⊢
      have htest := hcondition.gives hstructured.1 hcode.left rfl stack
      have hinner := hcode.right.tail
      have hbody := BlockCode.meets hbody hstructured.2 hinner.left rfl fuel stack
      unfold Stmt.execute
      exact meets_repeating htest hcode.right.head hbound hbody hinner.right (by omega)
        (Nat.le_refl fuel) situation
  | .setElement hread _ hindex hvalue =>
      simp only [Stmt.isStructured, Bool.and_eq_true] at hstructured
      have hload := gives_load hcode.head hread.1.1 stack situation
      have hinner := hcode.tail
      have hindex (array : Value) := hindex.gives hstructured.1 hinner.left rfl (array :: stack)
        situation
      have hvalue (index array : Value) := hvalue.gives hstructured.2 hinner.right.left rfl
        (index :: array :: stack)
      unfold Stmt.execute
      refine Meets.after hload (Meets.evaluating (hindex _) fun index heap => ?_)
      refine Meets.evaluating (hvalue index _ _) fun value heap => meets_changing ?_
      refine gives_of_performs hinner.right.right ?_ (Exec.performs_arraySet rfl).proceeding
      rw [hfinish]
      simp only [size_append, size_cons, size_nil, Nat.add_assoc, Nat.add_zero]
  | .pushElement hread _ hvalue =>
      have hload := gives_load hcode.head hread.1.1 stack situation
      have hvalue (array : Value) := hvalue.gives hstructured hcode.tail.left rfl
        (array :: stack) situation
      unfold Stmt.execute
      refine Meets.after hload (Meets.evaluating (hvalue _) fun value heap => meets_changing ?_)
      refine gives_of_performs hcode.tail.right ?_ (Exec.performs_arrayPush rfl).proceeding
      rw [hfinish]
      simp only [size_append, size_cons, size_nil, Nat.add_assoc, Nat.add_zero]
  | .giveBack _ hnull _ hvalue =>
      have hgives := hvalue.gives hstructured hcode.left rfl stack situation
      rw [Stmt.execute_giveBack hnull]
      refine Meets.evaluating hgives fun value heap => ?_
      exact ⟨_, hcode.right.decode, .refl ..⟩
  | .giveBackNothing _ => exact ⟨_, hcode.decode, Comes.refl start stack situation⟩
  | .call _ _ _ | .subscribe _ _ _ | .foreign _ | .foreignInto _ _ _ | .allocate _ _ _
  | .writeMemory _ _ _ _ _ | .readMemory _ _ _ _ _ | .release _ => cases hstructured

/-- The code of statements goes their way, one after the other. -/
theorem BlockCode.meets {assigned after : List String} {start finish : Nat} {stmts : List Stmt}
    {commands : List Command}
    (h : BlockCode ⟨signatures, run.names⟩ run.pool assigned start stmts commands after)
    (hstructured : blockIsStructured stmts = true)
    (hcode : Loaded run.function.code start commands) (hfinish : finish = start + size commands)
    (fuel : Nat) (stack : List Value) (situation : Situation) :
    run.Meets fuel (run.state start stack situation) finish stack
      (blockExecute run.slots fuel stmts situation) := by
  subst hfinish
  match h with
  | .nil => exact Comes.refl start stack situation
  | .cons hstmt hrest =>
      simp only [blockIsStructured, Bool.and_eq_true] at hstructured
      unfold blockExecute
      rw [size_append, ← Nat.add_assoc]
      have hfirst := StmtCode.meets hstmt hstructured.1 hcode.left rfl fuel stack situation
      exact hfirst.andThen fun situation =>
        BlockCode.meets hrest hstructured.2 hcode.right rfl fuel stack situation

end

end DocScript
