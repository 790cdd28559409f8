import DocScript.Proofs.Compile.ExprLowering

/-! # Lowering statements emits their code

Lowering a statement or a block that ends clean adds exactly the commands that it stands
for. A jump is emitted before its target is known, so its code is complete only when the
code behind it is.
-/

namespace DocScript

open Command FunctionBuilder Lowering

namespace Shape

variable (body : BodyScope)

def stmt (stmt : Stmt) : Shape := fun assigned start pool commands assigned' =>
  StmtCode body pool assigned start stmt commands assigned'

def block (stmts : List Stmt) : Shape := fun assigned start pool commands assigned' =>
  BlockCode body pool assigned start stmts commands assigned'

/-- The code of a block that must be there. -/
def given (stmts : Field (List Stmt)) : Shape := fun assigned start pool commands assigned' =>
  ∃ listed, stmts = .given listed ∧ block body listed assigned start pool commands assigned'

/-- The store of a result into the local that is named for it. -/
def into (target : Field String) : Shape := fun assigned _ _ commands assigned' =>
  ∃ name slot, target = .given name ∧ body.Writes name slot ∧ commands = [slot.store] ∧
    assigned' = marked assigned name

end Shape

theorem Lowering.Lowers.given {names : FunctionBuilder} {before after : Lowering}
    {body : BodyScope} {stmts : List Stmt} (h : Lowers names before after (.block body stmts)) :
    Lowers names before after (.given body (.given stmts)) :=
  h.mono fun _ _ _ hcode => ⟨stmts, rfl, hcode⟩

namespace LoweringScope

variable {scope : LoweringScope} {names : FunctionBuilder} {state : Lowering} {path : SourcePath}
  {name : String}

/-! ### Assignments -/

theorem requireTarget_lowers {next : LocalSlot → Lowering → Lowering} {shape : Shape}
    (hnext : ∀ target, (scope.body names).Writes name target →
      Lowers names state (next target state) shape) :
    Lowers names state (scope.requireTarget name path next state) shape := by
  refine .assuming fun hwithin => ?_
  unfold requireTarget
  rw [slot?_of_within hwithin, isParam_of_within hwithin]
  split
  next => exact report_lowers _
  next hparam =>
    split
    next => exact report_lowers _
    next target hslot => exact hnext target ⟨Bool.not_eq_true _ ▸ hparam, hslot⟩

theorem storeInto_lowers {into : Field String} :
    Lowers names state (scope.storeInto into path state) (.into (scope.body names) into) := by
  cases into with
  | given name =>
      unfold storeInto
      refine requireTarget_lowers fun target hwrite => ?_
      refine (store_lowers (slot_le hwrite.2)).mono ?_
      rintro pool _ _ ⟨rfl, rfl⟩
      exact ⟨name, target, rfl, hwrite, rfl, rfl⟩
  | absent => exact report_lowers _
  | misshapen => exact report_lowers _

theorem checkWrittenType_lowers (scope : LoweringScope) (name : String) (declared : StaticType)
    (written : Option String) (path : SourcePath) :
    Lowers names state (scope.checkWrittenType name declared written path state)
      (.fact (∀ text, written = some text → StaticType.ofText? text = some declared)) := by
  cases written with
  | none => exact (Lowers.refl state).imp fun _ _ h => by cases h
  | some text =>
      simp only [checkWrittenType]
      split
      next hdeclared =>
        refine (Lowers.refl state).imp fun _ other hother => ?_
        rwa [← Option.some.inj hother]
      next => exact report_lowers _

theorem checkAssignedElements_lowers {element : ValueKind} {items : List Expr} {position : Nat} :
    Lowers names state (scope.checkAssignedElements name element path items position state)
      (.fact (∀ item ∈ items, (scope.body names).AcceptsElement element item)) := by
  induction items generalizing position state with
  | nil => exact (Lowers.refl state).imp fun _ _ hmem => by cases hmem
  | cons item rest ih =>
      refine .assuming fun hwithin => ?_
      unfold checkAssignedElements
      simp only [List.forall_mem_cons]
      split
      next found declared hfound hdeclared =>
        split
        next haccepts =>
          refine ih.imp fun hrest => ⟨fun other hother => ?_, hrest⟩
          rw [hdeclared, Option.some.injEq] at hother
          exact accepts_of_typeOf hwithin (by simpa [hfound, ← hother] using haccepts)
        next => exact report_andThen ih
      next hnone =>
        refine ih.imp fun hrest => ⟨fun declared hdeclared => ?_, hrest⟩
        refine accepts_of_typeOf hwithin fun found hfound => ?_
        exact absurd hdeclared (hnone found declared hfound)

theorem checkAssigned_lowers {declared : StaticType} {value : Expr} :
    Lowers names state (scope.checkAssigned name declared value path state)
      (.fact ((scope.body names).AcceptsAssigned declared value)) := by
  refine .assuming fun hwithin => ?_
  unfold checkAssigned
  split
  next => exact checkAssignedElements_lowers
  next hother =>
    have hwhole (h : (scope.body names).Accepts declared value) :
        (scope.body names).AcceptsAssigned declared value := by
      unfold BodyScope.AcceptsAssigned
      split
      next element items => exact (hother element items rfl rfl).elim
      next => exact h
    split
    next hnone =>
      exact (Lowers.refl state).imp fun _ => hwhole (accepts_of_typeOf hwithin (by simp [hnone]))
    next found hfound =>
      split
      next haccepts =>
        refine (Lowers.refl state).imp fun _ => hwhole (accepts_of_typeOf hwithin ?_)
        simpa [hfound] using haccepts
      next => exact report_lowers _

theorem checkElement_lowers (scope : LoweringScope) (target : LocalSlot) (value : Expr)
    (error : ValueKind → StaticType → CompileError) (path : SourcePath) :
    Lowers names state (scope.checkElement target value error path state)
      (.fact (∀ element, target.type.element? = some element →
        (scope.body names).AcceptsElement element value)) := by
  refine .assuming fun hwithin => ?_
  unfold checkElement
  split
  next element found helement hfound =>
    split
    next declared hdeclared =>
      split
      next haccepts =>
        refine (Lowers.refl state).imp fun _ other hother expected hexpected => ?_
        rw [helement, Option.some.injEq] at hother
        rw [← hother, hdeclared, Option.some.injEq] at hexpected
        exact accepts_of_typeOf hwithin (by simpa [hfound, ← hexpected] using haccepts)
      next => exact report_lowers _
    next hnone =>
      refine (Lowers.refl state).imp fun _ other hother expected hexpected => ?_
      rw [helement, Option.some.injEq] at hother
      rw [← hother, hnone] at hexpected
      cases hexpected
  next hnone =>
    refine (Lowers.refl state).imp fun _ element helement declared hdeclared => ?_
    refine accepts_of_typeOf hwithin fun found hfound => ?_
    exact absurd hfound (hnone element found helement)

theorem lowerAssign_lowers (hdefaults : scope.signatures.ScalarDefaults)
    {field : Field String} {written : Option String} {value : Option Expr} :
    Lowers names state (scope.lowerAssign field written value path state)
      (.stmt (scope.body names) (.assign [] field written value)) := by
  unfold lowerAssign
  refine requireText_lowers fun name hname => requireTarget_lowers fun target hwrite => ?_
  subst hname
  refine (checkWrittenType_lowers scope name target.type written (path.member "type")).after_fact ?_
  generalize scope.checkWrittenType name target.type written (path.member "type") state = middle
  simp only
  split
  next => exact report_lowers _
  next pointee htype =>
    refine (emitScalar_lowers.andThen (store_lowers (slot_le hwrite.2))).mono ?_
    rintro pool _ _ ⟨_, _, _, rfl, ⟨position, rfl, hpool, rfl⟩, ⟨rfl, rfl⟩⟩ hwritten
    exact .assignNull hwrite hwritten htype hpool
  next value hother =>
    have hvalue := fun state =>
      lowerExpr_lowers names hdefaults value (path.member "value") state
    refine (checkAssigned_lowers.andThen ((hvalue _).andThen
      (store_lowers (slot_le hwrite.2)))).mono ?_
    rintro pool _ _ ⟨_, _, _, rfl, ⟨rfl, rfl, haccepts⟩, ⟨commands, _, _, rfl, ⟨rfl, hcode⟩,
      ⟨rfl, rfl⟩⟩⟩ hwritten
    refine .assign hwrite hwritten ?_ haccepts hcode
    intro hnull
    cases htype : target.type with
    | pointer pointee => exact (hother pointee htype hnull).elim
    | _ => rfl

/-! ### Arrays -/

/-- An array that is changed is loaded once the new element is known to go with it. -/
theorem loadArray_lowers {target : LocalSlot} {value : Expr}
    {error : ValueKind → StaticType → CompileError}
    (hread : (scope.body names).ReadsArray state.builder.assigned name target) :
    Lowers names state
      ((scope.checkElement target value error path state).emitWord .loadLocal target.slot)
      (.plain fun _ _ commands => commands = [⟨.loadLocal, target.slot⟩] ∧
        ∀ element, target.type.element? = some element →
          (scope.body names).AcceptsElement element value) := by
  refine ((checkElement_lowers scope target value error path).andThen
    (emitWord_lowers rfl (slot_le hread.1.1))).mono ?_
  rintro pool _ _ ⟨_, _, _, rfl, ⟨rfl, rfl, haccepts⟩, ⟨rfl, rfl⟩⟩
  exact ⟨rfl, rfl, haccepts⟩

theorem lowerSetElement_lowers (hdefaults : scope.signatures.ScalarDefaults)
    {array : Field String} {index value : Option Expr} :
    Lowers names state (scope.lowerSetElement array index value path state)
      (.stmt (scope.body names) (.setElement [] array index value)) := by
  unfold lowerSetElement
  refine requireText_lowers fun name hname => requireArray_lowers fun target hread => ?_
  refine require_lowers fun value hvalue => ?_
  subst hname hvalue
  cases index with
  | none => exact andThen_report (loadArray_lowers hread)
  | some index =>
      have hindex := fun state =>
        lowerExpr_lowers names hdefaults index (path.member "at") state
      have hvalue := fun state =>
        lowerExpr_lowers names hdefaults value (path.member "value") state
      refine ((loadArray_lowers hread).andThen
        ((hindex _).andThen ((hvalue _).andThen (emit_lowers rfl)))).mono ?_
      rintro pool _ _ ⟨_, _, _, rfl, ⟨rfl, rfl, haccepts⟩, ⟨_, _, _, rfl, ⟨rfl, hfirst⟩,
        ⟨_, _, _, rfl, ⟨rfl, hsecond⟩, ⟨rfl, rfl⟩⟩⟩⟩
      exact .setElement hread haccepts hfirst hsecond

theorem lowerPushElement_lowers (hdefaults : scope.signatures.ScalarDefaults)
    {array : Field String} {value : Option Expr} :
    Lowers names state (scope.lowerPushElement array value path state)
      (.stmt (scope.body names) (.pushElement [] array value)) := by
  unfold lowerPushElement
  refine requireText_lowers fun name hname => requireArray_lowers fun target hread => ?_
  refine require_lowers fun value hvalue => ?_
  subst hname hvalue
  have hvalue := fun state =>
    lowerExpr_lowers names hdefaults value (path.member "value") state
  refine ((loadArray_lowers hread).andThen
    ((hvalue _).andThen (emit_lowers rfl))).mono ?_
  rintro pool _ _ ⟨_, _, _, rfl, ⟨rfl, rfl, haccepts⟩, ⟨_, _, _, rfl, ⟨rfl, hcode⟩, ⟨rfl, rfl⟩⟩⟩
  exact .pushElement hread haccepts hcode

/-! ### Returns and subscriptions -/

theorem lowerReturn_lowers (hdefaults : scope.signatures.ScalarDefaults) {value : Expr} :
    Lowers names state (scope.lowerReturn value path state)
      (.stmt (scope.body names) (.giveBack value)) := by
  refine .assuming fun hwithin => ?_
  have hreturns : state.builder.returns = names.returns := by
    rw [← hwithin.outline]
    rfl
  unfold lowerReturn
  rw [hreturns]
  split
  next hnone =>
    refine (emit_lowers rfl).mono ?_
    rintro pool _ _ ⟨rfl, rfl⟩
    exact .giveBackNothing hnone
  next => exact report_lowers _
  next => exact report_lowers _
  next value _ _ expected hexpected hnull =>
    have hvalue := fun state => lowerExpr_lowers names hdefaults value path state
    have hop : Opcode.ret.operand = .none := rfl
    refine (Lowers.andThen
      (?_ : Lowers names state _ (.fact ((scope.body names).Accepts expected value)))
      ((hvalue _).andThen (emit_lowers hop))).mono ?_
    · split
      next hnone =>
        exact (Lowers.refl state).imp fun _ => accepts_of_typeOf hwithin (by simp [hnone])
      next found hfound =>
        split
        next haccepts =>
          refine (Lowers.refl state).imp fun _ => accepts_of_typeOf hwithin ?_
          simpa [hfound] using haccepts
        next => exact report_lowers _
    · rintro pool _ _ ⟨_, _, _, rfl, ⟨rfl, rfl, haccepts⟩, ⟨commands, _, _, rfl, ⟨rfl, hcode⟩,
        ⟨rfl, rfl⟩⟩⟩
      exact .giveBack hexpected hnull haccepts hcode

theorem lowerSubscribe_lowers {event : Field String} {handler : Option HandlerTarget} :
    Lowers names state (scope.lowerSubscribe event handler path state)
      (.stmt (scope.body names) (.subscribe [] event handler)) := by
  unfold lowerSubscribe
  refine requireText_lowers fun name hname => ?_
  subst hname
  cases handler with
  | none => exact report_lowers _
  | some handler =>
      refine (reportStray_lowers scope "'on' handler" handler.stray (path.member "call")).after_fact
        ?_
      simp only
      generalize scope.reportStray "'on' handler" handler.stray (path.member "call") state = middle
      refine requireText_lowers fun function hfunction => .assuming fun hwithin => ?_
      have hspace : middle.builder.space = names.space := by
        rw [← hwithin.outline]
        rfl
      rw [hspace]
      split
      next hknown =>
        have hop : Opcode.onEvent.operand = .none := rfl
        refine ((emitScalar_lowers.andThen emitScalar_lowers).andThen (emit_lowers hop)).mono ?_
        rintro pool _ _ ⟨_, _, _, rfl, ⟨_, _, _, rfl, ⟨eventAt, rfl, hevent, rfl⟩,
          ⟨calleeAt, rfl, hcallee, rfl⟩⟩, ⟨rfl, rfl⟩⟩ hexact
        refine .subscribe ?_ hevent hcallee
        exact { exact := hexact, named := ⟨function, hfunction, rfl⟩, foreign := hknown.2,
                known := hknown.1 }
      next => exact report_lowers _

/-! ### Foreign calls -/

theorem lowerForeignOperand_lowers (hdefaults : scope.signatures.ScalarDefaults)
    {operand : ForeignOperand} {place : SourcePath} :
    Lowers names state
      (match operand with
        | .misshapen => scope.report place (.objectExpected "ffi argument") state
        | .operand stray tag value =>
            scope.requireText "ffi argument" "type" tag place (fun tag =>
              scope.require "ffi argument" "value" value place fun value state =>
                lowerExpr scope value (place.member "value") (state.emitText tag))
              (scope.reportStray "'ffi' argument" stray place state))
      (.plain fun assigned pool commands => ∃ tag value position valued,
        operand = .operand [] (.given tag) (some value) ∧ Holds pool position (.string tag) ∧
          ExprCode (scope.body names) pool assigned value valued ∧
          commands = ⟨.pushConst, position⟩ :: valued) := by
  cases operand with
  | misshapen => exact report_lowers _
  | operand stray tag value =>
      refine (reportStray_lowers scope "'ffi' argument" stray place).after_fact ?_
      refine requireText_lowers fun text htext => require_lowers fun given hgiven => ?_
      subst htext hgiven
      have hvalue := fun state =>
        lowerExpr_lowers names hdefaults given (place.member "value") state
      refine (emitScalar_lowers.andThen (hvalue _)).mono ?_
      rintro pool _ _ ⟨_, valued, _, rfl, ⟨position, rfl, hpool, rfl⟩, ⟨rfl, hcode⟩⟩ rfl
      exact ⟨rfl, text, given, position, valued, rfl, hpool, hcode, rfl⟩

theorem lowerForeignOperands_lowers (hdefaults : scope.signatures.ScalarDefaults)
    {operands : List ForeignOperand} {position : Nat} :
    Lowers names state (scope.lowerForeignOperands path operands position state)
      (.plain fun assigned pool commands =>
        ForeignCode (scope.body names) pool assigned operands commands) := by
  induction operands generalizing position state with
  | nil =>
      refine (Lowers.refl state).mono ?_
      rintro pool _ _ ⟨rfl, rfl, -⟩
      exact ⟨rfl, .nil⟩
  | cons operand rest ih =>
      refine ((lowerForeignOperand_lowers hdefaults).andThen ih).mono ?_
      rintro pool _ _ ⟨_, others, _, rfl, ⟨rfl, tag, value, position, valued, rfl, htag, hvalue,
        rfl⟩, ⟨rfl, hothers⟩⟩
      exact ⟨rfl, .cons htag hvalue hothers⟩

/-- The operands of a foreign call lie below the texts that name it. -/
theorem pushForeignCall_lowers (names : FunctionBuilder)
    (hdefaults : scope.signatures.ScalarDefaults) (state : Lowering) (path : SourcePath)
    (library function : String) {result : String} {returns : Field String}
    {listed : List ForeignOperand} {operands : Field (List ForeignOperand)}
    (hcount : listed.length ≤ countLimit)
    (hreturns : returns = .given result ∨ returns = .absent ∧ result = voidResult)
    (hlisted : operands = .given listed ∨ operands = .absent ∧ listed = []) :
    Lowers names state
      (((((scope.lowerForeignOperands path listed 0 state).emitText result).emitText
        library).emitText function).emitCount .ffiCall listed.length)
      (.plain fun assigned pool commands => ForeignCallCode (scope.body names) pool assigned
        (.given library) (.given function) returns operands result commands) := by
  have hop : Opcode.ffiCall.operand = .count := rfl
  refine ((lowerForeignOperands_lowers hdefaults).andThen (emitScalar_lowers.andThen
    (emitScalar_lowers.andThen (emitScalar_lowers.andThen (emitCount_lowers hop hcount))))).mono ?_
  rintro pool _ _ ⟨pushed, _, _, rfl, ⟨rfl, hoperands⟩, _, _, _, rfl, ⟨resultAt, rfl, hresult, rfl⟩,
    _, _, _, rfl, ⟨libAt, rfl, hlib, rfl⟩, _, _, _, rfl, ⟨symbolAt, rfl, hsymbol, rfl⟩, ⟨rfl, rfl⟩⟩
  exact ⟨rfl, .call hreturns hlisted hcount hoperands hresult hlib hsymbol⟩

theorem lowerForeignCall_lowers (hdefaults : scope.signatures.ScalarDefaults)
    {returns into : Field String}
    {listed : List ForeignOperand} {operands : Field (List ForeignOperand)}
    {library function result : String}
    (hreturns : returns = .given result ∨ returns = .absent ∧ result = voidResult)
    (hlisted : operands = .given listed ∨ operands = .absent ∧ listed = []) :
    Lowers names state (scope.lowerForeignCall library function result listed into path state)
      (.stmt (scope.body names)
        (.foreign [] (.given library) (.given function) returns operands into)) := by
  unfold lowerForeignCall
  simp only
  split
  next => exact report_lowers _
  next hcount =>
    have hcall := pushForeignCall_lowers names hdefaults state (path.member "args") library
      function (Nat.le_of_not_lt hcount) hreturns hlisted
    cases into with
    | absent =>
        refine hcall.mono ?_
        rintro pool _ _ ⟨rfl, hcode⟩
        exact .foreign hcode
    | given name =>
        simp only
        split
        next => exact andThen_report hcall
        next hresult =>
          refine (hcall.andThen storeInto_lowers).mono ?_
          rintro pool _ _ ⟨_, _, _, rfl, ⟨rfl, hcode⟩, name, target, ⟨⟩, hwrite, rfl, rfl⟩
          exact .foreignInto hcode hresult hwrite
    | misshapen =>
        simp only
        split
        next => exact andThen_report hcall
        next =>
          refine (hcall.andThen storeInto_lowers).mono ?_
          rintro pool _ _ ⟨_, _, _, rfl, ⟨rfl, hcode⟩, name, target, ⟨⟩, hwrite, rfl, rfl⟩

theorem lowerForeign_lowers (hdefaults : scope.signatures.ScalarDefaults)
    {lib symbol returns : Field String}
    {operands : Field (List ForeignOperand)} {into : Field String} :
    Lowers names state (scope.lowerForeign lib symbol returns operands into path state)
      (.stmt (scope.body names) (.foreign [] lib symbol returns operands into)) := by
  unfold lowerForeign
  refine requireText_lowers fun library hlib => requireText_lowers fun function hsymbol => ?_
  subst hlib hsymbol
  cases returns with
  | misshapen => exact report_lowers _
  | absent =>
      cases operands with
      | misshapen => exact report_lowers _
      | absent => exact lowerForeignCall_lowers hdefaults (.inr ⟨rfl, rfl⟩) (.inr ⟨rfl, rfl⟩)
      | given listed => exact lowerForeignCall_lowers hdefaults (.inr ⟨rfl, rfl⟩) (.inl rfl)
  | given result =>
      cases operands with
      | misshapen => exact report_lowers _
      | absent => exact lowerForeignCall_lowers hdefaults (.inl rfl) (.inr ⟨rfl, rfl⟩)
      | given listed => exact lowerForeignCall_lowers hdefaults (.inl rfl) (.inl rfl)

/-! ### Memory -/

theorem lowerAllocate_lowers (hdefaults : scope.signatures.ScalarDefaults)
    {size : Option Expr} {into : Field String} :
    Lowers names state (scope.lowerAllocate size into path state)
      (.stmt (scope.body names) (.allocate [] size into)) := by
  refine .assuming fun hwithin => ?_
  unfold lowerAllocate
  refine require_lowers fun amount hamount => ?_
  subst hamount
  have hop : Opcode.memAlloc.operand = .none := rfl
  have hallocate (hpointer : ∀ name target, into = .given name →
      names.slot? name = some target → target.type.isPointer = true) :
      Lowers names state (scope.storeInto into (path.member "into")
          ((lowerExpr scope amount (path.member "size") state).emit .memAlloc))
        (.stmt (scope.body names) (.allocate [] (some amount) into)) := by
    refine ((lowerExpr_lowers names hdefaults amount (path.member "size") state).andThen
      ((emit_lowers hop).andThen storeInto_lowers)).mono ?_
    rintro pool _ _ ⟨_, _, _, rfl, ⟨rfl, hcode⟩, _, _, _, rfl, ⟨rfl, rfl⟩, name, target, rfl,
      hwrite, rfl, rfl⟩
    rw [List.singleton_append]
    exact .allocate hwrite (hpointer name target rfl hwrite.2) hcode
  cases into with
  | absent => exact report_lowers _
  | misshapen => exact hallocate nofun
  | given name =>
      simp only
      rw [slot?_of_within hwithin]
      cases hslot : names.slot? name with
      | none =>
          refine hallocate fun other target hother htarget => ?_
          rw [← Field.given.inj hother, hslot] at htarget
          cases htarget
      | some target =>
          simp only
          split
          next hpointer =>
            refine hallocate fun other target' hother htarget => ?_
            rw [← Field.given.inj hother, hslot, Option.some.injEq] at htarget
            rwa [← htarget]
          next => exact report_lowers _

theorem requireWidth_lowers {form : String} {field : Field String}
    {next : MemoryWidth → Lowering → Lowering} {shape : Shape}
    (hnext : ∀ text width, field = .given text → MemoryWidth.ofName? text = some width →
      Lowers names state (next width state) shape) :
    Lowers names state (scope.requireWidth form field path next state) shape := by
  unfold requireWidth
  refine requireText_lowers fun text htext => ?_
  split
  next width hwidth => exact hnext text width htext hwidth
  next => exact report_lowers _

theorem lowerOffset_lowers (hdefaults : scope.signatures.ScalarDefaults) {offset : Option Expr} :
    Lowers names state (scope.lowerOffset offset path state)
      (.plain fun assigned pool commands =>
        OffsetCode (scope.body names) pool assigned offset commands) := by
  cases offset with
  | none =>
      refine emitScalar_lowers.mono ?_
      rintro pool _ _ ⟨position, rfl, hpool, rfl⟩
      exact ⟨rfl, .absent hpool⟩
  | some offset =>
      refine (lowerExpr_lowers names hdefaults offset (path.member "offset") state).mono ?_
      rintro pool _ _ ⟨rfl, hcode⟩
      exact ⟨rfl, .given hcode⟩

theorem lowerWriteMemory_lowers (hdefaults : scope.signatures.ScalarDefaults)
    {field : Field String} {pointer offset value : Option Expr} :
    Lowers names state (scope.lowerWriteMemory field pointer offset value path state)
      (.stmt (scope.body names) (.writeMemory [] field pointer offset value)) := by
  unfold lowerWriteMemory
  refine requireWidth_lowers fun text width htext hwidth => ?_
  refine require_lowers fun address haddress => require_lowers fun written hwritten => ?_
  subst htext haddress hwritten
  have hpointer := fun state =>
    lowerExpr_lowers names hdefaults address (path.member "ptr") state
  have hvalue := fun state =>
    lowerExpr_lowers names hdefaults written (path.member "value") state
  have hop : Opcode.memWrite.operand = .none := rfl
  refine ((hpointer _).andThen ((lowerOffset_lowers hdefaults).andThen ((hvalue _).andThen
    (emitScalar_lowers.andThen (emit_lowers hop))))).mono ?_
  rintro pool _ _ ⟨_, _, _, rfl, ⟨rfl, hfirst⟩, _, _, _, rfl, ⟨rfl, hsecond⟩, _, _, _, rfl,
    ⟨rfl, hthird⟩, _, _, _, rfl, ⟨position, rfl, hpool, rfl⟩, ⟨rfl, rfl⟩⟩
  exact .writeMemory hwidth hfirst hsecond hthird hpool

theorem lowerReadMemory_lowers (hdefaults : scope.signatures.ScalarDefaults)
    {field into : Field String} {pointer offset : Option Expr} :
    Lowers names state (scope.lowerReadMemory field pointer offset into path state)
      (.stmt (scope.body names) (.readMemory [] field pointer offset into)) := by
  unfold lowerReadMemory
  refine requireWidth_lowers fun text width htext hwidth => ?_
  refine require_lowers fun address haddress => ?_
  subst htext haddress
  have hpointer := fun state =>
    lowerExpr_lowers names hdefaults address (path.member "ptr") state
  have hop : Opcode.memRead.operand = .none := rfl
  cases into with
  | absent => exact report_lowers _
  | misshapen =>
      refine ((hpointer _).andThen ((lowerOffset_lowers hdefaults).andThen
        (emitScalar_lowers.andThen ((emit_lowers hop).andThen storeInto_lowers)))).mono ?_
      rintro pool _ _ ⟨_, _, _, rfl, _, _, _, _, rfl, _, _, _, _, rfl, _, _, _, _, rfl, _, _, _, ⟨⟩,
        _⟩
  | given name =>
      refine ((hpointer _).andThen ((lowerOffset_lowers hdefaults).andThen
        (emitScalar_lowers.andThen ((emit_lowers hop).andThen storeInto_lowers)))).mono ?_
      rintro pool _ _ ⟨_, _, _, rfl, ⟨rfl, hfirst⟩, _, _, _, rfl, ⟨rfl, hsecond⟩, _, _, _, rfl,
        ⟨position, rfl, hpool, rfl⟩, _, _, _, rfl, ⟨rfl, rfl⟩, name, target, ⟨⟩, hwrite, rfl, rfl⟩
      exact .readMemory hwidth hwrite hfirst hsecond hpool

/-! ### Branches and loops -/

variable {before tested middle after : Lowering} {condition : Expr} {body : BodyScope}

theorem branch_lowers {whenTrue : Field (List Stmt)}
    (htest : Lowers names before tested (.expr body condition))
    (htrue : Lowers names (tested.emitJump .jmpIfFalse).2 middle (.given body whenTrue)) :
    Lowers names before (middle.landJump (tested.emitJump .jmpIfFalse).1)
      (.stmt body (.branch [] (some condition) whenTrue .absent)) := by
  refine (htest.andThen (patchJump_lowers rfl (by decide) htrue)).mono ?_
  rintro pool _ _ ⟨test, _, _, rfl, ⟨rfl, hcondition⟩, first, rfl, hword, htarget, stmts, rfl,
    hfirst⟩
  exact .branch hcondition hfirst htarget hword

/-- To emit the jump over the second block and then land the one over the first block is the same
as to set the target of the latter at once. -/
theorem landJump_emitJump {shape first : Shape} (hwithin : Within names before)
    (htest : Lowers names before tested shape)
    (htrue : Lowers names (tested.emitJump .jmpIfFalse).2 middle first) :
    (middle.emitJump .jmp).2.landJump (tested.emitJump .jmpIfFalse).1 =
        ((middle.patchJump (tested.emitJump .jmpIfFalse).1 (middle.builder.offset + 3)).emitJump
          .jmp).2 ∧
      (middle.emitJump .jmp).1 =
        ((middle.patchJump (tested.emitJump .jmpIfFalse).1 (middle.builder.offset + 3)).emitJump
          .jmp).1 := by
  have hgrows := htrue.grows (emitJump_within (htest.within hwithin))
  rw [offset_emitJump] at hgrows
  have hplace : (tested.emitJump .jmpIfFalse).1 + 1 < middle.builder.offset := by
    change tested.builder.offset + 1 + 1 < _
    omega
  rw [emitJump_patchJump middle hplace, landJump, offset_emitJump]
  exact ⟨rfl, rfl⟩

/-- The jump over the second block is emitted before the one over the first block lands behind
it. -/
theorem branchElse_lowers {whenTrue whenFalse : Field (List Stmt)}
    (htest : Lowers names before tested (.expr body condition))
    (htrue : Lowers names (tested.emitJump .jmpIfFalse).2 middle (.given body whenTrue))
    (hfalse : Lowers names ((middle.emitJump .jmp).2.landJump (tested.emitJump .jmpIfFalse).1)
      after (.given body whenFalse)) :
    Lowers names before (after.landJump (middle.emitJump .jmp).1)
      (.stmt body (.branch [] (some condition) whenTrue whenFalse)) := by
  refine .assuming fun hwithin => ?_
  obtain ⟨hsame, hplace⟩ := landJump_emitJump hwithin htest htrue
  rw [hsame] at hfalse
  rw [hplace]
  refine (htest.andThen ((patchJump_lowers rfl (by decide) htrue).andThen
    (patchJump_lowers rfl (by decide) hfalse))).mono ?_
  rintro pool _ _ ⟨test, _, _, rfl, ⟨rfl, hcondition⟩, _, _, _, rfl, ⟨first, rfl, hmiddle, hfinish,
    _, rfl, hfirst⟩, second, rfl, hword, htarget, _, rfl, hsecond⟩
  have hstart : before.builder.offset + size test +
      size (⟨.jmpIfFalse, middle.builder.offset + 3⟩ :: first) + 3 =
        middle.builder.offset + 3 := by
    rw [hfinish, size_cons]
    simp only [Opcode.width, Opcode.operand]
    omega
  rw [hstart] at htarget hsecond
  exact .branchElse hcondition hfirst (by rw [hfinish]) hsecond htarget hword

theorem loop_lowers {stmts : Field (List Stmt)}
    (htest : Lowers names before tested (.expr body condition))
    (hbody : Lowers names (tested.emitJump .jmpIfFalse).2 middle (.given body stmts)) :
    Lowers names before
      (((middle.emitJump .jmp).2.patchJump (middle.emitJump .jmp).1 before.builder.offset).landJump
        (tested.emitJump .jmpIfFalse).1)
      (.stmt body (.loop [] (some condition) stmts)) := by
  have hback : Lowers names middle
      ((middle.emitJump .jmp).2.patchJump (middle.emitJump .jmp).1 before.builder.offset) _ :=
    patchJump_lowers rfl (by decide) (Lowers.refl _)
  refine (htest.andThen (patchJump_lowers rfl (by decide) (hbody.andThen hback))).mono ?_
  rintro pool _ _ ⟨test, _, _, rfl, ⟨rfl, hcondition⟩, _, rfl, hword, htarget, commands, _, _, rfl,
    ⟨stmts, rfl, hcode⟩, _, rfl, -, -, rfl, rfl, -⟩
  refine .loop hcondition hcode ?_ hword
  rw [htarget]
  simp [Opcode.width, Opcode.operand]
  omega

end LoweringScope

open LoweringScope

variable {scope : LoweringScope} {names : FunctionBuilder}

/-! ### Statements and blocks -/

mutual

/-- Lowering a statement adds its code. -/
theorem lowerStmt_lowers (names : FunctionBuilder)
    (hdefaults : scope.signatures.ScalarDefaults) (stmt : Stmt) (path : SourcePath)
    (state : Lowering) :
    Lowers names state (lowerStmt scope stmt path state) (.stmt (scope.body names) stmt) := by
  cases stmt with
  | notObject => exact report_lowers _
  | unknownForm found => exact report_lowers _
  | overfull form stray inner =>
      refine (reportStray_lowers scope s!"'{form}' statement" stray path).after_fact ?_
      refine (lowerStmt_lowers names hdefaults inner path _).mono ?_
      rintro pool _ _ hcode rfl
      exact .overfull hcode
  | misshapen form => exact report_lowers _
  | assign stray name written value =>
      refine (reportStray_lowers scope "'let'" stray (path.member "let")).after_fact ?_
      refine (lowerAssign_lowers hdefaults).mono ?_
      rintro pool _ _ hcode rfl
      exact hcode
  | print value =>
      refine ((lowerExpr_lowers names hdefaults value (path.member "print") state).andThen
        (emit_lowers rfl)).mono ?_
      rintro pool _ _ ⟨_, _, _, rfl, ⟨rfl, hcode⟩, ⟨rfl, rfl⟩⟩
      exact .print hcode
  | misshapenCall => exact report_lowers _
  | call target place arguments =>
      cases arguments with
      | none => exact lowerCall_without_arguments
      | some arguments =>
          refine (lowerCall_lowers hdefaults fun callee =>
            lowerArgument_lowers names hdefaults callee _ _ arguments).mono ?_
          rintro pool _ _ ⟨rfl, callee, signature, given, position, hcall, hgiven, hpool, rfl⟩
          exact .call hcall hgiven hpool
  | branch stray condition whenTrue whenFalse =>
      cases condition with
      | none => exact andThen_report (reportStray_lowers scope "'if'" stray (path.member "if"))
      | some condition =>
          rw [lowerStmt]
          refine (reportStray_lowers scope "'if'" stray (path.member "if")).after_fact ?_
          have htest := lowerExpr_lowers names hdefaults condition
            ((path.member "if").member "condition")
            (scope.reportStray "'if'" stray (path.member "if") state)
          have htrue (tested : Lowering) : Lowers names tested
              (match whenTrue with
                | .given stmts => lowerBlock scope stmts ((path.member "if").member "then") 0 tested
                | .misshapen =>
                    scope.report ((path.member "if").member "then") (.blockNotList "then") tested
                | .absent => scope.report (path.member "if") (.fieldRequired "if" "then") tested)
              (.given (scope.body names) whenTrue) := by
            cases whenTrue with
            | given stmts => exact (lowerBlock_lowers names hdefaults stmts _ 0 tested).given
            | misshapen => exact report_lowers _
            | absent => exact report_lowers _
          cases whenFalse with
          | absent =>
              refine (branch_lowers htest (htrue _)).mono ?_
              rintro pool _ _ hcode rfl
              exact hcode
          | misshapen =>
              have hfalse (state : Lowering) : Lowers names state
                  (scope.report ((path.member "if").member "else") (.blockNotList "else") state)
                  (.given (scope.body names) .misshapen) := report_lowers _
              refine (branchElse_lowers htest (htrue _) (hfalse _)).mono ?_
              rintro pool _ _ hcode rfl
              exact hcode
          | given stmts =>
              refine (branchElse_lowers htest (htrue _)
                (lowerBlock_lowers names hdefaults stmts _ 0 _).given).mono ?_
              rintro pool _ _ hcode rfl
              exact hcode
  | loop stray condition stmts =>
      cases condition with
      | none =>
          exact andThen_report (reportStray_lowers scope "'while'" stray (path.member "while"))
      | some condition =>
          rw [lowerStmt]
          refine (reportStray_lowers scope "'while'" stray (path.member "while")).after_fact ?_
          have htest := lowerExpr_lowers names hdefaults condition
            ((path.member "while").member "condition")
            (scope.reportStray "'while'" stray (path.member "while") state)
          have hbody (tested : Lowering) : Lowers names tested
              (match stmts with
                | .given stmts =>
                    lowerBlock scope stmts ((path.member "while").member "body") 0 tested
                | .misshapen =>
                    scope.report ((path.member "while").member "body") (.blockNotList "body") tested
                | .absent =>
                    scope.report (path.member "while") (.fieldRequired "while" "body") tested)
              (.given (scope.body names) stmts) := by
            cases stmts with
            | given stmts => exact (lowerBlock_lowers names hdefaults stmts _ 0 tested).given
            | misshapen => exact report_lowers _
            | absent => exact report_lowers _
          refine (loop_lowers htest (hbody _)).mono ?_
          rintro pool _ _ hcode rfl
          exact hcode
  | setElement stray array index value =>
      refine (reportStray_lowers scope "'set'" stray (path.member "set")).after_fact ?_
      refine (lowerSetElement_lowers hdefaults).mono ?_
      rintro pool _ _ hcode rfl
      exact hcode
  | pushElement stray array value =>
      refine (reportStray_lowers scope "'push'" stray (path.member "push")).after_fact ?_
      refine (lowerPushElement_lowers hdefaults).mono ?_
      rintro pool _ _ hcode rfl
      exact hcode
  | giveBack value => exact lowerReturn_lowers hdefaults
  | subscribe stray event handler =>
      refine (reportStray_lowers scope "'on'" stray (path.member "on")).after_fact ?_
      refine lowerSubscribe_lowers.mono ?_
      rintro pool _ _ hcode rfl
      exact hcode
  | foreign stray lib symbol returns operands into =>
      refine (reportStray_lowers scope "'ffi'" stray (path.member "ffi")).after_fact ?_
      refine (lowerForeign_lowers hdefaults).mono ?_
      rintro pool _ _ hcode rfl
      exact hcode
  | allocate stray size into =>
      refine (reportStray_lowers scope "'alloc'" stray (path.member "alloc")).after_fact ?_
      refine (lowerAllocate_lowers hdefaults).mono ?_
      rintro pool _ _ hcode rfl
      exact hcode
  | writeMemory stray width pointer offset value =>
      refine (reportStray_lowers scope "'memwrite'" stray (path.member "memwrite")).after_fact ?_
      refine (lowerWriteMemory_lowers hdefaults).mono ?_
      rintro pool _ _ hcode rfl
      exact hcode
  | readMemory stray width pointer offset into =>
      refine (reportStray_lowers scope "'memread'" stray (path.member "memread")).after_fact ?_
      refine (lowerReadMemory_lowers hdefaults).mono ?_
      rintro pool _ _ hcode rfl
      exact hcode
  | release pointer =>
      have hop : Opcode.memFree.operand = .none := rfl
      refine ((lowerExpr_lowers names hdefaults pointer (path.member "free") state).andThen
        (emit_lowers hop)).mono ?_
      rintro pool _ _ ⟨_, _, _, rfl, ⟨rfl, hcode⟩, ⟨rfl, rfl⟩⟩
      exact .release hcode

/-- Lowering a block adds its code. -/
theorem lowerBlock_lowers (names : FunctionBuilder)
    (hdefaults : scope.signatures.ScalarDefaults) (stmts : List Stmt) (path : SourcePath)
    (position : Nat) (state : Lowering) :
    Lowers names state (lowerBlock scope stmts path position state)
      (.block (scope.body names) stmts) := by
  cases stmts with
  | nil =>
      refine (Lowers.refl state).mono ?_
      rintro pool _ _ ⟨rfl, rfl, -⟩
      exact .nil
  | cons stmt rest =>
      refine ((lowerStmt_lowers names hdefaults stmt (path.element position) state).andThen
        (lowerBlock_lowers names hdefaults rest path (position + 1) _)).mono ?_
      rintro pool _ _ ⟨first, others, _, rfl, hfirst, hothers⟩
      exact .cons hfirst hothers

end

end DocScript
