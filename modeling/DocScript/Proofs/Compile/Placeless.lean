import DocScript.Proofs.Compile.Locals

/-! # Compiling at another place

The signature that a declaration states depends on the declaration and its namespace, and
what its body is lowered to depends on its text and on the signatures of the functions
that it calls. Where it stands in which unit, and in which order the signatures were
registered, shows in the diagnostics only, and not in whether one of them is an error.
-/

namespace DocScript

open LoweringScope

/-! ### Signatures -/

/-- The same was read, and an error was found in both readings or in neither. -/
structure SameReading (reading other : α × List Diagnostic) : Prop where
  value : reading.1 = other.1
  errors : reading.2.any Diagnostic.isError = other.2.any Diagnostic.isError

section Signatures

variable {site site' : SourceSite} {path place : SourcePath}

theorem readParam_same (function : String) (earlier : List Parameter) (item : Json) :
    SameReading (readParam site function path earlier item)
      (readParam site' function place earlier item) := by
  unfold readParam
  cases (item.get? "name").bind Json.string? with
  | none => exact ⟨rfl, rfl⟩
  | some name =>
      dsimp only
      split
      next => exact ⟨rfl, rfl⟩
      next =>
        split
        next => exact ⟨rfl, rfl⟩
        next =>
          cases paramType item with
          | error text => exact ⟨rfl, rfl⟩
          | ok type =>
              cases paramDefault item with
              | error => exact ⟨rfl, rfl⟩
              | ok default =>
                  refine ⟨rfl, ?_⟩
                  dsimp only
                  split <;> rfl

theorem readParams_same (function : String) (items : List Json) (position : Nat)
    (earlier : List Parameter) (ok : Bool) :
    SameReading (readParams site function path items position earlier ok)
      (readParams site' function place items position earlier ok) := by
  induction items generalizing position earlier ok with
  | nil => exact ⟨rfl, rfl⟩
  | cons item rest ih =>
      obtain ⟨hvalue, herrors⟩ : SameReading
          (readParam site function (path.element position) earlier item)
          (readParam site' function (place.element position) earlier item) :=
        readParam_same function earlier item
      simp only [readParams, hvalue]
      cases (readParam site' function (place.element position) earlier item).1 with
      | some param =>
          obtain ⟨hrest, hothers⟩ := ih (position + 1) (earlier ++ [param]) ok
          exact ⟨hrest, by rw [List.any_append, List.any_append, herrors, hothers]⟩
      | none =>
          obtain ⟨hrest, hothers⟩ := ih (position + 1) earlier false
          exact ⟨hrest, by rw [List.any_append, List.any_append, herrors, hothers]⟩

theorem declaredParams_same (function : String) (declaration : Json) :
    SameReading (declaredParams site function path declaration)
      (declaredParams site' function place declaration) := by
  unfold declaredParams
  dsimp only
  split
  next => exact ⟨rfl, rfl⟩
  next => exact readParams_same function _ _ _ _
  next => exact ⟨rfl, rfl⟩

theorem entryDiagnostics_same (signature : Signature) :
    (entryDiagnostics site path signature).any Diagnostic.isError =
      (entryDiagnostics site' place signature).any Diagnostic.isError := by
  unfold entryDiagnostics
  rw [List.any_append, List.any_append]
  congr 1
  · split <;> rfl
  · split
    next => rfl
    next => split <;> rfl
    next => rfl

/-- The signature of a declaration, and whether there is anything wrong with it, depend on the
declaration and its namespace only. -/
theorem readSignature_same (space : String) (declaration : Json) :
    SameReading (readSignature site space path declaration)
      (readSignature site' space place declaration) := by
  unfold readSignature
  split
  next => exact ⟨rfl, rfl⟩
  next => exact ⟨rfl, rfl⟩
  next name _ _ =>
    dsimp only
    split
    next => exact ⟨rfl, rfl⟩
    next =>
      cases resultType declaration with
      | error => exact ⟨rfl, rfl⟩
      | ok returns =>
          have hparams : SameReading (declaredParams site (space ++ "." ++ name) path declaration)
              (declaredParams site' (space ++ "." ++ name) place declaration) :=
            declaredParams_same _ declaration
          revert hparams
          generalize declaredParams site _ path declaration = reading
          generalize declaredParams site' _ place declaration = reading'
          rintro ⟨hvalue, herrors⟩
          obtain ⟨params, diagnostics⟩ := reading
          obtain ⟨_, diagnostics'⟩ := reading'
          cases hvalue
          cases params with
          | none => exact ⟨rfl, herrors⟩
          | some params =>
              refine ⟨rfl, ?_⟩
              dsimp only at herrors ⊢
              rw [List.any_append, List.any_append, herrors]
              split
              next => rw [entryDiagnostics_same]
              next => rfl

end Signatures

/-! ### Lowering -/

/-- Both tables give the same signature for each name. -/
def SignatureTable.Agrees (signatures others : SignatureTable) : Prop :=
  ∀ name, signatures.get? name = others.get? name

/-- A relation between what was reported in two lowerings. It still holds when each has reported an
error about its unit. -/
structure ReportRelation (scope other : LoweringScope) where
  holds : DiagnosticBag → DiagnosticBag → Prop
  push : ∀ {bag bag' : DiagnosticBag} (path place : SourcePath) (error fault : CompileError),
    holds bag bag' →
      holds (bag.push (scope.site.error path error)) (bag'.push (other.site.error place fault))

namespace ReportRelation

/-- An error was reported in both lowerings or in neither. -/
def sameErrors (scope other : LoweringScope) : ReportRelation scope other where
  holds bag bag' := bag.hasErrors = bag'.hasErrors
  push path place error fault _ := by
    rw [DiagnosticBag.hasErrors_push, DiagnosticBag.hasErrors_push, SourceSite.isError_error,
      SourceSite.isError_error, Bool.true_or, Bool.true_or]

/-- In the first lowering nothing was taken back that had been reported before. -/
def behind (scope other : LoweringScope) (before : DiagnosticBag) : ReportRelation scope other where
  holds bag _ := before.reversed <:+ bag.reversed
  push _ _ _ _ h := h.trans (List.suffix_cons _ _)

end ReportRelation

/-- The same function is being built in both states, and what was reported is related. -/
structure Lowering.Alike {scope other : LoweringScope} (related : ReportRelation scope other)
    (state state' : Lowering) : Prop where
  builder : state.builder = state'.builder
  reports : related.holds state.diagnostics state'.diagnostics

/-- Two ways to go on that lead from states that are alike to such states. -/
def Parallel {scope other : LoweringScope} (related : ReportRelation scope other)
    (next next' : Lowering → Lowering) : Prop :=
  ∀ ⦃state state' : Lowering⦄, state.Alike related state' →
    (next state).Alike related (next' state')

variable {scope other : LoweringScope} {related : ReportRelation scope other}
  {path place : SourcePath} {state state' : Lowering}

namespace Lowering.Alike

/-- Two errors are as good as one another. -/
theorem report (h : state.Alike related state') {error fault : CompileError} :
    (scope.report path error state).Alike related (other.report place fault state') :=
  ⟨h.builder, related.push path place error fault h.reports⟩

theorem errors (h : state.Alike (.sameErrors scope other) state') :
    state.diagnostics.hasErrors = state'.diagnostics.hasErrors := h.reports

theorem modify (h : state.Alike related state') (change : FunctionBuilder → FunctionBuilder) :
    (state.modify change).Alike related (state'.modify change) :=
  ⟨congrArg change h.builder, h.reports⟩

theorem ite {condition : Prop} [Decidable condition] {yes yes' no no' : Lowering}
    (hyes : yes.Alike related yes') (hno : no.Alike related no') :
    (if condition then yes else no).Alike related (if condition then yes' else no') := by
  split
  next => exact hyes
  next => exact hno

theorem emit (h : state.Alike related state') (op : Opcode) :
    (state.emit op).Alike related (state'.emit op) := h.modify _

theorem emitWord (h : state.Alike related state') (op : Opcode) (operand : Nat) :
    (state.emitWord op operand).Alike related (state'.emitWord op operand) := h.modify _

theorem emitCount (h : state.Alike related state') (op : Opcode) (count : Nat) :
    (state.emitCount op count).Alike related (state'.emitCount op count) := h.modify _

theorem emitScalar (h : state.Alike related state') (value : Scalar) :
    (state.emitScalar value).Alike related (state'.emitScalar value) := h.modify _

theorem store (h : state.Alike related state') (name : String) (target : LocalSlot) :
    (state.store name target).Alike related (state'.store name target) := h.modify _

theorem patchJump (h : state.Alike related state') (jump target : Nat) :
    (state.patchJump jump target).Alike related (state'.patchJump jump target) := h.modify _

/-- A jump is emitted at the same place, and lands at the same place. -/
theorem emitJump (h : state.Alike related state') (op : Opcode) :
    (state.emitJump op).2.Alike related (state'.emitJump op).2 := h.emitWord op 0

theorem land {before before' : Lowering} (h : state.Alike related state') (op : Opcode)
    (hbefore : before.Alike related before') :
    (state.landJump (before.emitJump op).1).Alike related
      (state'.landJump (before'.emitJump op).1) := by
  have hjump : (before.emitJump op).1 = (before'.emitJump op).1 :=
    congrArg (·.offset + 1) hbefore.builder
  rw [hjump, Lowering.landJump, Lowering.landJump, h.builder]
  exact h.patchJump _ _

theorem back (h : state.Alike related state') (op : Opcode) (target : Nat) :
    ((state.emitJump op).2.patchJump (state.emitJump op).1 target).Alike related
      ((state'.emitJump op).2.patchJump (state'.emitJump op).1 target) := by
  have hjump : (state.emitJump op).1 = (state'.emitJump op).1 :=
    congrArg (·.offset + 1) h.builder
  rw [hjump]
  exact (h.emitJump op).patchJump _ _

theorem foldl {items : List α} {step step' : Lowering → α → Lowering}
    (hstep : ∀ a, Parallel related (step · a) (step' · a)) (h : state.Alike related state') :
    (items.foldl step state).Alike related (items.foldl step' state') := by
  induction items generalizing state state' with
  | nil => exact h
  | cons first rest ih => exact ih (hstep first h)

end Lowering.Alike

theorem SignatureTable.Agrees.contains {signatures others : SignatureTable}
    (hsame : signatures.Agrees others) (name : String) :
    signatures.contains name = others.contains name := by
  rw [contains_eq, contains_eq, hsame]

mutual

theorem Expr.staticType_agrees {signatures others : SignatureTable}
    (hsame : signatures.Agrees others) (builder : FunctionBuilder) (expr : Expr) :
    expr.staticType signatures builder = expr.staticType others builder := by
  cases expr with
  | array items =>
      cases items with
      | nil => rfl
      | cons first rest =>
          simp only [Expr.staticType, first.staticType_agrees hsame builder]
  | overfull form stray body =>
      simp only [Expr.staticType, body.staticType_agrees hsame builder]
  | negate operand => simp only [Expr.staticType, operand.staticType_agrees hsame builder]
  | operator operator operands =>
      cases operator with
      | arithmetic op =>
          cases operands with
          | none => rfl
          | some operands =>
              simp only [Expr.staticType, Expr.staticTypes_agrees hsame builder operands]
      | _ => rfl
  | call target given arguments =>
      have hcallee : (fun function => signatures.get? (builder.calleeName target.space function)) =
          fun function => others.get? (builder.calleeName target.space function) :=
        funext fun _ => hsame _
      simp only [Expr.staticType, hcallee]
  | _ => rfl

theorem Expr.staticTypes_agrees {signatures others : SignatureTable}
    (hsame : signatures.Agrees others) (builder : FunctionBuilder) (exprs : List Expr) :
    Expr.staticTypes signatures builder exprs = Expr.staticTypes others builder exprs := by
  cases exprs with
  | nil => rfl
  | cons first rest =>
      simp only [Expr.staticTypes, first.staticType_agrees hsame builder,
        Expr.staticTypes_agrees hsame builder rest]

end

namespace LoweringScope

/-! ### What all forms share -/

theorem reports_alike {names : List String} {error : String → CompileError}
    (h : state.Alike related state') :
    (names.foldl (fun state name => scope.report (path.member name) (error name) state)
      state).Alike related
      (names.foldl (fun state name => other.report (place.member name) (error name) state)
        state') :=
  .foldl (fun _ _ _ h => h.report) h

theorem reportStray_alike (form : String) (stray : List String) (h : state.Alike related state') :
    (scope.reportStray form stray path state).Alike related
      (other.reportStray form stray place state') :=
  reports_alike h

theorem requireText_alike {form key : String} {field : Field String}
    {next next' : String → Lowering → Lowering}
    (hnext : ∀ text, Parallel related (next text) (next' text)) :
    Parallel related (scope.requireText form key field path next)
      (other.requireText form key field place next') := by
  intro state state' h
  cases field with
  | given text => exact hnext text h
  | absent | misshapen => exact h.report

theorem require_alike {form key : String} {field : Option α} {next next' : α → Lowering → Lowering}
    (hnext : ∀ value, Parallel related (next value) (next' value)) :
    Parallel related (scope.require form key field path next)
      (other.require form key field place next') := by
  intro state state' h
  cases field with
  | some value => exact hnext value h
  | none => exact h.report

theorem load_alike {name : String} (h : state.Alike related state') :
    (scope.load name path state).Alike related (other.load name place state') := by
  unfold load
  rw [h.builder]
  cases state'.builder.slot? name with
  | none => exact h.report
  | some target => exact .ite (h.modify _) h.report

theorem requireArray_alike {name : String} {next next' : LocalSlot → Lowering → Lowering}
    (hnext : ∀ target, Parallel related (next target) (next' target)) :
    Parallel related (scope.requireArray name path next) (other.requireArray name place next') := by
  intro state state' h
  unfold requireArray
  rw [h.builder]
  cases state'.builder.slot? name with
  | none => exact h.report
  | some target => exact .ite h.report (.ite (hnext target h) h.report)

theorem requireTarget_alike {name : String} {next next' : LocalSlot → Lowering → Lowering}
    (hnext : ∀ target, Parallel related (next target) (next' target)) :
    Parallel related (scope.requireTarget name path next)
      (other.requireTarget name place next') := by
  intro state state' h
  unfold requireTarget
  rw [h.builder]
  refine .ite h.report ?_
  cases state'.builder.slot? name with
  | none => exact h.report
  | some target => exact hnext target h

/-! ### Operands -/

variable (hsame : scope.signatures.Agrees other.signatures)

include hsame

theorem typeOf_alike (h : state.Alike related state') (expr : Expr) :
    scope.typeOf state expr = other.typeOf state' expr := by
  rw [typeOf, typeOf, h.builder, expr.staticType_agrees hsame]

theorem checkElements_alike {items : List Expr} {position : Nat} {first : Option StaticType}
    (h : state.Alike related state') :
    (scope.checkElements path items position first state).Alike related
      (other.checkElements place items position first state') := by
  induction items generalizing position first state state' with
  | nil => exact h
  | cons item rest ih =>
      simp only [checkElements, typeOf_alike hsame h item]
      cases other.typeOf state' item with
      | none => exact ih h
      | some found =>
          cases first with
          | none => exact ih h
          | some expected => exact ih (.ite h h.report)

theorem refuseBool_alike {form : String} {operand : Expr} (h : state.Alike related state') :
    (scope.refuseBool form operand path state).Alike related
      (other.refuseBool form operand place state') := by
  unfold refuseBool
  rw [typeOf_alike hsame h operand]
  exact .ite h.report h

theorem checkArgument_alike {callee : String} {param : Parameter} {argument : Expr}
    (h : state.Alike related state') :
    (scope.checkArgument callee param argument path state).Alike related
      (other.checkArgument callee param argument place state') := by
  unfold checkArgument
  rw [typeOf_alike hsame h argument]
  cases other.typeOf state' argument with
  | none => exact h
  | some found => exact .ite h h.report

omit hsame in
theorem withoutLength?_alike {operand : Expr} (h : state.Alike related state') :
    withoutLength? state operand = withoutLength? state' operand := by
  unfold withoutLength?
  rw [h.builder]

omit hsame in
theorem omittedArgument_alike {callee : String} {param : Parameter}
    (h : state.Alike related state') :
    (scope.omittedArgument callee param path state).Alike related
      (other.omittedArgument callee param place state') := by
  unfold omittedArgument
  cases param.default with
  | some value => exact h.modify _
  | none => exact h.report

/-! ### Calls -/

theorem lowerCall_alike {asValue : Bool} {target : CallTarget} {given : ArgumentPlace}
    {names : Option (List String)} {around around' : SourcePath}
    {bind bind' : String → Parameter → Lowering → Lowering}
    (hbind : ∀ callee param, Parallel related (bind callee param) (bind' callee param))
    (h : state.Alike related state') :
    (scope.lowerCall asValue target given names path around bind state).Alike related
      (other.lowerCall asValue target given names place around' bind' state') := by
  unfold lowerCall
  have hstray : (scope.reportStray "'call'" target.stray path state).Alike related
      (other.reportStray "'call'" target.stray place state') := reportStray_alike _ _ h
  cases target.function with
  | none => exact hstray.report
  | some function =>
      simp only [hstray.builder, hsame _]
      cases other.signatures.get? _ with
      | none => exact hstray.report
      | some signature =>
          refine .ite hstray.report (.ite hstray.report ?_)
          cases names with
          | none => exact hstray.report
          | some names =>
              refine .ite (.report (reports_alike hstray)) ?_
              exact .emitCount (.emitScalar (.foldl (hbind _) (reports_alike hstray)) _) _ _

end LoweringScope

section Expressions

variable (hsame : scope.signatures.Agrees other.signatures)

include hsame

theorem checkOperand_alike {operator : Option Operator} {item : Expr}
    (h : state.Alike related state') :
    (match operator with
      | some operator =>
          if operator.isArithmetic then scope.refuseBool operator.name item path state else state
      | none => state).Alike related
    (match operator with
      | some operator =>
          if operator.isArithmetic then other.refuseBool operator.name item place state' else state'
      | none => state') := by
  cases operator with
  | none => exact h
  | some operator => exact .ite (refuseBool_alike hsame h) h

mutual

theorem lowerExpr_alike (expr : Expr) (path place : SourcePath) :
    Parallel related (lowerExpr scope expr path) (lowerExpr other expr place) := by
  intro state state' h
  cases expr with
  | int | float | bool | null => exact h.emitScalar _
  | reference name => exact load_alike h
  | array items =>
      unfold lowerExpr
      refine .ite h.report (.emitCount ?_ _ _)
      exact lowerItems_alike none items path place 0 (checkElements_alike hsame h)
  | unknownForm found => exact h.report
  | overfull form stray body => exact lowerExpr_alike body path place (reportStray_alike _ _ h)
  | string text =>
      cases text with
      | none => exact h.report
      | some text => exact h.emitScalar _
  | named name =>
      cases name with
      | none => exact h.report
      | some name => exact load_alike h
  | not operand => exact (lowerExpr_alike operand _ _ h).emit _
  | negate operand => exact (lowerExpr_alike operand _ _ (refuseBool_alike hsame h)).emit _
  | length operand =>
      simp only [lowerExpr, withoutLength?_alike h]
      cases withoutLength? state' operand with
      | some name => exact h.report
      | none => exact (lowerExpr_alike operand _ _ h).emit _
  | operator operator operands =>
      cases operands with
      | none => exact h.report
      | some operands =>
          unfold lowerExpr
          refine .ite h.report (.ite h.report (.emitCount ?_ _ _))
          exact lowerItems_alike (some operator) operands _ _ 0 h
  | misshapenGet => exact h.report
  | get stray array index =>
      cases array with
      | none => exact .report (reportStray_alike _ _ h)
      | some array =>
          cases index with
          | none => exact .report (reportStray_alike _ _ h)
          | some index =>
              simp only [lowerExpr]
              refine requireArray_alike (fun target state state' h => ?_) (reportStray_alike _ _ h)
              exact (lowerExpr_alike index _ _ (h.emitWord _ _)).emit _
  | misshapenCall => exact h.report
  | call target given arguments =>
      cases arguments with
      | none => exact lowerCall_alike hsame (fun _ _ _ _ h => h) h
      | some arguments =>
          simp only [lowerExpr]
          exact lowerCall_alike hsame
            (fun callee param => lowerArgument_alike callee param _ _ _ _ arguments) h

theorem lowerItems_alike (operator : Option Operator) (items : List Expr) (path place : SourcePath)
    (position : Nat) :
    Parallel related (lowerItems scope operator items path position)
      (lowerItems other operator items place position) := by
  intro state state' h
  cases items with
  | nil => exact h
  | cons item rest =>
      exact lowerItems_alike operator rest path place (position + 1)
        (lowerExpr_alike item _ _ (checkOperand_alike hsame h))

theorem lowerArgument_alike (callee : String) (param : Parameter)
    (callPath callPlace argsPath argsPlace : SourcePath) (arguments : List (String × Expr)) :
    Parallel related (lowerArgument scope callee param callPath argsPath arguments)
      (lowerArgument other callee param callPlace argsPlace arguments) := by
  intro state state' h
  cases arguments with
  | nil => exact omittedArgument_alike h
  | cons first rest =>
      obtain ⟨name, argument⟩ := first
      exact .ite (lowerExpr_alike argument _ _ (checkArgument_alike hsame h))
        (lowerArgument_alike callee param callPath callPlace argsPath argsPlace rest h)

end

end Expressions

/-! ### Statements -/

namespace LoweringScope

theorem checkWrittenType_alike {name : String} {declared : StaticType} {written : Option String}
    (h : state.Alike related state') :
    (scope.checkWrittenType name declared written path state).Alike related
      (other.checkWrittenType name declared written place state') := by
  cases written with
  | none => exact h
  | some text => exact .ite h h.report

theorem storeInto_alike {into : Field String} (h : state.Alike related state') :
    (scope.storeInto into path state).Alike related (other.storeInto into place state') := by
  cases into with
  | given name => exact requireTarget_alike (fun target _ _ h => h.store name target) h
  | absent | misshapen => exact h.report

variable (hsame : scope.signatures.Agrees other.signatures)

include hsame

theorem checkAssignedElements_alike {name : String} {element : ValueKind} {items : List Expr}
    {position : Nat} (h : state.Alike related state') :
    (scope.checkAssignedElements name element path items position state).Alike related
      (other.checkAssignedElements name element place items position state') := by
  induction items generalizing position state state' with
  | nil => exact h
  | cons item rest ih =>
      simp only [checkAssignedElements, typeOf_alike hsame h item]
      cases other.typeOf state' item with
      | none => exact ih h
      | some found =>
          cases StaticType.ofKind? element with
          | none => exact ih h
          | some declared => exact ih (.ite h h.report)

theorem checkAssigned_alike {name : String} {declared : StaticType} {value : Expr}
    (h : state.Alike related state') :
    (scope.checkAssigned name declared value path state).Alike related
      (other.checkAssigned name declared value place state') := by
  unfold checkAssigned
  split
  next => exact checkAssignedElements_alike hsame h
  next =>
    rw [typeOf_alike hsame h value]
    cases other.typeOf state' value with
    | none => exact h
    | some found => exact .ite h h.report

theorem checkElement_alike {target : LocalSlot} {value : Expr}
    {error : ValueKind → StaticType → CompileError} (h : state.Alike related state') :
    (scope.checkElement target value error path state).Alike related
      (other.checkElement target value error place state') := by
  unfold checkElement
  rw [typeOf_alike hsame h value]
  cases target.type.element? with
  | none => exact h
  | some element =>
      cases other.typeOf state' value with
      | none => exact h
      | some found =>
          dsimp only
          cases StaticType.ofKind? element with
          | none => exact h
          | some declared => exact .ite h h.report

theorem lowerAssign_alike (name : Field String) (written : Option String) (value : Option Expr) :
    Parallel related (scope.lowerAssign name written value path)
      (other.lowerAssign name written value place) := by
  refine requireText_alike fun name => requireTarget_alike fun target state state' h => ?_
  have hwritten : Lowering.Alike related
      (scope.checkWrittenType name target.type written (path.member "type") state)
      (other.checkWrittenType name target.type written (place.member "type") state') :=
    checkWrittenType_alike h
  split
  next => exact hwritten.report
  next pointee => exact (hwritten.emitScalar _).store name target
  next => exact .store (lowerExpr_alike hsame _ _ _ (checkAssigned_alike hsame hwritten)) _ _

theorem lowerSetElement_alike (array : Field String) (index value : Option Expr) :
    Parallel related (scope.lowerSetElement array index value path)
      (other.lowerSetElement array index value place) := by
  refine requireText_alike fun array => requireArray_alike fun target =>
    require_alike fun value state state' h => ?_
  refine require_alike (fun index state state' h => ?_)
    (.emitWord (checkElement_alike hsame h) _ _)
  exact (lowerExpr_alike hsame value _ _ (lowerExpr_alike hsame index _ _ h)).emit _

theorem lowerPushElement_alike (array : Field String) (value : Option Expr) :
    Parallel related (scope.lowerPushElement array value path)
      (other.lowerPushElement array value place) := by
  refine requireText_alike fun array => requireArray_alike fun target =>
    require_alike fun value state state' h => ?_
  exact .emit (lowerExpr_alike hsame value _ _ (.emitWord (checkElement_alike hsame h) _ _)) _

theorem lowerReturn_alike (value : Expr) (h : state.Alike related state') :
    (scope.lowerReturn value path state).Alike related (other.lowerReturn value place state') := by
  unfold lowerReturn
  rw [h.builder]
  split
  next => exact h.emit _
  next => exact h.report
  next => exact h.report
  next =>
    refine .emit (lowerExpr_alike hsame _ _ _ ?_) _
    rw [typeOf_alike hsame h]
    cases other.typeOf state' _ with
    | none => exact h
    | some found => exact .ite h h.report

theorem lowerSubscribe_alike (event : Field String) (handler : Option HandlerTarget) :
    Parallel related (scope.lowerSubscribe event handler path)
      (other.lowerSubscribe event handler place) := by
  refine requireText_alike fun event state state' h => ?_
  cases handler with
  | none => exact h.report
  | some handler =>
      refine requireText_alike (fun function state state' h => ?_) (reportStray_alike _ _ h)
      simp only [h.builder, hsame.contains]
      exact .ite (.emit (.emitScalar (.emitScalar h _) _) _) h.report

theorem lowerForeignOperands_alike (operands : List ForeignOperand) (path place : SourcePath)
    (position : Nat) :
    Parallel related (scope.lowerForeignOperands path operands position)
      (other.lowerForeignOperands place operands position) := by
  intro state state' h
  induction operands generalizing position state state' with
  | nil => exact h
  | cons operand rest ih =>
      refine ih _ ?_
      cases operand with
      | misshapen => exact h.report
      | operand stray tag value =>
          refine requireText_alike (fun tag => require_alike fun value state state' h => ?_)
            (reportStray_alike _ _ h)
          exact lowerExpr_alike hsame value _ _ (h.emitScalar _)

theorem lowerForeignCall_alike {lib symbol returns : String} {operands : List ForeignOperand}
    {into : Field String} (h : state.Alike related state') :
    (scope.lowerForeignCall lib symbol returns operands into path state).Alike related
      (other.lowerForeignCall lib symbol returns operands into place state') := by
  have hoperands := lowerForeignOperands_alike hsame operands (path.member "args")
    (place.member "args") 0 h
  have hcall := (((hoperands.emitScalar (.string returns)).emitScalar (.string lib)).emitScalar
    (.string symbol)).emitCount .ffiCall operands.length
  unfold lowerForeignCall
  refine .ite h.report ?_
  cases into with
  | absent => exact hcall
  | misshapen | given => exact .ite hcall.report (storeInto_alike hcall)

theorem lowerForeign_alike (lib symbol returns : Field String)
    (operands : Field (List ForeignOperand)) (into : Field String) :
    Parallel related (scope.lowerForeign lib symbol returns operands into path)
      (other.lowerForeign lib symbol returns operands into place) := by
  refine requireText_alike fun lib => requireText_alike fun symbol state state' h => ?_
  cases returns with
  | misshapen => exact h.report
  | absent | given =>
      cases operands with
      | misshapen => exact h.report
      | absent | given => exact lowerForeignCall_alike hsame h

theorem lowerAllocate_alike (size : Option Expr) (into : Field String) :
    Parallel related (scope.lowerAllocate size into path)
      (other.lowerAllocate size into place) := by
  refine require_alike fun size state state' h => ?_
  have hsize := lowerExpr_alike hsame size (path.member "size") (place.member "size") h
  have hallocate : Lowering.Alike related
      (scope.storeInto into (path.member "into") ((lowerExpr scope size _ state).emit _))
      (other.storeInto into (place.member "into") ((lowerExpr other size _ state').emit _)) :=
    storeInto_alike (hsize.emit .memAlloc)
  cases into with
  | absent => exact h.report
  | misshapen => exact hallocate
  | given name =>
      simp only [h.builder]
      cases state'.builder.slot? name with
      | none => exact hallocate
      | some target => exact .ite hallocate h.report

omit hsame in
theorem requireWidth_alike {form : String} {width : Field String}
    {next next' : MemoryWidth → Lowering → Lowering}
    (hnext : ∀ width, Parallel related (next width) (next' width)) :
    Parallel related (scope.requireWidth form width path next)
      (other.requireWidth form width place next') := by
  refine requireText_alike fun text state state' h => ?_
  cases MemoryWidth.ofName? text with
  | some width => exact hnext width h
  | none => exact h.report

theorem lowerOffset_alike (offset : Option Expr) (path place : SourcePath) :
    Parallel related (scope.lowerOffset offset path) (other.lowerOffset offset place) := by
  intro state state' h
  cases offset with
  | some offset => exact lowerExpr_alike hsame offset _ _ h
  | none => exact h.emitScalar _

theorem lowerWriteMemory_alike (width : Field String) (pointer offset value : Option Expr) :
    Parallel related (scope.lowerWriteMemory width pointer offset value path)
      (other.lowerWriteMemory width pointer offset value place) := by
  refine requireWidth_alike fun width => require_alike fun pointer =>
    require_alike fun value state state' h => ?_
  have hpointer := lowerExpr_alike hsame pointer (path.member "ptr") (place.member "ptr") h
  have hoffset := lowerOffset_alike hsame offset path place hpointer
  exact .emit (.emitScalar (lowerExpr_alike hsame value _ _ hoffset) _) _

theorem lowerReadMemory_alike (width : Field String) (pointer offset : Option Expr)
    (into : Field String) :
    Parallel related (scope.lowerReadMemory width pointer offset into path)
      (other.lowerReadMemory width pointer offset into place) := by
  refine requireWidth_alike fun width => require_alike fun pointer state state' h => ?_
  have hpointer := lowerExpr_alike hsame pointer (path.member "ptr") (place.member "ptr") h
  have hoffset := lowerOffset_alike hsame offset path place hpointer
  cases into with
  | absent => exact h.report
  | misshapen | given => exact storeInto_alike (.emit (.emitScalar hoffset _) _)

end LoweringScope

mutual

theorem lowerStmt_alike (hsame : scope.signatures.Agrees other.signatures) (stmt : Stmt)
    (path place : SourcePath) :
    Parallel related (lowerStmt scope stmt path) (lowerStmt other stmt place) := by
  intro state state' h
  cases stmt with
  | notObject | unknownForm | misshapen | misshapenCall => exact h.report
  | overfull form stray body =>
      exact lowerStmt_alike hsame body path place (reportStray_alike _ _ h)
  | assign stray name written value =>
      exact lowerAssign_alike hsame name written value (reportStray_alike _ _ h)
  | print value => exact (lowerExpr_alike hsame value _ _ h).emit _
  | call target given arguments =>
      cases arguments with
      | none => exact lowerCall_alike hsame (fun _ _ _ _ h => h) h
      | some arguments =>
          simp only [lowerStmt]
          exact lowerCall_alike hsame
            (fun callee param => lowerArgument_alike hsame callee param _ _ _ _ arguments) h
  | branch stray condition whenTrue whenFalse =>
      cases condition with
      | none => exact .report (reportStray_alike _ _ h)
      | some condition =>
          have hstart : Lowering.Alike related
              (scope.reportStray "'if'" stray (path.member "if") state)
              (other.reportStray "'if'" stray (place.member "if") state') :=
            reportStray_alike _ _ h
          have htest := lowerExpr_alike hsame condition ((path.member "if").member "condition")
            ((place.member "if").member "condition") hstart
          have hmiddle := lowerField_alike hsame whenTrue ((path.member "if").member "then")
            ((place.member "if").member "then") (path.member "if") (place.member "if")
            (.blockNotList "then") (.fieldRequired "if" "then") (htest.emitJump .jmpIfFalse)
          rw [lowerStmt, lowerStmt]
          cases whenFalse with
          | absent => exact hmiddle.land .jmpIfFalse htest
          | misshapen =>
              have hfalse := (hmiddle.emitJump .jmp).land .jmpIfFalse htest
              exact .land hfalse.report .jmp hmiddle
          | given stmts =>
              have hfalse := (hmiddle.emitJump .jmp).land .jmpIfFalse htest
              exact .land (lowerBlock_alike hsame stmts _ _ 0 hfalse) .jmp hmiddle
  | loop stray condition body =>
      cases condition with
      | none => exact .report (reportStray_alike _ _ h)
      | some condition =>
          have hstart : Lowering.Alike related
              (scope.reportStray "'while'" stray (path.member "while") state)
              (other.reportStray "'while'" stray (place.member "while") state') :=
            reportStray_alike _ _ h
          have htest := lowerExpr_alike hsame condition ((path.member "while").member "condition")
            ((place.member "while").member "condition") hstart
          have hbody := lowerField_alike hsame body ((path.member "while").member "body")
            ((place.member "while").member "body") (path.member "while") (place.member "while")
            (.blockNotList "body") (.fieldRequired "while" "body") (htest.emitJump .jmpIfFalse)
          rw [lowerStmt, lowerStmt, hstart.builder]
          exact (hbody.back .jmp _).land .jmpIfFalse htest
  | setElement stray array index value =>
      exact lowerSetElement_alike hsame array index value (reportStray_alike _ _ h)
  | pushElement stray array value =>
      exact lowerPushElement_alike hsame array value (reportStray_alike _ _ h)
  | giveBack value => exact lowerReturn_alike hsame value h
  | subscribe stray event handler =>
      exact lowerSubscribe_alike hsame event handler (reportStray_alike _ _ h)
  | foreign stray lib symbol returns operands into =>
      exact lowerForeign_alike hsame lib symbol returns operands into (reportStray_alike _ _ h)
  | allocate stray size into =>
      exact lowerAllocate_alike hsame size into (reportStray_alike _ _ h)
  | writeMemory stray width pointer offset value =>
      exact lowerWriteMemory_alike hsame width pointer offset value (reportStray_alike _ _ h)
  | readMemory stray width pointer offset into =>
      exact lowerReadMemory_alike hsame width pointer offset into (reportStray_alike _ _ h)
  | release pointer => exact (lowerExpr_alike hsame pointer _ _ h).emit _

theorem lowerField_alike (hsame : scope.signatures.Agrees other.signatures)
    (field : Field (List Stmt)) (bodyPath bodyPlace path place : SourcePath)
    (misshapen absent : CompileError) :
    Parallel related
      (fun state => match field with
        | .given stmts => lowerBlock scope stmts bodyPath 0 state
        | .misshapen => scope.report bodyPath misshapen state
        | .absent => scope.report path absent state)
      (fun state => match field with
        | .given stmts => lowerBlock other stmts bodyPlace 0 state
        | .misshapen => other.report bodyPlace misshapen state
        | .absent => other.report place absent state) := by
  intro state state' h
  cases field with
  | given stmts => exact lowerBlock_alike hsame stmts bodyPath bodyPlace 0 h
  | absent | misshapen => exact h.report

theorem lowerBlock_alike (hsame : scope.signatures.Agrees other.signatures) (stmts : List Stmt)
    (path place : SourcePath) (position : Nat) :
    Parallel related (lowerBlock scope stmts path position)
      (lowerBlock other stmts place position) := by
  intro state state' h
  cases stmts with
  | nil => exact h
  | cons stmt rest =>
      exact lowerBlock_alike hsame rest path place (position + 1) (lowerStmt_alike hsame stmt _ _ h)

end

/-! ### Functions -/

namespace Compiler

theorem declareLocal_alike {item : Json} (h : state.Alike related state') :
    (declareLocal scope path item state).Alike related (declareLocal other place item state') := by
  unfold declareLocal
  cases (item.get? "name").bind Json.string? with
  | none => exact h.report
  | some name =>
      simp only [h.builder]
      refine .ite h.report (.ite h.report (.ite h.report ?_))
      cases (item.get? "type").bind Json.string? with
      | none => exact h.report
      | some text =>
          dsimp only
          cases StaticType.ofText? text with
          | none => exact h.report
          | some type => exact h.modify _

theorem declareLocals_alike {items : List Json} {position : Nat} (h : state.Alike related state') :
    (declareLocals scope path items position state).Alike related
      (declareLocals other place items position state') := by
  induction items generalizing position state state' with
  | nil => exact h
  | cons item rest ih => exact ih (declareLocal_alike h)

theorem openLocals_alike (declaration : Json) (path place : SourcePath)
    (h : state.Alike related state') :
    (openLocals scope path declaration state).Alike related
      (openLocals other place declaration state') := by
  unfold openLocals
  split
  next => exact h
  next => exact declareLocals_alike h
  next => exact h.report

/-- The code of a function, and whether there is anything wrong with it, depend on its declaration
and on the signatures that are known only. -/
theorem lowerFunction_alike (hsame : scope.signatures.Agrees other.signatures)
    (declaration : Json) (path place : SourcePath) :
    Parallel related (lowerFunction scope path declaration)
      (lowerFunction other place declaration) := by
  intro state state' h
  unfold lowerFunction
  refine .emit ?_ _
  cases (declaration.get? "body").bind Json.array? with
  | none => exact (openLocals_alike declaration path place h).report
  | some stmts =>
      exact lowerBlock_alike hsame _ _ _ 0 (openLocals_alike declaration path place h)

end Compiler

end DocScript
