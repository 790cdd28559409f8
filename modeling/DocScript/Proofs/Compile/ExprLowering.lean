import DocScript.Proofs.Compile.CleanLowering

/-! # Lowering expressions emits their code

Lowering an expression that ends clean adds exactly the commands that the expression
stands for, and leaves the assigned names as they were.
-/

namespace DocScript

open Command FunctionBuilder Lowering

/-- Every operator takes a number of operands. -/
theorem Operator.operand_opcode (operator : Operator) : operator.opcode.operand = .count := by
  cases operator with
  | arithmetic op => cases op <;> rfl
  | _ => rfl

/-- The default of a parameter is a scalar in every known signature. -/
def SignatureTable.ScalarDefaults (signatures : SignatureTable) : Prop :=
  ∀ callee signature, signatures.get? callee = some signature →
    ∀ param ∈ signature.params, ∀ constant, param.default = some constant →
      ∃ value, constant = .scalar value

namespace Shape

variable (body : BodyScope)

/-- Code that leaves the assigned names as they are. -/
def plain (code : List String → List Constant → List Command → Prop) : Shape :=
  fun assigned _ pool commands assigned' => assigned' = assigned ∧ code assigned pool commands

def expr (expr : Expr) : Shape :=
  plain fun assigned pool => ExprCode body pool assigned expr

def items (operator : Option Operator) (exprs : List Expr) : Shape :=
  plain fun assigned pool => ItemsCode body pool assigned operator exprs

def argument (param : Parameter) (arguments : List (String × Expr)) : Shape :=
  plain fun assigned pool => ArgumentCode body pool assigned param arguments

def arguments (given : List (String × Expr)) (params : List Parameter) : Shape :=
  plain fun assigned pool => ArgumentsCode body pool assigned given params

/-- The code of a call, as an operand or as a statement. -/
def call (asValue : Bool) (target : CallTarget) (place : ArgumentPlace)
    (arguments : List (String × Expr)) : Shape :=
  plain fun assigned pool commands => ∃ callee signature given position,
    body.Calls asValue target place (arguments.map Prod.fst) callee signature ∧
    ArgumentsCode body pool assigned arguments signature.params given ∧
    Holds pool position (.string callee) ∧
    commands = given ++ [⟨.pushConst, position⟩, ⟨.call, signature.params.length⟩]

end Shape

namespace LoweringScope

variable {scope : LoweringScope} {names : FunctionBuilder} {state : Lowering}
  {path around : SourcePath}

/-! ### Checks of types -/

/-- A value that was found to go with the declared type goes with it. -/
theorem accepts_of_typeOf (hwithin : Within names state) {declared : StaticType} {value : Expr}
    (haccepts : ∀ found, scope.typeOf state value = some found → declared.accepts found = true) :
    (scope.body names).Accepts declared value := by
  intro found hfound
  rw [← typeOf_of_within hwithin] at hfound
  exact haccepts found hfound

theorem checkElements_lowers {items : List Expr} {position : Nat} {first : Option StaticType} :
    Lowers names state (scope.checkElements path items position first state)
      (.fact ((scope.body names).Uniform first items)) := by
  induction items generalizing position first state with
  | nil => exact Lowers.refl state
  | cons item rest ih =>
      refine .assuming fun hwithin => ?_
      unfold checkElements
      rw [BodyScope.Uniform, ← typeOf_of_within hwithin]
      split
      next hnone =>
        refine ih.imp fun huniform => ⟨fun _ _ => accepts_of_typeOf hwithin ?_, ?_⟩
        · simp [hnone]
        · simpa [hnone] using huniform
      next found hfound =>
        refine ih.imp fun huniform => ⟨nofun, ?_⟩
        simpa [hfound] using huniform
      next found expected hfound =>
        split
        next haccepts =>
          refine ih.imp fun huniform => ⟨?_, huniform⟩
          rintro _ ⟨⟩
          exact accepts_of_typeOf hwithin (by simpa [hfound] using haccepts)
        next => exact report_andThen ih

theorem refuseBool_lowers {form : String} {operand : Expr} :
    Lowers names state (scope.refuseBool form operand path state)
      (.fact ((scope.body names).typeOf operand ≠ some .bool)) := by
  refine .assuming fun hwithin => ?_
  unfold refuseBool
  rw [typeOf_of_within hwithin]
  split
  next => exact report_lowers _
  next hbool => exact .fact rfl fun _ hclean => ⟨hclean, hbool⟩

theorem measurable_of_withoutLength? {operand : Expr} (hwithin : Within names state)
    (hnone : withoutLength? state operand = none) : (scope.body names).Measurable operand := by
  unfold BodyScope.Measurable
  split
  next name =>
    intro target hslot
    have hslot' : state.builder.slot? name = some target :=
      (slot?_of_within hwithin).trans hslot
    simp only [withoutLength?, hslot'] at hnone
    split at hnone
    next hlength => simpa using hlength
    next => cases hnone
  next => trivial

theorem checkArgument_lowers {callee : String} {param : Parameter} {argument : Expr} :
    Lowers names state (scope.checkArgument callee param argument path state)
      (.fact ((scope.body names).Accepts param.type argument)) := by
  refine .assuming fun hwithin => ?_
  unfold checkArgument
  split
  next hnone =>
    exact .fact rfl fun _ hclean => ⟨hclean, accepts_of_typeOf hwithin (by simp [hnone])⟩
  next found hfound =>
    split
    next haccepts =>
      refine .fact rfl fun _ hclean => ⟨hclean, accepts_of_typeOf hwithin ?_⟩
      simpa [hfound] using haccepts
    next => exact report_lowers _

/-! ### Locals -/

variable {name : String}

theorem load_lowers :
    Lowers names state (scope.load name path state)
      (.plain fun assigned _ commands => ∃ target,
        (scope.body names).Reads assigned name target ∧
          commands = [⟨.loadLocal, target.slot⟩]) := by
  refine .assuming fun hwithin => ?_
  unfold load
  rw [slot?_of_within hwithin]
  split
  next => exact report_lowers _
  next target hslot =>
    split
    next hassigned =>
      refine (emitWord_lowers rfl (slot_le hslot)).mono ?_
      rintro pool _ _ ⟨rfl, rfl⟩
      exact ⟨rfl, target, ⟨hslot, List.contains_iff_mem.1 hassigned⟩, rfl⟩
    next => exact report_lowers _

theorem requireArray_lowers {next : LocalSlot → Lowering → Lowering} {shape : Shape}
    (hnext : ∀ target, (scope.body names).ReadsArray state.builder.assigned name target →
      Lowers names state (next target state) shape) :
    Lowers names state (scope.requireArray name path next state) shape := by
  refine .assuming fun hwithin => ?_
  unfold requireArray
  rw [slot?_of_within hwithin]
  split
  next => exact report_lowers _
  next target hslot =>
    split
    next => exact report_lowers _
    next harray =>
      split
      next hassigned =>
        exact hnext target ⟨⟨hslot, List.contains_iff_mem.1 hassigned⟩, by simpa using harray⟩
      next => exact report_lowers _

/-! ### Calls -/

theorem calleeName_of_within (hwithin : Within names state) (space : Option String)
    (function : String) :
    state.builder.calleeName space function = names.calleeName space function := by
  rw [← hwithin.outline]
  rfl

/-- Lowering the argument of any parameter with a scalar default, or none, emits its code. -/
def BindsArguments (scope : LoweringScope) (names : FunctionBuilder)
    (arguments : List (String × Expr)) (bind : Parameter → Lowering → Lowering) : Prop :=
  ∀ param state,
    (∀ constant, param.default = some constant → ∃ value, constant = .scalar value) →
    Lowers names state (bind param state) (.argument (scope.body names) param arguments)

theorem omittedArgument_lowers {callee : String} {param : Parameter}
    (hscalar : ∀ constant, param.default = some constant → ∃ value, constant = .scalar value) :
    Lowers names state (scope.omittedArgument callee param path state)
      (.argument (scope.body names) param []) := by
  unfold omittedArgument
  split
  next constant hdefault =>
    obtain ⟨value, rfl⟩ := hscalar constant hdefault
    refine emitScalar_lowers.mono ?_
    rintro pool _ _ ⟨position, rfl, hpool, rfl⟩
    exact ⟨rfl, .omitted hdefault hpool⟩
  next => exact report_lowers _

theorem foldArguments_lowers {arguments : List (String × Expr)} {params : List Parameter}
    {bind : Parameter → Lowering → Lowering} (hbind : scope.BindsArguments names arguments bind)
    (hscalar : ∀ param ∈ params, ∀ constant, param.default = some constant →
      ∃ value, constant = .scalar value) :
    Lowers names state (params.foldl (fun state param => bind param state) state)
      (.arguments (scope.body names) arguments params) := by
  induction params generalizing state with
  | nil =>
      refine (Lowers.refl state).mono ?_
      rintro pool _ _ ⟨rfl, rfl, -⟩
      exact ⟨rfl, .nil⟩
  | cons param rest ih =>
      rw [List.forall_mem_cons] at hscalar
      refine ((hbind param state hscalar.1).andThen (ih hscalar.2)).mono ?_
      rintro pool _ _ ⟨first, others, _, rfl, ⟨rfl, hfirst⟩, rfl, hothers⟩
      exact ⟨rfl, .cons hfirst hothers⟩

/-- A call pushes its arguments in the order of the parameters, and then the name of the
callee. -/
theorem lowerCall_lowers (hdefaults : scope.signatures.ScalarDefaults) {asValue : Bool}
    {target : CallTarget} {place : ArgumentPlace} {arguments : List (String × Expr)}
    {bind : String → Parameter → Lowering → Lowering}
    (hbind : ∀ callee, scope.BindsArguments names arguments (bind callee)) :
    Lowers names state
      (scope.lowerCall asValue target place (some (arguments.map Prod.fst)) path around bind state)
      (.call (scope.body names) asValue target place arguments) := by
  unfold lowerCall
  dsimp only
  refine (reportStray_lowers scope "'call'" target.stray path).after_fact ?_
  generalize scope.reportStray "'call'" target.stray path state = middle
  refine .assuming fun hwithin => ?_
  split
  next => exact report_lowers _
  next function hfunction =>
    rw [calleeName_of_within hwithin]
    split
    next => exact report_lowers _
    next signature hknown =>
      split
      next => exact report_lowers _
      next hvalued =>
        split
        next => exact report_lowers _
        next hplaced =>
          -- Arguments without a parameter are reported, and lowering goes on.
          let callee := names.calleeName target.space function
          let unknown :=
            (arguments.map Prod.fst).filter fun name => (signature.param? name).isNone
          refine (reports_lowers scope unknown (argumentsPath place path around).member
            (CompileError.unknownArgument callee)).after_fact ?_
          split
          next => exact report_lowers _
          next hfew =>
            refine (((foldArguments_lowers (hbind callee)
              (hdefaults callee signature hknown)).andThen emitScalar_lowers).andThen
              (emitCount_lowers rfl (Nat.le_of_not_lt hfew))).mono ?_
            rintro pool _ _ ⟨_, _, _, rfl, ⟨given, _, _, rfl, ⟨rfl, hgiven⟩,
              ⟨position, rfl, hpool, rfl⟩⟩, ⟨rfl, rfl⟩⟩ hexpected hexact
            refine ⟨rfl, _, signature, given, position, ?_, hgiven, hpool, by simp⟩
            exact {
              exact := hexact
              named := ⟨function, hfunction, rfl⟩
              known := hknown
              valued := by simpa using hvalued
              placed := hplaced
              expected := by simpa [unknown, Option.isSome_iff_ne_none] using hexpected
              few := Nat.le_of_not_lt hfew }

/-- A call whose arguments are not an object is refused. -/
theorem lowerCall_without_arguments {asValue : Bool} {target : CallTarget} {place : ArgumentPlace}
    {bind : String → Parameter → Lowering → Lowering} {shape : Shape} :
    Lowers names state (scope.lowerCall asValue target place none path around bind state)
      shape := by
  unfold lowerCall
  refine (reportStray_lowers scope "'call'" target.stray path).after_fact ?_
  split
  next => exact report_lowers _
  next =>
    simp only
    split
    next => exact report_lowers _
    next =>
      split
      next => exact report_lowers _
      next =>
        split
        next => exact report_lowers _
        next => exact report_lowers _

/-! ### Expressions -/

/-- An operand below an operator is checked before it is lowered. -/
theorem checkOperand_lowers {operator : Option Operator} {item : Expr} :
    Lowers names state
      (match operator with
        | some operator =>
            if operator.isArithmetic then scope.refuseBool operator.name item path state else state
        | none => state)
      (.fact ((scope.body names).Operand operator item)) := by
  cases operator with
  | none => exact (Lowers.refl state).imp fun _ harithmetic => by simp at harithmetic
  | some operator =>
      simp only
      split
      next => exact refuseBool_lowers.imp fun hbool _ => hbool
      next hother => exact (Lowers.refl state).imp fun _ harithmetic => absurd harithmetic hother

end LoweringScope

open LoweringScope

variable {scope : LoweringScope} {names : FunctionBuilder}

mutual

/-- Lowering an expression adds its code. -/
theorem lowerExpr_lowers (names : FunctionBuilder)
    (hdefaults : scope.signatures.ScalarDefaults) (expr : Expr) (path : SourcePath)
    (state : Lowering) :
    Lowers names state (lowerExpr scope expr path state) (.expr (scope.body names) expr) := by
  cases expr with
  | int value =>
      refine emitScalar_lowers.mono ?_
      rintro pool _ _ ⟨position, rfl, hpool, rfl⟩
      exact ⟨rfl, .int hpool⟩
  | float value =>
      refine emitScalar_lowers.mono ?_
      rintro pool _ _ ⟨position, rfl, hpool, rfl⟩
      exact ⟨rfl, .float hpool⟩
  | bool value =>
      refine emitScalar_lowers.mono ?_
      rintro pool _ _ ⟨position, rfl, hpool, rfl⟩
      exact ⟨rfl, .bool hpool⟩
  | null =>
      refine emitScalar_lowers.mono ?_
      rintro pool _ _ ⟨position, rfl, hpool, rfl⟩
      exact ⟨rfl, .null hpool⟩
  | reference name =>
      refine load_lowers.mono ?_
      rintro pool _ _ ⟨rfl, target, hread, rfl⟩
      exact ⟨rfl, .reference hread⟩
  | array items =>
      unfold lowerExpr
      split
      next => exact report_lowers _
      next hcount =>
        have hitems := lowerItems_lowers names hdefaults none items path 0
          (scope.checkElements path items 0 none state)
        refine (checkElements_lowers.andThen (hitems.andThen
          (emitCount_lowers rfl (Nat.le_of_not_lt hcount)))).mono ?_
        rintro pool _ _ ⟨_, _, _, rfl, ⟨rfl, rfl, huniform⟩, ⟨commands, _, _, rfl, ⟨rfl, hcode⟩,
          ⟨rfl, rfl⟩⟩⟩
        exact ⟨rfl, .array (Nat.le_of_not_lt hcount) huniform hcode⟩
  | unknownForm found => exact report_lowers _
  -- A stray key is an error, so the state behind it is not clean.
  | overfull form stray inner =>
      refine (reportStray_lowers scope s!"'{form}' expression" stray path).after_fact ?_
      refine (lowerExpr_lowers names hdefaults inner path _).mono ?_
      rintro pool _ _ ⟨rfl, hcode⟩ rfl
      exact ⟨rfl, .overfull hcode⟩
  | string text =>
      cases text with
      | none => exact report_lowers _
      | some text =>
          refine emitScalar_lowers.mono ?_
          rintro pool _ _ ⟨position, rfl, hpool, rfl⟩
          exact ⟨rfl, .string hpool⟩
  | named name =>
      cases name with
      | none => exact report_lowers _
      | some name =>
          refine load_lowers.mono ?_
          rintro pool _ _ ⟨rfl, target, hread, rfl⟩
          exact ⟨rfl, .named hread⟩
  | not operand =>
      refine ((lowerExpr_lowers names hdefaults operand _ state).andThen (emit_lowers rfl)).mono ?_
      rintro pool _ _ ⟨_, _, _, rfl, ⟨rfl, hcode⟩, ⟨rfl, rfl⟩⟩
      exact ⟨rfl, .not hcode⟩
  | negate operand =>
      have hoperand := lowerExpr_lowers names hdefaults operand (path.member "negate")
        (scope.refuseBool "negate" operand (path.member "negate") state)
      refine (refuseBool_lowers.andThen (hoperand.andThen (emit_lowers rfl))).mono ?_
      rintro pool _ _ ⟨_, _, _, rfl, ⟨rfl, rfl, hbool⟩, ⟨commands, _, _, rfl, ⟨rfl, hcode⟩,
        ⟨rfl, rfl⟩⟩⟩
      exact ⟨rfl, .negate hbool hcode⟩
  | length operand =>
      refine .assuming fun hwithin => ?_
      simp only [lowerExpr]
      split
      next => exact report_lowers _
      next hnone =>
        have hmeasurable : (scope.body names).Measurable operand :=
          measurable_of_withoutLength? hwithin hnone
        have hoperand := lowerExpr_lowers names hdefaults operand (path.member "length") state
        refine (hoperand.andThen (emit_lowers rfl)).mono ?_
        rintro pool _ _ ⟨_, _, _, rfl, ⟨rfl, hcode⟩, ⟨rfl, rfl⟩⟩
        exact ⟨rfl, .length hmeasurable hcode⟩
  | operator operator operands =>
      cases operands with
      | none => exact report_lowers _
      | some operands =>
          simp only [lowerExpr]
          split
          next => exact report_lowers _
          next hpositive =>
            split
            next => exact report_lowers _
            next hcount =>
              have hoperands := lowerItems_lowers names hdefaults (some operator) operands
                (path.member operator.name) 0 state
              refine (hoperands.andThen (emitCount_lowers operator.operand_opcode
                (Nat.le_of_not_lt hcount))).mono ?_
              rintro pool _ _ ⟨_, _, _, rfl, ⟨rfl, hcode⟩, ⟨rfl, rfl⟩⟩
              exact ⟨rfl, .operator (by simpa using hpositive) (Nat.le_of_not_lt hcount) hcode⟩
  | misshapenGet => exact report_lowers _
  | get stray array index =>
      refine (reportStray_lowers scope "'get'" stray (path.member "get")).after_fact ?_
      cases array with
      | none => exact report_lowers _
      | some array =>
          cases index with
          | none => exact report_lowers _
          | some index =>
              simp only [lowerExpr]
              refine requireArray_lowers fun target hread => ?_
              have hindex := fun state =>
                lowerExpr_lowers names hdefaults index ((path.member "get").member "at") state
              refine ((emitWord_lowers rfl (slot_le hread.1.1)).andThen
                ((hindex _).andThen (emit_lowers rfl))).mono ?_
              rintro pool _ _ ⟨_, _, _, rfl, ⟨rfl, rfl⟩, ⟨_, _, _, rfl, ⟨rfl, hcode⟩,
                ⟨rfl, rfl⟩⟩⟩ rfl
              exact ⟨rfl, .get hread hcode⟩
  | misshapenCall => exact report_lowers _
  | call target place arguments =>
      cases arguments with
      | none => exact lowerCall_without_arguments
      | some arguments =>
          refine (lowerCall_lowers hdefaults fun callee =>
            lowerArgument_lowers names hdefaults callee _ _ arguments).mono ?_
          rintro pool _ _ ⟨rfl, callee, signature, given, position, hcall, hgiven, hpool, rfl⟩
          exact ⟨rfl, .call hcall hgiven hpool⟩

/-- Lowering expressions one after the other adds their code in this order. -/
theorem lowerItems_lowers (names : FunctionBuilder)
    (hdefaults : scope.signatures.ScalarDefaults) (operator : Option Operator)
    (items : List Expr) (path : SourcePath) (position : Nat)
    (state : Lowering) :
    Lowers names state (lowerItems scope operator items path position state)
      (.items (scope.body names) operator items) := by
  cases items with
  | nil =>
      refine (Lowers.refl state).mono ?_
      rintro pool _ _ ⟨rfl, rfl, -⟩
      exact ⟨rfl, .nil⟩
  | cons item rest =>
      have hitem := fun state =>
        lowerExpr_lowers names hdefaults item (path.element position) state
      have hrest := fun state =>
        lowerItems_lowers names hdefaults operator rest path (position + 1) state
      refine (checkOperand_lowers.andThen ((hitem _).andThen (hrest _))).mono ?_
      rintro pool _ _ ⟨_, _, _, rfl, ⟨rfl, rfl, hoperand⟩, ⟨one, others, _, rfl, ⟨rfl, hone⟩,
        ⟨rfl, hothers⟩⟩⟩
      refine ⟨rfl, ?_⟩
      rw [List.nil_append]
      exact .cons hoperand hone hothers

/-- Lowering the argument of a parameter adds its code, or that of the default. -/
theorem lowerArgument_lowers (names : FunctionBuilder)
    (hdefaults : scope.signatures.ScalarDefaults) (callee : String) (callPath argsPath : SourcePath)
    (arguments : List (String × Expr)) :
    scope.BindsArguments names arguments
      fun param state => lowerArgument scope callee param callPath argsPath arguments state := by
  intro param state hscalar
  cases arguments with
  | nil => exact omittedArgument_lowers hscalar
  | cons first rest =>
      obtain ⟨name, argument⟩ := first
      simp only [lowerArgument]
      split
      next hname =>
        have hargument := fun state =>
          lowerExpr_lowers names hdefaults argument (argsPath.member name) state
        refine (checkArgument_lowers.andThen (hargument _)).mono ?_
        rintro pool _ _ ⟨_, commands, _, rfl, ⟨rfl, rfl, haccepts⟩, ⟨rfl, hcode⟩⟩
        exact ⟨rfl, .given hname haccepts hcode⟩
      next hname =>
        refine (lowerArgument_lowers names hdefaults callee callPath argsPath rest param state
          hscalar).mono ?_
        rintro pool _ _ ⟨rfl, hcode⟩
        exact ⟨rfl, .later hname hcode⟩

end

end DocScript
