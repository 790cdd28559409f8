import DocScript.Proofs.Compile.Occurrence
import DocScript.Proofs.Compile.Resolution

/-! # What arguments are bound to

A call binds each parameter of its callee to the argument of its name, or else to the default. The
argument is checked against the type of the parameter where the call is compiled. The default is
read with the declaration of the callee, which does not look at its type: a call can rely on the
type of a default only if the declaration has written one that fits.
-/

namespace DocScript

/-! ### The calls in a text -/

/-- The call stands somewhere in the statement, as a statement or in an expression. -/
def Stmt.Contains (target : CallTarget) (arguments : List (String × Expr)) (stmt : Stmt) : Prop :=
  ∃ place, Stmt.Part (.call target place (some arguments)) stmt ∨
    stmt.Mentions (.call target place (some arguments))

/-- The call has passed the checks of calls, and there is code for its arguments. -/
def BodyScope.Compiles (body : BodyScope) (pool : List Constant) (target : CallTarget)
    (arguments : List (String × Expr)) : Prop :=
  ∃ asValue place callee signature,
    body.Calls asValue target place (arguments.map Prod.fst) callee signature ∧
      ∃ assigned commands, ArgumentsCode body pool assigned arguments signature.params commands

/-- All calls in a statement that is compiled are compiled. -/
theorem Stmt.Contains.compiles {body : BodyScope} {pool : List Constant} {assigned : List String}
    {target : CallTarget} {arguments : List (String × Expr)} {stmt : Stmt}
    (h : stmt.Contains target arguments) {start : Nat} {commands : List Command}
    {after : List String} (hcode : StmtCode body pool assigned start stmt commands after) :
    body.Compiles pool target arguments := by
  obtain ⟨place, hpart | hmentions⟩ := h
  · obtain ⟨_, _, _, _, hcall, -⟩ := hpart.compiles hcode
    cases hcall with
    | call hcall harguments _ => exact ⟨_, _, _, _, hcall, _, _, harguments⟩
  · obtain hnull | ⟨_, _, hcall, -⟩ := hmentions.compiles hcode
    · cases hnull
    · cases hcall with
      | call hcall harguments _ => exact ⟨_, _, _, _, hcall, _, _, harguments⟩

/-! ### Defaults as they are declared -/

/-- The default of a listed parameter goes with its type, if it has one and that is not null. -/
def defaultFits (item : Json) : Bool :=
  match paramType item, (item.get? "default").bind literal? with
  | .ok type, some (.scalar value) => (StaticType.ofKind? value.kind).all type.accepts
  | _, _ => true

/-- The defaults of all parameters that the declaration lists go with their types. -/
def defaultsFit (declaration : Json) : Bool :=
  ((listed? declaration "params").getD []).all defaultFits

theorem Parameter.ReadFrom.accepts_default {param : Parameter} {item : Json} {value : Scalar}
    {found : StaticType} (h : param.ReadFrom item) (hfits : defaultFits item = true)
    (hdefault : param.default = some (.scalar value))
    (hfound : StaticType.ofKind? value.kind = some found) : param.type.accepts found = true := by
  have hread := h.default
  rw [hdefault] at hread
  have hliteral : (item.get? "default").bind literal? = some (.scalar value) := by
    unfold paramDefault at hread
    split at hread
    next => cases hread
    next literal hwritten =>
      split at hread
      next constant hconstant =>
        cases hread
        rw [hwritten]
        exact hconstant
      next => cases hread
  unfold defaultFits at hfits
  rw [h.type, hliteral] at hfits
  simpa [hfound] using hfits

/-- Where the defaults of all declarations go with their types, those of all signatures do. -/
theorem accepts_default {units : List SourceUnit} {compilation : Compilation} {callee : String}
    {signature : Signature} (hcompile : compileUnits units = .ok compilation)
    (hfit : ∀ space declaration, Declared units space declaration → defaultsFit declaration = true)
    (hknown : (programSignatures units).get? callee = some signature) :
    ∀ param ∈ signature.params, ∀ value, param.default = some (.scalar value) →
      ∀ found, StaticType.ofKind? value.kind = some found → param.type.accepts found = true := by
  intro param hparam value hdefault found hfound
  cases param_source hcompile hknown hparam with
  | declared hdeclared hitems hitem hread =>
      have hall := hfit _ _ hdeclared
      rw [defaultsFit, hitems, Option.getD_some, List.all_eq_true] at hall
      exact hread.accepts_default (hall _ hitem) hdefault hfound
  | native hnative => cases hdefault

/-! ### What parameters are bound to -/

/-- What a call binds a parameter to, and that its type accepts it as far as it is known. -/
inductive BodyScope.Binds (body : BodyScope) (arguments : List (String × Expr))
    (param : Parameter) : Prop where
  | given {argument : Expr} (hgiven : arguments.lookup param.name = some argument)
      (haccepts : ∀ found, body.typeOf argument = some found → param.type.accepts found = true)
  | omitted {value : Scalar} (hmissing : arguments.lookup param.name = none)
      (hdefault : param.default = some (.scalar value))
      (haccepts : ∀ found, StaticType.ofKind? value.kind = some found →
        param.type.accepts found = true)

/-- Every bound argument passes the check of its type. A program that compiles has code for each of
its declarations. Each call that stands anywhere in the body of one is bound to a known signature,
and each parameter is bound to the argument of its name, if there is one, which is not known to be
of a type that the parameter does not accept, or else to its default. If all declarations have
written defaults that go with the types of their parameters, then that one does, too. -/
theorem calls_bind_accepted {units : List SourceUnit} {compilation : Compilation}
    (hcompile : compileUnits units = .ok compilation)
    (hfit : ∀ space declaration, Declared units space declaration → defaultsFit declaration = true)
    {space : String} {declaration : Json} (hdeclared : Declared units space declaration) :
    ∃ (function : CompiledFunction Constant)
      (made : Translation (programSignatures units) space declaration function),
      function ∈ compilation.functions.functions ∧
      ∀ stmt ∈ made.stmts, ∀ target arguments, stmt.Contains target arguments →
        ∃ name signature, target.function = some name ∧
          (programSignatures units).get? (made.names.calleeName target.space name) =
            some signature ∧
          ∀ param ∈ signature.params,
            BodyScope.Binds ⟨programSignatures units, made.names⟩ arguments param := by
  obtain ⟨function, made, hmem⟩ := exists_translation hcompile hdeclared
  refine ⟨function, made, hmem, fun stmt hstmt target arguments hcontains => ?_⟩
  obtain ⟨_, _, _, _, hcode, -⟩ := made.block.of_mem hstmt
  obtain ⟨_, _, callee, signature, hcall, _, _, harguments⟩ := hcontains.compiles hcode
  obtain ⟨function, hfunction, rfl⟩ := hcall.named
  refine ⟨function, signature, hfunction, hcall.known, fun param hparam => ?_⟩
  obtain ⟨_, hargument, -⟩ := harguments.of_mem hparam
  rcases hargument.source with ⟨argument, hgiven, haccepts, -⟩ | ⟨hmissing, value, hdefault⟩
  · exact .given hgiven haccepts
  · exact .omitted hmissing hdefault
      (accepts_default hcompile hfit hcall.known param hparam value hdefault)

/-- A function with a default, and a call of it among the arguments of another one. -/
def nesting : SourceUnit where
  id := "nesting.json"
  text := "\x7b\"namespace\": \"M\", \"functions\": [
    \x7b\"name\": \"pick\", \"type\": \"int\", \"params\": [\x7b\"name\": \"a\"\x7d,
      \x7b\"name\": \"b\", \"type\": \"float\", \"default\": 2\x7d],
      \"body\": [\x7b\"return\": \"a\"\x7d]\x7d,
    \x7b\"name\": \"main\", \"body\": [\x7b\"print\": \x7b\"call\": \x7b
      \"function\": \"pick\", \"args\": \x7b\"a\": \x7b\"call\": \x7b
        \"function\": \"pick\", \"args\": \x7b\"a\": 1\x7d\x7d\x7d\x7d\x7d\x7d\x7d]\x7d]\x7d"

/-- The arguments of the call that is itself an argument of what is printed. -/
def innerCall? : List Stmt → Option (CallTarget × List (String × Expr))
  | [.print (.call _ _ (some [(_, .call target _ (some arguments))]))] => some (target, arguments)
  | _ => none

theorem contains_of_innerCall? {stmts : List Stmt} {target : CallTarget}
    {arguments : List (String × Expr)} (h : innerCall? stmts = some (target, arguments)) :
    ∃ stmt ∈ stmts, stmt.Contains target arguments := by
  unfold innerCall? at h
  split at h
  next =>
    cases h
    exact ⟨_, List.mem_singleton_self _, _, .inr ⟨_, _, .here, .print,
      .argument List.lookup_cons_self .here⟩⟩
  next => cases h

set_option maxRecDepth 100000 in
theorem nesting_binds : ∃ (body : BodyScope) (stmt : Stmt) (arguments : List (String × Expr))
    (signature : Signature), stmt.Contains ⟨[], none, some "pick"⟩ arguments ∧
      arguments.map Prod.fst = ["a"] ∧ signature.params.map Parameter.name = ["a", "b"] ∧
      ∀ param ∈ signature.params, body.Binds arguments param := by
  obtain ⟨compilation, entries, hcompile, hentries, hcheck⟩ := exists_of_compilesTo nesting
    (fun entries signatures _ =>
      (entries.all fun entry => defaultsFit entry.2) &&
      (entries.any fun entry => entry.1 = "M" &&
        ((declaredBody? entry.2).bind innerCall?).any fun call =>
          call.1 = ⟨[], none, some "pick"⟩ && call.2.map Prod.fst = ["a"]) &&
      ((signatures.get? "M.pick").any fun signature =>
        signature.params.map Parameter.name = ["a", "b"])) rfl (by decide +kernel)
  generalize hknows : programSignatures [nesting] = signatures at hcheck
  simp only [Bool.and_eq_true, List.any_eq_true, List.all_eq_true, Option.any_eq_true,
    decide_eq_true_eq] at hcheck
  obtain ⟨⟨hfit, ⟨space, declaration⟩, hmem, rfl, call, hcall, htarget, hnames⟩, known, hknown,
    hparams⟩ := hcheck
  obtain ⟨stmts, hbody, hinner⟩ := Option.bind_eq_some_iff.1 hcall
  obtain ⟨stmt, hstmt, hcontains⟩ := contains_of_innerCall? hinner
  obtain ⟨function, made, -, hbinds⟩ := calls_bind_accepted hcompile
    (fun space declaration hdeclared => hfit (space, declaration) ((hentries _ _).2 hdeclared))
    ((hentries _ _).1 hmem)
  cases hbody.symm.trans made.body
  obtain ⟨name, signature, hfunction, hget, hall⟩ := hbinds stmt hstmt _ _ hcontains
  rw [htarget] at hfunction hget hcontains
  cases hfunction
  have hcallee : made.names.calleeName none "pick" = "M.pick" := by
    rw [FunctionBuilder.calleeName, made.space_eq]
    rfl
  rw [hcallee, hknows, hknown] at hget
  cases hget
  exact ⟨_, stmt, call.2, known, hcontains, hnames, hparams, hall⟩

/-- A function of which the default is not of the type of its parameter, and a call without
arguments. -/
def mistaken : SourceUnit where
  id := "m.json"
  text := "\x7b\"namespace\": \"M\", \"functions\": [
    \x7b\"name\": \"f\", \"body\": [],
      \"params\": [\x7b\"name\": \"n\", \"type\": \"int\", \"default\": \"x\"\x7d]\x7d,
    \x7b\"name\": \"main\", \"body\": [\x7b\"call\": \x7b\"function\": \"f\"\x7d\x7d]\x7d]\x7d"

/-- Whether the body is a call without arguments of a function in its own namespace. -/
def callsPlainly (callee : String) : List Stmt → Bool
  | [.call ⟨[], none, some function⟩ _ (some [])] => function = callee
  | _ => false

theorem contains_of_callsPlainly {stmts : List Stmt} {callee : String}
    (h : callsPlainly callee stmts = true) :
    ∃ stmt ∈ stmts, stmt.Contains ⟨[], none, some callee⟩ [] := by
  unfold callsPlainly at h
  split at h
  next =>
    cases of_decide_eq_true h
    exact ⟨_, List.mem_singleton_self _, _, .inl .here⟩
  next => cases h

set_option maxRecDepth 100000 in
/-- The type of a default is not looked at, so the program compiles, and the parameter is bound to
a string where an integer is declared. -/
theorem mistaken_compiles : ∃ compilation, compileUnits [mistaken] = .ok compilation ∧
    (∃ declaration stmts, Declared [mistaken] "M" declaration ∧
      declaredBody? declaration = some stmts ∧
        ∃ stmt ∈ stmts, stmt.Contains ⟨[], none, some "f"⟩ []) ∧
    ∃ signature param, (programSignatures [mistaken]).get? "M.f" = some signature ∧
      param ∈ signature.params ∧ param.default = some (.scalar (.string "x")) ∧
      StaticType.ofKind? (Scalar.string "x").kind = some .string ∧
      param.type.accepts .string = false := by
  obtain ⟨compilation, entries, hcompile, hentries, hcheck⟩ := exists_of_compilesTo mistaken
    (fun entries signatures _ =>
      (entries.any fun entry => entry.1 = "M" &&
        (declaredBody? entry.2).any (callsPlainly "f")) &&
      ((signatures.get? "M.f").any fun signature => signature.params.any fun param =>
        (param.default.any fun constant => constant.identicalTo (.scalar (.string "x"))) &&
          !param.type.accepts .string)) rfl (by decide +kernel)
  simp only [Bool.and_eq_true, List.any_eq_true, Option.any_eq_true, decide_eq_true_eq,
    Bool.not_eq_true'] at hcheck
  obtain ⟨⟨⟨space, declaration⟩, hmem, rfl, stmts, hbody, hplain⟩, signature, hknown, param,
    hparam, ⟨constant, hdefault, hsame⟩, hrefuses⟩ := hcheck
  rw [FunctionBuilder.identicalTo_scalar hsame] at hdefault
  exact ⟨compilation, hcompile,
    ⟨declaration, stmts, (hentries _ _).1 hmem, hbody, contains_of_callsPlainly hplain⟩,
    signature, param, hknown, hparam, hdefault, rfl, hrefuses⟩

end DocScript
