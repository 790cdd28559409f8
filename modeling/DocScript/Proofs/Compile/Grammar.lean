import DocScript.Proofs.Compile.Occurrence
import DocScript.Proofs.Compile.Resolution
import DocScript.Proofs.Compile.WellFormed
import DocScript.Proofs.Source.Grammar

/-! # Only the grammar compiles

Whatever stands in the place of a statement or an expression in a body is read, and has code of its
own if the body has code. What has code follows the grammar, so in a program that compiles every
value in such a place does.
-/

namespace DocScript

/-! ### What stands in a value stands in its tree -/

section Positions

variable {members : List (String × Json)} {key form : String} {value inner : Json}

theorem given_of_lookup {items : List Json} {item : Json → α}
    (h : members.lookup key = some (.array items)) :
    listField item members key = .given (items.map item) := by
  rw [listField, h]

theorem lookup_read (members : List (String × Json)) (operand : Json → Expr) (key : String) :
    (members.map fun (name, value) => (name, operand value)).lookup key =
      (members.lookup key).map operand := by
  induction members with
  | nil => rfl
  | cons first rest ih =>
      rw [List.map_cons, List.lookup_cons, List.lookup_cons, ih]
      cases key == first.1 <;> rfl

theorem Stmt.part_of_block {path : List String} {stmts : List Json}
    (h : (Stmt.ofJson value).Complete) (hpath : path ∈ blockPaths)
    (hblock : value.at? path = some (.array stmts)) (hmem : inner ∈ stmts) :
    (Stmt.ofJson inner).Part (Stmt.ofJson value) := by
  obtain ⟨members, form, body, rfl, hform, heq⟩ := form_of_complete h
  rw [heq]
  simp only [blockPaths, List.mem_cons, List.not_mem_nil, or_false] at hpath
  rcases hpath with rfl | rfl | rfl
  all_goals
    obtain ⟨_, houter, hinner⟩ := Json.at?_pair.1 hblock
    obtain ⟨rfl, rfl⟩ := hform.eq_of_get? (by simp) houter
    obtain ⟨fields, rfl, hlookup⟩ := Json.object_of_get? hinner
    simp only [readStatementForm, objectForm, given_of_lookup hlookup]
  · exact .whenTrue (List.mem_map_of_mem hmem) .here
  · exact .whenFalse (List.mem_map_of_mem hmem) .here
  · exact .body (List.mem_map_of_mem hmem) .here

/-- The arguments of a call are read from where they stand, unless they stand in both places. -/
theorem readArguments_lookup {operand : Json → Expr} {beside : Option Json} {args : Json}
    {name : String} (hplace : (readArguments operand members beside).1 ≠ .both)
    (hargs : members.lookup "args" = some args ∨ beside = some args)
    (hinner : args.get? name = some inner) :
    ∃ arguments, (readArguments operand members beside).2 = some arguments ∧
      arguments.lookup name = some (operand inner) := by
  obtain ⟨fields, rfl, hlookup⟩ := Json.object_of_get? hinner
  have hread : (fields.map fun (name, value) => (name, operand value)).lookup name =
      some (operand inner) := by
    rw [lookup_read, hlookup]
    rfl
  unfold readArguments at hplace ⊢
  cases hwithin : members.lookup "args" with
  | none =>
      obtain rfl := hargs.resolve_left (by simp [hwithin])
      exact ⟨_, rfl, hread⟩
  | some inside =>
      cases beside with
      | none =>
          obtain hsame := hargs.resolve_right nofun
          cases hwithin.symm.trans hsame
          exact ⟨_, rfl, hread⟩
      | some outside => exact absurd (by simp [hwithin]) hplace

theorem Json.HasForm.argument {forms path : List String} {body : Json} {name : String}
    (hform : value.HasForm forms form body) (hforms : "args" ∉ forms) (hpath : path ∈ argumentPaths)
    (hinner : value.at? (path ++ [name]) = some inner) :
    form = "call" ∧ ∃ args, (body.get? "args" = some args ∨ value.get? "args" = some args) ∧
      args.get? name = some inner := by
  simp only [argumentPaths, List.mem_cons, List.not_mem_nil, or_false] at hpath
  rcases hpath with rfl | rfl
  · obtain ⟨call, hcall, hrest⟩ := Option.bind_eq_some_iff.1 hinner
    obtain ⟨rfl, rfl⟩ := hform.eq_of_get? (by simp) hcall
    obtain ⟨args, hargs, hname⟩ := Json.at?_pair.1 hrest
    exact ⟨rfl, args, .inl hargs, hname⟩
  · obtain ⟨args, hargs, hname⟩ := Json.at?_pair.1 hinner
    obtain ⟨members, rfl, hlookup⟩ := Json.object_of_get? hargs
    rcases hform.alone "args" (Json.mem_keys_of_lookup hlookup) with rfl | ⟨rfl, -⟩
    · exact absurd hform.known hforms
    · exact ⟨rfl, args, .inr hargs, hname⟩

theorem ForeignOperand.read_of_value (operand : Json → Expr)
    (hinner : value.get? "value" = some inner) :
    ∃ stray tag, ForeignOperand.read operand value = .operand stray tag (some (operand inner)) := by
  obtain ⟨fields, rfl, hlookup⟩ := Json.object_of_get? hinner
  simp only [read, hlookup, Option.map_some]
  exact ⟨_, _, rfl⟩

theorem args_not_form : "args" ∉ statementForms ∧ "args" ∉ expressionForms := by
  simp [statementForms, expressionForms]

/-- The expressions that stand in a statement without gaps are read as such. -/
theorem Stmt.evaluates_of_operand (h : (Stmt.ofJson value).Complete)
    (hinner : inner.OperandOf value) :
    (Stmt.ofJson value).Evaluates (Expr.ofJson inner) := by
  obtain ⟨members, form, body, rfl, hform, heq⟩ := form_of_complete h
  rw [heq] at h ⊢
  cases hinner with
  | operand hpath hvalue =>
      simp only [statementOperands, List.mem_cons, List.not_mem_nil, or_false] at hpath
      rcases hpath with rfl | rfl | rfl | hpath
      -- Three forms have their operand as their body; the others have it under a key of the body.
      iterate 3
        rw [Json.at?_single] at hvalue
        obtain ⟨rfl, rfl⟩ := hform.eq_of_get? (by simp) hvalue
        simp only [readStatementForm]
        constructor
      rcases hpath with rfl | rfl | rfl | rfl | rfl | rfl | rfl | rfl | rfl | rfl | rfl | rfl
      all_goals
        obtain ⟨_, houter, hinner⟩ := Json.at?_pair.1 hvalue
        obtain ⟨rfl, rfl⟩ := hform.eq_of_get? (by simp) houter
        obtain ⟨fields, rfl, hlookup⟩ := Json.object_of_get? hinner
        simp only [readStatementForm, objectForm, hlookup, Option.map_some]
        constructor
  | argument hpath hvalue =>
      obtain ⟨rfl, args, hargs, hname⟩ := hform.argument args_not_form.1 hpath hvalue
      cases body with
      | object call =>
          obtain ⟨-, -, hplace⟩ := h
          obtain ⟨arguments, hread, hargument⟩ := readArguments_lookup hplace hargs hname
          simp only [readStatementForm, hread]
          exact .argument hargument
      | _ => exact h.elim
  | foreign hoperands hmem hvalue =>
      obtain ⟨_, houter, hinner⟩ := Json.at?_pair.1 hoperands
      obtain ⟨rfl, rfl⟩ := hform.eq_of_get? (by simp) houter
      obtain ⟨fields, rfl, hlookup⟩ := Json.object_of_get? hinner
      obtain ⟨stray, tag, hread⟩ := ForeignOperand.read_of_value Expr.ofJson hvalue
      simp only [readStatementForm, objectForm, given_of_lookup hlookup]
      exact .foreign (List.mem_map.2 ⟨_, hmem, hread⟩)

theorem args_not_operator (hform : form ∈ operatorForms) : form ≠ "args" := by
  rintro rfl
  simp [operatorForms] at hform

/-- The expressions that stand in one without gaps are read as such. -/
theorem Expr.part_of_partOf (h : (Expr.ofJson value).Complete) (hinner : inner.PartOf value) :
    (Expr.ofJson inner).Part (Expr.ofJson value) := by
  cases hinner with
  | item hmem =>
      rw [Expr.ofJson_eq (.array _)]
      exact .element (List.mem_map_of_mem hmem) .here
  | operand hpath hvalue =>
      simp only [expressionOperands, List.mem_cons, List.not_mem_nil, or_false] at hpath
      rcases hpath with rfl | rfl | rfl | rfl
      all_goals obtain ⟨members, form, body, rfl, hform, heq⟩ :=
        form_of_complete h (Json.object_of_at? hvalue)
      -- The index stands one key deeper than the operands of the other forms.
      case inr.inr.inr =>
        obtain ⟨_, houter, hindex⟩ := Json.at?_pair.1 hvalue
        obtain ⟨rfl, rfl⟩ := hform.eq_of_get? (by simp) houter
        obtain ⟨fields, rfl, hlookup⟩ := Json.object_of_get? hindex
        simp only [heq, readForm, readGet, hlookup, Option.map_some]
        exact .index .here
      all_goals
        rw [Json.at?_single] at hvalue
        obtain ⟨rfl, rfl⟩ := hform.eq_of_get? (by simp) hvalue
        rw [heq]
      · exact .not .here
      · exact .negate .here
      · exact .length .here
  | listed hoperator hoperands hmem =>
      obtain ⟨fields, rfl, -⟩ := Json.object_of_get? hoperands
      obtain ⟨members, form, body, -, hform, heq⟩ := form_of_complete h ⟨fields, rfl⟩
      obtain ⟨rfl, rfl⟩ := hform.eq_of_get? (args_not_operator hoperator) hoperands
      obtain ⟨operator, hread⟩ := readForm_operator hoperator
      rw [heq, hread]
      exact .operand (List.mem_map_of_mem hmem) .here
  | single hoperator hvalue halone =>
      obtain ⟨fields, rfl, -⟩ := Json.object_of_get? hvalue
      obtain ⟨members, form, body, -, hform, heq⟩ := form_of_complete h ⟨fields, rfl⟩
      obtain ⟨rfl, rfl⟩ := hform.eq_of_get? (args_not_operator hoperator) hvalue
      obtain ⟨operator, hread⟩ := readForm_operator hoperator
      rw [heq, hread] at h ⊢
      obtain ⟨operands, hoperands, -⟩ := h
      -- An operand that is no list counts as a list of one, unless the operator is logical.
      have hsingle : readOperands operator Expr.ofJson inner =
          if operator.isLogical then none else some [Expr.ofJson inner] := by
        cases inner with
        | array items => cases halone
        | _ => rfl
      rw [hsingle] at hoperands ⊢
      split at hoperands
      next => cases hoperands
      next hplain =>
        rw [if_neg hplain]
        exact .operand List.mem_cons_self .here
  | argument hpath hvalue =>
      have hobject : ∃ members, value = .object members := by
        simp only [argumentPaths, List.mem_cons, List.not_mem_nil, or_false] at hpath
        rcases hpath with rfl | rfl <;> exact Json.object_of_at? hvalue
      obtain ⟨members, form, body, rfl, hform, heq⟩ := form_of_complete h hobject
      obtain ⟨rfl, args, hargs, hname⟩ := hform.argument args_not_form.2 hpath hvalue
      rw [heq] at h ⊢
      cases body with
      | object call =>
          obtain ⟨-, -, hplace⟩ := h
          obtain ⟨arguments, hread, hargument⟩ := readArguments_lookup hplace hargs hname
          simp only [readForm, hread]
          exact .argument hargument .here
      | _ => exact h.elim

end Positions

/-! ### What has code has no gaps -/

section Code

variable {body : BodyScope} {pool : List Constant} {assigned : List String}

theorem ForeignCode.complete {operands : List ForeignOperand} {commands : List Command}
    (h : ForeignCode body pool assigned operands commands) : ∀ operand ∈ operands,
      ∃ tag value, operand = .operand [] (.given tag) (some value) := by
  induction operands generalizing commands with
  | nil => exact nofun
  | cons first rest ih =>
      cases h with
      | cons _ _ hrest => exact List.forall_mem_cons.2 ⟨⟨_, _, rfl⟩, ih hrest⟩

theorem BodyScope.Calls.complete {asValue : Bool} {target : CallTarget} {place : ArgumentPlace}
    {names : List String} {callee : String} {signature : Signature}
    (h : body.Calls asValue target place names callee signature) :
    target.stray = [] ∧ target.function.isSome ∧ place ≠ .both := by
  obtain ⟨function, hfunction, -⟩ := h.named
  exact ⟨h.exact, Option.isSome_iff_exists.2 ⟨function, hfunction⟩, h.placed⟩

theorem BodyScope.Subscribes.complete {handler : HandlerTarget} {callee : String}
    (h : body.Subscribes handler callee) : handler.stray = [] ∧ handler.function.Given := by
  obtain ⟨function, hfunction, -⟩ := h.named
  exact ⟨h.exact, function, hfunction⟩

theorem ForeignCallCode.complete {lib symbol returns : Field String}
    {operands : Field (List ForeignOperand)} {result : String} {commands : List Command}
    (h : ForeignCallCode body pool assigned lib symbol returns operands result commands) :
    lib.Given ∧ symbol.Given ∧ (operands = .absent ∨ ∃ listed, operands = .given listed ∧
      ∀ operand ∈ listed, ∃ tag value, operand = .operand [] (.given tag) (some value)) := by
  cases h with
  | call _ hlisted _ hoperands =>
      refine ⟨⟨_, rfl⟩, ⟨_, rfl⟩, ?_⟩
      exact hlisted.symm.imp And.left fun hgiven => ⟨_, hgiven, hoperands.complete⟩

theorem ExprCode.complete {expr : Expr} {commands : List Command}
    (h : ExprCode body pool assigned expr commands) : expr.Complete := by
  match h with
  | .int _ | .float _ | .bool _ | .null _ | .string _ | .reference _ | .named _ => trivial
  | .array _ _ _ | .not _ | .negate _ _ | .length _ _ => trivial
  | .overfull hexpr => exact ⟨rfl, hexpr.complete⟩
  | .operator hpositive hcount _ => exact ⟨_, rfl, hpositive, hcount⟩
  | .get _ _ => exact ⟨rfl, rfl, rfl⟩
  | .call hcall _ _ => exact hcall.complete

theorem StmtCode.complete {start : Nat} {stmt : Stmt} {commands : List Command}
    {after : List String} (h : StmtCode body pool assigned start stmt commands after) :
    stmt.Complete := by
  match h with
  | .overfull hstmt => exact ⟨rfl, hstmt.complete⟩
  | .assign .. | .assignNull .. => exact ⟨rfl, ⟨_, rfl⟩, rfl⟩
  | .print _ | .giveBack .. | .giveBackNothing _ | .release _ => trivial
  | .call hcall _ _ => exact hcall.complete
  | .branch .. => exact ⟨rfl, rfl, ⟨_, rfl⟩, .inl rfl⟩
  | .branchElse .. => exact ⟨rfl, rfl, ⟨_, rfl⟩, .inr ⟨_, rfl⟩⟩
  | .loop .. => exact ⟨rfl, rfl, _, rfl⟩
  | .setElement .. => exact ⟨rfl, ⟨_, rfl⟩, rfl, rfl⟩
  | .pushElement .. => exact ⟨rfl, ⟨_, rfl⟩, rfl⟩
  | .subscribe hsubscribes _ _ => exact ⟨rfl, ⟨_, rfl⟩, _, rfl, hsubscribes.complete⟩
  | .foreign hcall => exact ⟨rfl, hcall.complete⟩
  | .foreignInto hcall _ _ => exact ⟨rfl, hcall.complete⟩
  | .allocate .. => exact ⟨rfl, rfl, _, rfl⟩
  | .writeMemory .. => exact ⟨rfl, ⟨_, rfl⟩, rfl, rfl⟩
  | .readMemory .. => exact ⟨rfl, ⟨_, rfl⟩, rfl, _, rfl⟩

/-- The statements inside of one that has code have code. -/
theorem Json.StatementIn.compiles {part value : Json} (h : part.StatementIn value)
    {start : Nat} {commands : List Command} {after : List String}
    (hcode : StmtCode body pool assigned start (Stmt.ofJson value) commands after) :
    ∃ known place code next, StmtCode body pool known place (Stmt.ofJson part) code next := by
  induction h generalizing assigned start commands after with
  | here => exact ⟨_, _, _, _, hcode⟩
  | block hpath hblock hmem _ ih =>
      have hpart := Stmt.part_of_block hcode.complete hpath hblock hmem
      obtain ⟨_, _, _, _, hinner, -⟩ := hpart.compiles hcode
      exact ih hinner

/-- The expressions inside of one that has code have code. -/
theorem Json.ExpressionIn.compiles {part value : Json} (h : part.ExpressionIn value)
    {commands : List Command} (hcode : ExprCode body pool assigned (Expr.ofJson value) commands) :
    ∃ code, ExprCode body pool assigned (Expr.ofJson part) code := by
  induction h generalizing commands with
  | here => exact ⟨commands, hcode⟩
  | inside hinner _ ih =>
      obtain ⟨_, hpart, -⟩ := (Expr.part_of_partOf hcode.complete hinner).compiles hcode
      exact ih hpart

theorem readForm_ne_null {operand : Json → Expr} {members : List (String × Json)} {form : String}
    {value : Json} : readForm operand members form value ≠ .null := by
  unfold readForm
  split
  case h_2 => cases value <;> nofun
  case h_3 => cases value <;> nofun
  case h_8 => split <;> nofun
  all_goals nofun

theorem Expr.eq_null_of_ofJson {value : Json} (h : Expr.ofJson value = .null) : value = .null := by
  rw [Expr.ofJson_eq] at h
  cases value with
  | null => rfl
  | object members =>
      unfold readLevel at h
      simp only at h
      split at h
      next => cases h
      next =>
        split at h
        next => exact absurd h readForm_ne_null
        next => cases h
  | _ => cases h

/-- There is nothing inside of a null. -/
theorem Json.ExpressionIn.eq_null {part : Json} (h : part.ExpressionIn .null) : part = .null := by
  cases h with
  | here => rfl
  | inside hinner _ =>
      cases hinner with
      | operand hpath hvalue =>
          simp only [expressionOperands, List.mem_cons, List.not_mem_nil, or_false] at hpath
          rcases hpath with rfl | rfl | rfl | rfl <;> cases hvalue
      | listed _ hoperands _ => cases hoperands
      | single _ hvalue _ => cases hvalue
      | argument hpath hvalue =>
          simp only [argumentPaths, List.mem_cons, List.not_mem_nil, or_false] at hpath
          rcases hpath with rfl | rfl <;> cases hvalue

/-- What stands in the place of an expression in a statement that has code is an expression. -/
theorem StmtCode.expressionShape {value operand expr : Json} {start : Nat}
    {commands : List Command} {after : List String}
    (hcode : StmtCode body pool assigned start (Stmt.ofJson value) commands after)
    (hoperand : operand.OperandOf value) (hexpr : expr.ExpressionIn operand)
    (hobject : ∃ members, expr = .object members) :
    ∃ form body, expr.ExpressionShape form body := by
  have hevaluates := Stmt.evaluates_of_operand hcode.complete hoperand
  rcases hevaluates.compiles hcode with hnull | ⟨known, _, houter, -⟩
  · obtain ⟨members, rfl⟩ := hobject
    obtain rfl := Expr.eq_null_of_ofJson hnull
    cases hexpr.eq_null
  · obtain ⟨_, hinner⟩ := hexpr.compiles houter
    exact Expr.shape_of_complete hinner.complete hobject

end Code

/-- A program that compiles is written in the grammar: each function that it declares has a list of
statements for its body, everything in the place of a statement in it, however deep, has the shape
of a statement, and every object in the place of an expression that of an expression. -/
theorem compiled_bodies_follow_grammar {units : List SourceUnit} {compilation : Compilation}
    (hcompile : compileUnits units = .ok compilation) {space : String} {declaration : Json}
    (hdeclared : Declared units space declaration) :
    ∃ stmts, declaration.get? "body" = some (.array stmts) ∧
      ∀ stmt ∈ stmts, ∀ inner : Json, inner.StatementIn stmt →
        (∃ form body, inner.StatementShape form body) ∧
          ∀ operand expr : Json, operand.OperandOf inner → expr.ExpressionIn operand →
            (∃ members, expr = .object members) → ∃ form body, expr.ExpressionShape form body := by
  obtain ⟨compiled, made, -⟩ := exists_translation hcompile hdeclared
  obtain ⟨stmts, hlisted, hread⟩ := Option.map_eq_some_iff.1 made.body
  obtain ⟨listed, hbody, harray⟩ := Option.bind_eq_some_iff.1 hlisted
  have hsame : listed = .array stmts := by
    cases listed with
    | array items => rw [Option.some.inj harray]
    | _ => cases harray
  refine ⟨stmts, hsame ▸ hbody, fun stmt hstmt inner hinner => ?_⟩
  have hmem : Stmt.ofJson stmt ∈ made.stmts := hread ▸ List.mem_map_of_mem hstmt
  obtain ⟨_, _, _, _, hcode, -⟩ := made.block.of_mem hmem
  obtain ⟨_, _, _, _, hpart⟩ := hinner.compiles hcode
  exact ⟨Stmt.shape_of_complete hpart.complete,
    fun operand expr hoperand hexpr => hpart.expressionShape hoperand hexpr⟩

/-- The second statement of a body, if it is a loop, the second statement in that, if it is an
assignment, and what that one assigns. -/
def assignedInLoop? (declaration : Json) : Option (Json × Json × Json) :=
  ((declaration.get? "body").bind Json.array?).bind fun stmts => stmts[1]?.bind fun stmt =>
    ((stmt.at? ["while", "body"]).bind Json.array?).bind fun block => block[1]?.bind fun inner =>
      (inner.at? ["let", "value"]).map fun value => (stmt, inner, value)

theorem array_of_array? {found : Option Json} {items : List Json}
    (h : found.bind Json.array? = some items) : found = some (.array items) := by
  obtain ⟨value, rfl, harray⟩ := Option.bind_eq_some_iff.1 h
  cases value with
  | array listed => rw [Option.some.inj harray]
  | _ => cases harray

set_option maxRecDepth 100000 in
/-- The assignment in the loop and the call in it follow the grammar. -/
theorem countdown_follows_grammar : ∃ (compilation : Compilation)
    (declaration stmt inner value : Json),
    compileUnits [countdown] = .ok compilation ∧ Declared [countdown] "M" declaration ∧
      assignedInLoop? declaration = some (stmt, inner, value) ∧
        (∃ body, inner.StatementShape "let" body) ∧ ∃ body, value.ExpressionShape "call" body := by
  obtain ⟨compilation, entries, hcompile, hentries, hcheck⟩ := exists_of_compilesTo countdown
    (fun entries _ _ => entries.any fun entry => entry.1 = "M" &&
      (assignedInLoop? entry.2).any fun found => (found.2.2.get? "call").isSome)
    rfl (by decide +kernel)
  simp only [List.any_eq_true, Bool.and_eq_true, decide_eq_true_eq, Prod.exists] at hcheck
  obtain ⟨_, declaration, hmem, rfl, hfound⟩ := hcheck
  obtain ⟨⟨stmt, inner, value⟩, hassigned, hcall⟩ := (Option.any_eq_true _ _).1 hfound
  obtain ⟨call, hcall⟩ := Option.isSome_iff_exists.1 hcall
  have hdeclared : Declared [countdown] "M" declaration := (hentries _ _).1 hmem
  obtain ⟨stmts, hbody, hshapes⟩ := compiled_bodies_follow_grammar hcompile hdeclared
  refine ⟨compilation, declaration, stmt, inner, value, hcompile, hdeclared, hassigned, ?_⟩
  obtain ⟨listed, hlisted, hrest⟩ := Option.bind_eq_some_iff.1 hassigned
  cases hbody.symm.trans (array_of_array? hlisted)
  obtain ⟨_, hstmt, hrest⟩ := Option.bind_eq_some_iff.1 hrest
  obtain ⟨block, hblock, hrest⟩ := Option.bind_eq_some_iff.1 hrest
  obtain ⟨_, hinner, hrest⟩ := Option.bind_eq_some_iff.1 hrest
  obtain ⟨_, hvalue, heq⟩ := Option.map_eq_some_iff.1 hrest
  cases heq
  have hdeep : inner.StatementIn stmt :=
    .block (by simp [blockPaths]) (array_of_array? hblock) (List.mem_of_getElem? hinner) .here
  obtain ⟨⟨_, _, hshape⟩, hexprs⟩ := hshapes stmt (List.mem_of_getElem? hstmt) inner hdeep
  obtain ⟨_, hlet, -⟩ := Json.at?_pair.1 hvalue
  obtain ⟨rfl, rfl⟩ := hshape.formed.eq_of_get? (by simp) hlet
  obtain ⟨members, rfl, -⟩ := Json.object_of_get? hcall
  obtain ⟨_, _, hexpr⟩ := hexprs _ _ (.operand (by simp [statementOperands]) hvalue) .here
    ⟨members, rfl⟩
  obtain ⟨rfl, rfl⟩ := hexpr.formed.eq_of_get? (by simp) hcall
  exact ⟨⟨_, hshape⟩, _, hexpr⟩

end DocScript
