import DocScript.Proofs.Compile.WellFormed

/-! # What code is put together from

The code of every form is put together from loads of locals that have been assigned, stores into
locals that may be written, and commands that touch no local. What holds of each of these, and of
commands one after the other if it holds of both, holds of all code.
-/

namespace DocScript

/-- What may be said of commands and of the names assigned in front of them and behind them holds of
the parts of code, and of two pieces together if it holds of both. -/
structure BodyScope.Composes (body : BodyScope)
    (holds : (assigned : List String) → List Command → (after : List String) → Prop) : Prop where
  nil : ∀ {assigned}, holds assigned [] assigned
  append : ∀ {assigned between after first second}, holds assigned first between →
    holds between second after → holds assigned (first ++ second) after
  load : ∀ {assigned name target}, body.Reads assigned name target →
    holds assigned [⟨.loadLocal, target.slot⟩] assigned
  store : ∀ {assigned name target}, body.Writes name target →
    holds assigned [target.store] (marked assigned name)
  other : ∀ {assigned command}, command.op.usesLocal = false → holds assigned [command] assigned

theorem Operator.usesLocal_opcode (operator : Operator) : operator.opcode.usesLocal = false := by
  cases operator with
  | arithmetic op => cases op <;> rfl
  | _ => rfl

theorem Opcode.usesLocal_of_stores {op : Opcode} (h : op.stores = true) : op.usesLocal = true := by
  cases op with
  | storeLocal | storeLocalInt => rfl
  | _ => cases h

section Code

variable {body : BodyScope} {pool : List Constant} {assigned : List String}
  {holds : List String → List Command → List String → Prop} (hparts : body.Composes holds)

include hparts

theorem BodyScope.Composes.cons {after : List String} {command : Command} {commands : List Command}
    (hcommand : command.op.usesLocal = false) (hrest : holds assigned commands after) :
    holds assigned (command :: commands) after :=
  hparts.append (hparts.other hcommand) hrest

mutual

/-- Expressions assign nothing. -/
theorem ExprCode.composed {expr : Expr} {commands : List Command}
    (h : ExprCode body pool assigned expr commands) : holds assigned commands assigned := by
  match h with
  | .int _ | .float _ | .bool _ | .null _ | .string _ => exact hparts.other rfl
  | .reference hread | .named hread => exact hparts.load hread
  | .overfull hexpr => exact ExprCode.composed hexpr
  | .array _ _ hitems => exact hparts.append (ItemsCode.composed hitems) (hparts.other rfl)
  | .not hoperand | .negate _ hoperand | .length _ hoperand =>
      exact hparts.append (ExprCode.composed hoperand) (hparts.other rfl)
  | .operator _ _ hoperands =>
      exact hparts.append (ItemsCode.composed hoperands)
        (hparts.other (Operator.usesLocal_opcode _))
  | .get hread hindex =>
      exact hparts.append (hparts.load hread.1)
        (hparts.append (ExprCode.composed hindex) (hparts.other rfl))
  | .call _ harguments _ =>
      exact hparts.append (ArgumentsCode.composed harguments)
        (hparts.cons rfl (hparts.other rfl))

theorem ItemsCode.composed {operator : Option Operator} {items : List Expr}
    {commands : List Command} (h : ItemsCode body pool assigned operator items commands) :
    holds assigned commands assigned := by
  match h with
  | .nil => exact hparts.nil
  | .cons _ hitem hrest => exact hparts.append (ExprCode.composed hitem) (ItemsCode.composed hrest)

theorem ArgumentCode.composed {param : Parameter} {arguments : List (String × Expr)}
    {commands : List Command} (h : ArgumentCode body pool assigned param arguments commands) :
    holds assigned commands assigned := by
  match h with
  | .given _ _ hargument => exact ExprCode.composed hargument
  | .later _ hrest => exact ArgumentCode.composed hrest
  | .omitted _ _ => exact hparts.other rfl

theorem ArgumentsCode.composed {arguments : List (String × Expr)} {params : List Parameter}
    {commands : List Command} (h : ArgumentsCode body pool assigned arguments params commands) :
    holds assigned commands assigned := by
  match h with
  | .nil => exact hparts.nil
  | .cons hparam hrest =>
      exact hparts.append (ArgumentCode.composed hparam) (ArgumentsCode.composed hrest)

end

theorem ForeignCode.composed {operands : List ForeignOperand} {commands : List Command}
    (h : ForeignCode body pool assigned operands commands) :
    holds assigned commands assigned := by
  induction h with
  | nil => exact hparts.nil
  | cons _ hvalue _ ih => exact hparts.cons rfl (hparts.append (hvalue.composed hparts) ih)

theorem ForeignCallCode.composed {lib symbol returns : Field String}
    {operands : Field (List ForeignOperand)} {result : String} {commands : List Command}
    (h : ForeignCallCode body pool assigned lib symbol returns operands result commands) :
    holds assigned commands assigned := by
  obtain ⟨_, _, _, hoperands, _, _, _⟩ := h
  exact hparts.append (hoperands.composed hparts)
    (hparts.cons rfl (hparts.cons rfl (hparts.cons rfl (hparts.other rfl))))

theorem OffsetCode.composed {offset : Option Expr} {commands : List Command}
    (h : OffsetCode body pool assigned offset commands) : holds assigned commands assigned := by
  cases h with
  | given hoffset => exact hoffset.composed hparts
  | absent _ => exact hparts.other rfl

mutual

theorem StmtCode.composed {assigned after : List String} {start : Nat} {stmt : Stmt}
    {commands : List Command} (h : StmtCode body pool assigned start stmt commands after) :
    holds assigned commands after := by
  match h with
  | .overfull hstmt => exact StmtCode.composed hstmt
  | .assign hwrite _ _ _ hvalue =>
      exact hparts.append (hvalue.composed hparts) (hparts.store hwrite)
  | .assignNull hwrite _ _ _ => exact hparts.cons rfl (hparts.store hwrite)
  | .print hvalue => exact hparts.append (hvalue.composed hparts) (hparts.other rfl)
  | .call _ harguments _ =>
      exact hparts.append (harguments.composed hparts) (hparts.cons rfl (hparts.other rfl))
  | .branch hcondition htrue _ _ =>
      exact hparts.append (hcondition.composed hparts) (hparts.cons rfl (BlockCode.composed htrue))
  | .branchElse hcondition htrue _ hfalse _ _ =>
      exact hparts.append (hcondition.composed hparts) (hparts.cons rfl
        (hparts.append (BlockCode.composed htrue) (hparts.cons rfl (BlockCode.composed hfalse))))
  | .loop hcondition hbody _ _ =>
      exact hparts.append (hcondition.composed hparts)
        (hparts.cons rfl (hparts.append (BlockCode.composed hbody) (hparts.other rfl)))
  | .setElement hread _ hindex hvalue =>
      exact hparts.append (hparts.load hread.1) (hparts.append (hindex.composed hparts)
        (hparts.append (hvalue.composed hparts) (hparts.other rfl)))
  | .pushElement hread _ hvalue =>
      exact hparts.append (hparts.load hread.1)
        (hparts.append (hvalue.composed hparts) (hparts.other rfl))
  | .giveBack _ _ _ hvalue => exact hparts.append (hvalue.composed hparts) (hparts.other rfl)
  | .giveBackNothing _ => exact hparts.other rfl
  | .subscribe _ _ _ => exact hparts.cons rfl (hparts.cons rfl (hparts.other rfl))
  | .foreign hcall => exact hcall.composed hparts
  | .foreignInto hcall _ hwrite =>
      exact hparts.append (hcall.composed hparts) (hparts.store hwrite)
  | .allocate hwrite _ hsize =>
      exact hparts.append (hsize.composed hparts) (hparts.cons rfl (hparts.store hwrite))
  | .writeMemory _ hpointer hoffset hvalue _ =>
      exact hparts.append (hpointer.composed hparts) (hparts.append (hoffset.composed hparts)
        (hparts.append (hvalue.composed hparts) (hparts.cons rfl (hparts.other rfl))))
  | .readMemory _ hwrite hpointer hoffset _ =>
      exact hparts.append (hpointer.composed hparts) (hparts.append (hoffset.composed hparts)
        (hparts.cons rfl (hparts.cons rfl (hparts.store hwrite))))
  | .release hpointer => exact hparts.append (hpointer.composed hparts) (hparts.other rfl)

/-- What holds of the parts holds of the code of a body. -/
theorem BlockCode.composed {assigned after : List String} {start : Nat} {stmts : List Stmt}
    {commands : List Command} (h : BlockCode body pool assigned start stmts commands after) :
    holds assigned commands after := by
  match h with
  | .nil => exact hparts.nil
  | .cons hstmt hrest => exact hparts.append (StmtCode.composed hstmt) (BlockCode.composed hrest)

end

end Code

/-- What holds of the parts holds of the whole code of a function. -/
theorem Translation.composed {signatures : SignatureTable} {space : String} {declaration : Json}
    {function : CompiledFunction Constant}
    (made : Translation signatures space declaration function)
    {holds : List String → List Command → List String → Prop}
    (hparts : BodyScope.Composes ⟨signatures, made.names⟩ holds) :
    holds (made.signature.params.map Parameter.name).reverse made.whole made.assigned :=
  hparts.append (made.block.composed hparts) (hparts.other rfl)

end DocScript
