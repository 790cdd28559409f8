import DocScript.Proofs.Machine.ArgumentBinding
import DocScript.Proofs.Value.Depth

/-! # Expressions and their code

The code of an expression without calls is carried out from its first instruction to its last. None
of them jumps or reaches outside, and what is on the stack then is the value of the expression.
-/

namespace DocScript

open Command FunctionBuilder Machine

/-! ### What operators mean -/

/-- Arithmetic goes from left to right. -/
theorem Arithmetic.fold_eq_foldlM (op : Arithmetic) (heap : Heap) (first : Value)
    (rest : List Value) : op.fold heap first rest = rest.foldlM (op.apply heap) first := by
  induction rest generalizing first with
  | nil => rfl
  | cons operand rest ih =>
      rw [List.foldlM_cons, fold]
      cases op.apply heap first operand with
      | error cause => rfl
      | ok value => exact ih value

/-- Two values are joined without an end if one of them is a string and one has no text. Nothing
else in arithmetic is without an end. -/
theorem Arithmetic.apply_endless_iff (op : Arithmetic) (heap : Heap) (left right : Value) :
    op.apply heap left right = .error .endless ↔
      (op = .add ∧ (left.kind = .string ∨ right.kind = .string)) ∧
        (heap.text? left = none ∨ heap.text? right = none) := by
  unfold apply
  by_cases hjoins : op = .add ∧ (left.kind = .string ∨ right.kind = .string)
  · rw [if_pos hjoins, and_iff_right hjoins]
    cases heap.text? left <;> cases heap.text? right <;> simp
  · rw [if_neg hjoins]
    refine iff_of_false ?_ fun h => hjoins h.1
    split
    next a b =>
      cases op with
      | modulo => by_cases hzero : b = 0 <;> simp [onInts, hzero]
      | _ => simp [onInts]
    next => split <;> simp

namespace Operator

/-- A relation is looked at between each operand and the one behind it. -/
theorem chain_iff (related : α → α → Bool) (operands : List α) :
    chain related operands = true ↔ operands.IsChain (related · · = true) := by
  induction operands with
  | nil => simp [chain]
  | cons first rest ih =>
      cases rest with
      | nil => simp [chain]
      | cons second rest => rw [chain, Bool.and_eq_true, ih, List.isChain_cons_cons]

theorem numbers_ok (op : Opcode) {operands : List Value} {found : List Binary64} :
    numbers op operands = .ok found ↔ operands.map Value.float? = found.map some := by
  induction operands generalizing found with
  | nil => cases found <;> simp [numbers]
  | cons value rest ih =>
      unfold numbers
      cases hnumber : value.float? with
      | none => cases found <;> simp [hnumber]
      | some number =>
          cases hrest : numbers op rest with
          | error cause =>
              have hnone (others : List Binary64) : rest.map Value.float? ≠ others.map some :=
                fun h => by cases hrest.symm.trans (ih.2 h)
              cases found <;> simp [hnumber, hnone]
          | ok others =>
              have hothers := ih.1 hrest
              cases found <;> simp [hnumber, hothers, List.map_inj_right]

/-- Values are equal as operands if all neighbours are found equal. -/
theorem eq_holds_iff (heap : Heap) (operands : List Value) :
    Operator.eq.apply heap operands = .ok (.bool true) ↔
      operands.IsChain (heap.equal? · · = some true) := by
  rw [← heap.allEqual?_iff]
  cases h : heap.allEqual? operands <;> simp [apply, h, FaultCause.ended, Except.map]

theorem eq_fails_iff (heap : Heap) (operands : List Value) :
    Operator.eq.apply heap operands = .ok (.bool false) ↔
      heap.FirstUnlike operands (some false) := by
  rw [← heap.allEqual?_eq_iff (by simp)]
  cases h : heap.allEqual? operands <;> simp [apply, h, FaultCause.ended, Except.map]

theorem eq_endless_iff (heap : Heap) (operands : List Value) :
    Operator.eq.apply heap operands = .error .endless ↔ heap.FirstUnlike operands none := by
  rw [← heap.allEqual?_eq_iff (by simp)]
  cases h : heap.allEqual? operands <;> simp [apply, h, FaultCause.ended, Except.map]

/-- A comparison holds of numbers only. -/
theorem numbers_map_iff {op : Opcode} (related : Binary64 → Binary64 → Bool)
    (operands : List Value) :
    (numbers op operands).map (fun numbers => Value.bool (chain related numbers)) =
        .ok (.bool true) ↔
      ∃ found : List Binary64, operands.map Value.float? = found.map some ∧
        found.IsChain (related · · = true) := by
  simp only [← chain_iff, ← numbers_ok op]
  cases numbers op operands <;> simp [Except.map]

theorem lt_holds_iff (heap : Heap) (operands : List Value) :
    Operator.lt.apply heap operands = .ok (.bool true) ↔
      ∃ found : List Binary64, operands.map Value.float? = found.map some ∧
        found.IsChain (Binary64.lt · · = true) :=
  numbers_map_iff Binary64.lt operands

theorem gt_holds_iff (heap : Heap) (operands : List Value) :
    Operator.gt.apply heap operands = .ok (.bool true) ↔
      ∃ found : List Binary64, operands.map Value.float? = found.map some ∧
        found.IsChain (fun left right => Binary64.lt right left = true) :=
  numbers_map_iff (fun left right => Binary64.lt right left) operands

end Operator

/-- What becomes of the values of operands: arithmetic goes from left to right, a comparison holds
if it does between each operand and the one behind it, and an array literal makes a new array of the
values in their order. To join a value with a string has no end if the value has no text, and to
compare for equality has none if that is so of the first neighbours that are not found equal. -/
structure Heap.Combines (heap : Heap) : Prop where
  arithmetic : ∀ (op : Arithmetic) first rest,
    (Operator.arithmetic op).apply heap (first :: rest) = rest.foldlM (op.apply heap) first
  arithmetic_endless : ∀ (op : Arithmetic) left right, op.apply heap left right = .error .endless ↔
    (op = .add ∧ (left.kind = .string ∨ right.kind = .string)) ∧
      (heap.text? left = none ∨ heap.text? right = none)
  eq : ∀ operands, Operator.eq.apply heap operands = .ok (.bool true) ↔
    operands.IsChain (heap.equal? · · = some true)
  eq_fails : ∀ operands, Operator.eq.apply heap operands = .ok (.bool false) ↔
    heap.FirstUnlike operands (some false)
  eq_endless : ∀ operands, Operator.eq.apply heap operands = .error .endless ↔
    heap.FirstUnlike operands none
  lt : ∀ operands, Operator.lt.apply heap operands = .ok (.bool true) ↔
    ∃ found : List Binary64, operands.map Value.float? = found.map some ∧
      found.IsChain (Binary64.lt · · = true)
  gt : ∀ operands, Operator.gt.apply heap operands = .ok (.bool true) ↔
    ∃ found : List Binary64, operands.map Value.float? = found.map some ∧
      found.IsChain fun left right => Binary64.lt right left = true
  array : ∀ values value after, Evaluation.makeArray values heap = .ok value after →
    value = .array heap.objects.size ∧
      (after.object heap.objects.size).items.toList = values

theorem Heap.combines (heap : Heap) : heap.Combines where
  arithmetic op first rest := op.fold_eq_foldlM heap first rest
  arithmetic_endless op left right := op.apply_endless_iff heap left right
  eq := Operator.eq_holds_iff heap
  eq_fails := Operator.eq_fails_iff heap
  eq_endless := Operator.eq_endless_iff heap
  lt := Operator.lt_holds_iff heap
  gt := Operator.gt_holds_iff heap
  array values value after h := by
    obtain ⟨hvalue, rfl⟩ := Evaluation.makeArray_ok h
    refine ⟨hvalue, ?_⟩
    rw [Heap.object_allocate, if_pos rfl]
    rfl

/-! ### Operations that only compute -/

/-- Whether the operation takes values from the stack, leaves one there and does nothing else: it
goes nowhere, stores nothing and does not reach outside. -/
def Opcode.computes : Opcode → Bool
  | .pushConst | .loadLocal | .add | .sub | .mul | .div | .mod | .neg | .eq | .gt | .lt | .and
  | .or | .not | .makeArray | .arrayGet | .arrayLen => true
  | _ => false

/-- The commands only compute. -/
def Computing (commands : List Command) : Prop :=
  ∀ command ∈ commands, command.op.computes = true

namespace Computing

variable {first second commands : List Command} {command : Command}

theorem nil : Computing [] := fun _ hmem => absurd hmem List.not_mem_nil

theorem append (hfirst : Computing first) (hsecond : Computing second) :
    Computing (first ++ second) := fun command hmem =>
  (List.mem_append.1 hmem).elim (hfirst command) (hsecond command)

theorem cons (hcommand : command.op.computes = true) (hrest : Computing commands) :
    Computing (command :: commands) :=
  List.forall_mem_cons.2 ⟨hcommand, hrest⟩

theorem single (hcommand : command.op.computes = true) : Computing [command] := cons hcommand nil

end Computing

theorem Operator.computes_opcode (operator : Operator) : operator.opcode.computes = true := by
  cases operator with
  | arithmetic op => cases op <;> rfl
  | _ => rfl

section Expressions

variable {body : BodyScope} {pool : List Constant} {assigned : List String}

mutual

theorem ExprCode.computing {expr : Expr} {commands : List Command}
    (h : ExprCode body pool assigned expr commands) (hfree : expr.isCallFree = true) :
    Computing commands := by
  match h with
  | .int _ | .float _ | .bool _ | .null _ | .string _ | .reference _ | .named _ =>
      exact .single rfl
  | .overfull hexpr => exact ExprCode.computing hexpr hfree
  | .array _ _ hitems => exact (ItemsCode.computing hitems hfree).append (.single rfl)
  | .not hoperand | .negate _ hoperand | .length _ hoperand =>
      exact (ExprCode.computing hoperand hfree).append (.single rfl)
  | .operator _ _ hoperands =>
      exact (ItemsCode.computing hoperands hfree).append (.single (Operator.computes_opcode _))
  | .get _ hindex => exact .cons rfl ((ExprCode.computing hindex hfree).append (.single rfl))
  | .call _ _ _ => cases hfree

theorem ItemsCode.computing {operator : Option Operator} {items : List Expr}
    {commands : List Command} (h : ItemsCode body pool assigned operator items commands)
    (hfree : areCallFree items = true) : Computing commands := by
  match h with
  | .nil => exact .nil
  | .cons _ hitem hrest =>
      simp only [areCallFree, Bool.and_eq_true] at hfree
      exact (ExprCode.computing hitem hfree.1).append (ItemsCode.computing hrest hfree.2)

end

end Expressions

/-! ### From text to runs -/

section

variable {units : List SourceUnit} {scope : LoweringScope} {before after : Lowering}
  {slots : List (String × StaticType)} {expr : Expr} {path : SourcePath}

/-- The functions of a program have no other defaults. -/
theorem scalarDefaults_of_units (hscope : scope.signatures = programSignatures units) :
    scope.signatures.ScalarDefaults := by
  rw [hscope]
  exact fun _ _ hget => ((Compiler.registered_sound units).get? hget).1.scalar

/-- A run does not end, with any fuel, if one of the commands has no end. -/
theorem Machine.Breaks.drain_eq {setup : Setup σ γ} {machine after : Machine σ γ}
    {commands : List Command} {fault : Fault} {base : Nat}
    (h : machine.Breaks setup commands fault after) (hgoes : machine.hasFramesAbove base = true)
    (hkind : fault.kind = .endless) (fuel : Nat) :
    drain setup fuel base machine = .outOfFuel := by
  obtain ⟨count, last, hlast, hstep⟩ := h.advance hgoes
  rw [drain_of_advance hlast, drain_endless (goes_of_advance hlast) hstep hkind]

/-- An expression without calls that is lowered without an error computes its value. Wherever the
code stands and whatever the machine has done before, the instructions are carried out one after
the other, each once, and none of them does anything but compute. Either all of them are, and the
stack has the value of the expression on top of what was there, or one of them fails as the
evaluation of the expression does, operands from left to right, and all operands before they are
combined. Where the evaluation has no end, since it compares or joins arrays that are part of
themselves, the run does not end either, with any fuel. All else stays as it was; there may only be
new arrays. -/
theorem expression_code_computes (hscope : scope.signatures = programSignatures units)
    (hbody : before.InBody slots) (hlowered : after = lowerExpr scope expr path before)
    (hclean : after.Clean) (hfree : expr.isCallFree = true) :
    (∀ heap : Heap, heap.Combines) ∧
    ∃ commands, Emits before.builder after.builder commands ∧ Computing commands ∧
      ∀ {σ γ : Type} (setup : Setup σ γ) (function : CompiledFunction Value)
        (machine : Machine σ γ) (locals : Array Value) (outer : List Frame),
        function.Has before.builder after.builder →
        machine.frames = ⟨function, before.builder.offset, locals⟩ :: outer →
        locals.size = slots.length →
        match expr.evaluate (.start slots locals.toList) machine.heap with
        | .ok value heap => machine.heap.Grows heap ∧
            machine.CarriesOut setup commands { machine with
              frames := ⟨function, after.builder.offset, locals⟩ :: outer
              stack := value :: machine.stack
              heap }
        | .error kind heap => machine.heap.Grows heap ∧
            (∃ fault offset stack, machine.Breaks setup commands fault { machine with
              frames := ⟨function, offset, locals⟩ :: outer
              stack
              heap } ∧ fault.kind = kind) ∧
            (kind = .endless → ∀ fuel, drain setup fuel outer.length machine = .outOfFuel) := by
  subst hlowered
  have hwithin : Lowering.Within before.builder.outline before := ⟨rfl, hbody.bounded⟩
  obtain ⟨-, commands, hemits, hshape⟩ := (lowerExpr_lowers before.builder.outline
    (scalarDefaults_of_units hscope) expr path before).adds hwithin hclean
  obtain ⟨-, hcode⟩ := hshape _ List.prefix_rfl
  have horderly : Orderly _ (fun _ => True) commands before.builder.offset :=
    hcode.orderly (hbody.covers scope _) before.builder.offset
  refine ⟨Heap.combines, commands, hemits, hcode.computing hfree, ?_⟩
  intro σ γ setup function machine locals outer hhas hframes hlocals
  have hloaded := hhas.loaded hemits fun command hmem => (horderly.allows command hmem).fits
  -- The locals of the frame are the store that the expression is evaluated in.
  let run := hbody.running setup hhas outer machine
  let situation : Situation := ⟨.start slots locals.toList, machine.heap, []⟩
  have hvalues := hbody.running_values setup hhas outer machine hlocals
  have hyields : run.Yields commands (run.state before.builder.offset machine.stack situation)
      (lowerExpr scope expr path before).builder.offset (· :: machine.stack) situation
      (expr.evaluate situation.store situation.heap) :=
    hcode.yields hfree hloaded hemits.offset machine.stack situation
  rw [hbody.running_state setup hhas hframes hlocals] at hyields
  cases hresult : expr.evaluate situation.store situation.heap with
  | ok value heap =>
      rw [hresult, Running.Yields, Running.state, hvalues] at hyields
      exact ⟨(expr.evaluate_allocates _).ok hresult, hyields⟩
  | error kind heap =>
      rw [hresult] at hyields
      obtain ⟨fault, offset, stack, hbreaks, hkind⟩ := hyields
      rw [Running.state, hvalues] at hbreaks
      have hgoes : machine.hasFramesAbove outer.length = true := by
        rw [hasFramesAbove_iff, hframes]
        exact Nat.lt_succ_self _
      exact ⟨(expr.evaluate_allocates _).error hresult, ⟨fault, offset, stack, hbreaks, hkind⟩,
        fun hendless => hbreaks.drain_eq hgoes (hkind.trans hendless)⟩

end

/-- Whether a compiled function consists of what was emitted, with some more code behind it. -/
def CompiledFunction.consistsOf (compiled : CompiledFunction Constant) (builder : FunctionBuilder)
    (rest : List UInt8) : Bool :=
  compiled.code.toList = builder.code.toList ++ rest &&
    compiled.constants.size = builder.constants.size &&
    (compiled.constants.toList.zip builder.constants.toList).all fun pair =>
      pair.1.identicalTo pair.2

/-- A function that consists of what was emitted has all of it. -/
theorem CompiledFunction.Links.has {compiled : CompiledFunction Constant}
    {function : CompiledFunction Value} (hlinks : compiled.Links function)
    {before after : FunctionBuilder} {rest : List UInt8} (hbegins : before.offset = 0)
    (hconsists : compiled.consistsOf after rest = true) : function.Has before after := by
  simp only [consistsOf, Bool.and_eq_true, decide_eq_true_eq] at hconsists
  obtain ⟨⟨hcode, hsize⟩, hsame⟩ := hconsists
  refine ⟨⟨[], rest, ?_, hbegins.symm⟩, fun position value hvalue => ?_⟩
  · rw [hlinks.code, hcode, hbegins, List.drop_zero, List.nil_append]
  · refine hlinks.constant position value (getElem?_of_identical (by simpa using hsize) hsame ?_)
    simpa using hvalue

/-- A function that compares the sum of its parameter and a number with another number. -/
def comparing : SourceUnit where
  id := "comparing.json"
  text := "\x7b\"namespace\": \"M\", \"functions\": [\x7b\"name\": \"check\",
    \"params\": [\x7b\"name\": \"x\", \"type\": \"int\"\x7d], \"body\": [\x7b\"print\":
    \x7b\"eq\": [5, \x7b\"add\": [\"x\", 2]\x7d]\x7d\x7d]\x7d]\x7d"

/-- What `comparing` prints. -/
def comparison : Expr :=
  .operator .eq (some [.int 5, .operator (.arithmetic .add) (some [.reference "x", .int 2])])

/-- The state in which the body of `comparing` begins. -/
def comparingStart : Lowering :=
  ⟨Compiler.startFunction "M" ⟨"M.check", [⟨"x", .int, none⟩], none⟩, {}⟩

/-- Whether the comparison is lowered without an error to code that the function has. -/
def compares (signatures : SignatureTable) (functions : FunctionTable Constant) : Bool :=
  let after := lowerExpr ⟨signatures, nowhere⟩ comparison .root comparingStart
  !after.diagnostics.hasErrors && after.builder.overflow.isNone &&
    (functions.get? "M.check").any
      (·.consistsOf after.builder [Opcode.print.byte, Opcode.halt.byte])

set_option maxRecDepth 100000 in
/-- With a number the comparison holds or does not; without one the sum fails. -/
theorem comparing_computes :
    ∃ (setup : Setup Transcript HeadlessGraphics) (commands : List Command)
      (given missing after stopped : Machine Transcript HeadlessGraphics) (fault : Fault),
      Computing commands ∧ given.stack = [.null] ∧
        given.CarriesOut setup commands after ∧ after.stack = [.bool true, .null] ∧
        missing.Breaks setup commands fault stopped ∧ fault.kind = .typeMismatch := by
  obtain ⟨compilation, entries, hcompile, -, hcheck⟩ := exists_of_compilesTo comparing
    (fun _ signatures compilation => compares signatures compilation.functions) rfl
    (by decide +kernel)
  -- What the text means stays abstract: nothing below may run the compiler.
  generalize hknows : programSignatures [comparing] = signatures at hcheck
  simp only [compares, Bool.and_eq_true, Bool.not_eq_true', Option.isNone_iff_eq_none,
    Option.any_eq_true] at hcheck
  generalize hlowered : lowerExpr ⟨signatures, nowhere⟩ comparison .root comparingStart = after
    at hcheck
  obtain ⟨⟨hclean, hlimits⟩, main, hmain, hconsists⟩ := hcheck
  obtain ⟨_, _, -, ⟨made⟩⟩ := translation_of_mem hcompile (FunctionTable.mem_of_get? hmain).1
  have hlinks := (link_scalars made.wellFormed.scalar {}).2
  generalize (main.link {}).1 = function at hlinks
  have hopens := opens_startFunction "M" ⟨"M.check", [⟨"x", .int, none⟩], none⟩
    (List.nodup_singleton _)
  have hbody : comparingStart.InBody [("x", .int)] :=
    .of_opens hopens (Compiler.bounded_startFunction "M" ⟨"M.check", [⟨"x", .int, none⟩], none⟩) rfl
  have hhas : function.Has comparingStart.builder after.builder := hlinks.has rfl hconsists
  have hfree : comparison.isCallFree = true := rfl
  obtain ⟨-, commands, -, hcomputing, hruns⟩ :=
    expression_code_computes hknows.symm hbody hlowered.symm ⟨hclean, hlimits⟩ hfree
  let setup : Setup Transcript HeadlessGraphics := .printing (compilation.functions.link {}).1
  let machine (x : Value) : Machine Transcript HeadlessGraphics :=
    { frames := [⟨function, 0, #[x]⟩]
      stack := [.null], heap := {}, graphics := .absent, environment := {} }
  have hframes (x : Value) :
      (machine x).frames = ⟨function, comparingStart.builder.offset, #[x]⟩ :: [] := rfl
  have hruns (x : Value) := hruns setup function (machine x) #[x] [] hhas (hframes x) rfl
  have hholds : comparison.evaluate (.start [("x", .int)] #[Value.int 3].toList)
      (machine (.int 3)).heap = .ok (.bool true) {} := rfl
  have hfails : comparison.evaluate (.start [("x", .int)] #[Value.null].toList)
      (machine .null).heap = .error .typeMismatch {} := rfl
  have hgiven := hruns (.int 3)
  have hmissing := hruns .null
  rw [hholds] at hgiven
  rw [hfails] at hmissing
  obtain ⟨-, ⟨fault, offset, stack, hbreaks, hkind⟩, -⟩ := hmissing
  exact ⟨setup, commands, machine (.int 3), machine .null, _, _, fault, hcomputing, rfl, hgiven.2,
    rfl, hbreaks, hkind⟩

end DocScript
