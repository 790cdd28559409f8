import DocScript.Proofs.Bytecode.Paths
import DocScript.Proofs.Compile.BodyFlow
import DocScript.Proofs.Compile.WellFormed

/-! # Compiled functions are balanced

On every path through a compiled function each instruction finds the values that it
takes. The code of an expression adds exactly one value, and the code of a statement
leaves all the values that it finds. A function returns a value only if it has one of
its own, and only if it is to give one.
-/

namespace DocScript

open Command FunctionBuilder FlowScope

/-- The stack is in balance in the code of a function, whose body has the names in the scope. -/
structure CompiledFunction.Balanced (signatures : SignatureTable) (signature : Signature)
    (body : BodyScope) (function : CompiledFunction Constant) : Prop where
  covered : ∀ spot, function.Path signatures .entry spot → function.Covered signatures spot
  expr : ∀ assigned expr start commands,
    ExprCode body function.constants.toList assigned expr commands →
      Loaded function.code start commands →
        function.Nets signatures start (start + size commands) (· = 1) ∧
          function.Crossed signatures start (start + size commands)
  stmt : ∀ assigned start stmt commands after,
    StmtCode body function.constants.toList assigned start stmt commands after →
      Loaded function.code start commands →
        function.Nets signatures start (start + size commands) (0 ≤ ·)
  returned : ∀ offset operand, (offset, .operation .ret operand) ∈ function.entries →
    signature.isVoid = false
  owned : ∀ spot operand, function.Path signatures .entry spot →
    Instruction.decode? function.code spot.offset = some (.operation .ret operand) →
      1 ≤ spot.height

/-! ### Expressions -/

/-- No command of the code goes elsewhere. -/
def Straight (commands : List Command) : Prop :=
  ∀ command ∈ commands, command.op.isStraight = true

namespace Straight

variable {first second : List Command} {command : Command}

theorem nil : Straight [] := by simp [Straight]

theorem append (hfirst : Straight first) (hsecond : Straight second) :
    Straight (first ++ second) := by
  intro command hmem
  rcases List.mem_append.1 hmem with hmem | hmem
  · exact hfirst command hmem
  · exact hsecond command hmem

theorem cons (hcommand : command.op.isStraight = true) (hsecond : Straight second) :
    Straight (command :: second) := by
  simpa [Straight, hcommand] using hsecond

end Straight

theorem Operator.isStraight_opcode (operator : Operator) : operator.opcode.isStraight = true := by
  cases operator with
  | arithmetic op => cases op <;> rfl
  | _ => rfl

section Expressions

variable {body : BodyScope} {pool : List Constant} {assigned : List String}

mutual

theorem ExprCode.straight {expr : Expr} {commands : List Command}
    (h : ExprCode body pool assigned expr commands) : Straight commands := by
  match h with
  | .int _ | .float _ | .bool _ | .null _ | .string _ | .reference _ | .named _ =>
      exact .cons rfl .nil
  | .overfull hexpr => exact ExprCode.straight hexpr
  | .array _ _ hitems => exact (ItemsCode.straight hitems).append (.cons rfl .nil)
  | .not hoperand | .negate _ hoperand | .length _ hoperand =>
      exact (ExprCode.straight hoperand).append (.cons rfl .nil)
  | .operator _ _ hoperands =>
      exact (ItemsCode.straight hoperands).append (.cons (Operator.isStraight_opcode _) .nil)
  | .get _ hindex => exact .cons rfl ((ExprCode.straight hindex).append (.cons rfl .nil))
  | .call _ harguments _ =>
      exact (ArgumentsCode.straight harguments).append (.cons rfl (.cons rfl .nil))

theorem ItemsCode.straight {operator : Option Operator} {items : List Expr}
    {commands : List Command} (h : ItemsCode body pool assigned operator items commands) :
    Straight commands := by
  match h with
  | .nil => exact .nil
  | .cons _ hitem hrest => exact (ExprCode.straight hitem).append (ItemsCode.straight hrest)

theorem ArgumentCode.straight {param : Parameter} {arguments : List (String × Expr)}
    {commands : List Command} (h : ArgumentCode body pool assigned param arguments commands) :
    Straight commands := by
  match h with
  | .given _ _ hargument => exact ExprCode.straight hargument
  | .later _ hrest => exact ArgumentCode.straight hrest
  | .omitted _ _ => exact .cons rfl .nil

theorem ArgumentsCode.straight {arguments : List (String × Expr)} {params : List Parameter}
    {commands : List Command} (h : ArgumentsCode body pool assigned arguments params commands) :
    Straight commands := by
  match h with
  | .nil => exact .nil
  | .cons hparam hrest =>
      exact (ArgumentCode.straight hparam).append (ArgumentsCode.straight hrest)

end

end Expressions

section Pieces

variable {function : CompiledFunction Constant} {body : BodyScope} {assigned after : List String}
  {start : Nat} {commands : List Command}

/-- Every path through the code of an expression adds exactly one value. -/
theorem ExprCode.nets {expr : Expr}
    (h : ExprCode body function.constants.toList assigned expr commands)
    (hloaded : Loaded function.code start commands) :
    function.Nets body.signatures start (start + size commands) (· = 1) := by
  let scope : FlowScope :=
    { code := alone start commands
      pool := function.constants.toList
      signatures := body.signatures
      valued := false
      tidy := false
      left := fun _ => 0 }
  have hturns : scope.Turns start commands 0 1 := h.turns rfl start
  refine (hturns hloaded.alone (fun _ _ _ => rfl) 0 ⟨start, [], 0⟩ ⟨rfl, rfl⟩).nets rfl rfl
    rfl (fun _ => rfl) hloaded ?_
  intro point hpoint
  exact ⟨hpoint.1, congrArg Int.ofNat hpoint.2⟩

/-- Some path passes the code of an expression. -/
theorem ExprCode.crossed {expr : Expr}
    (h : ExprCode body function.constants.toList assigned expr commands)
    (hloaded : Loaded function.code start commands) :
    function.Crossed body.signatures start (start + size commands) := by
  let scope : FlowScope :=
    { code := function.code
      pool := function.constants.toList
      signatures := body.signatures
      valued := false
      tidy := false
      left := fun _ => 0 }
  have hturns : scope.Turns start commands 0 1 := h.turns rfl start
  have hdescribes : scope.Describes body.signatures function :=
    ⟨rfl, rfl, fun _ => rfl, fun _ _ _ hread => hread⟩
  intro first hfirst
  have hover : first.Over ⟨start, [], 0⟩ first.height := ⟨hfirst, List.nil_prefix, by simp⟩
  have hleads := hturns hloaded (fun _ _ _ => rfl) 0 ⟨start, [], 0⟩ ⟨rfl, rfl⟩
  exact hleads.exists_path hdescribes hloaded h.straight
    (Nat.le_refl start) rfl (fun point hpoint => hpoint.1) hover hfirst

/-- Every path through the code of a statement leaves at least as many values as it finds. -/
theorem StmtCode.nets {stmt : Stmt}
    (h : StmtCode body function.constants.toList assigned start stmt commands after)
    (hloaded : Loaded function.code start commands) :
    function.Nets body.signatures start (start + size commands) (0 ≤ ·) := by
  -- Nothing is asked of what the statement leaves behind, so no function counts as tidy here.
  let scope : FlowScope :=
    { code := alone start commands
      pool := function.constants.toList
      signatures := body.signatures
      valued := body.names.returns.isSome
      tidy := false
      left := fun _ => 0 }
  have hpasses : scope.Passes start commands _ stmt.alwaysReturns := h.passes ⟨rfl, rfl⟩
  have hleads := hpasses.leads hloaded.alone (fun _ _ _ => rfl) ⟨start, [], 0⟩ ⟨rfl, nofun⟩
  refine hleads.nets rfl rfl rfl (fun _ => rfl) hloaded ?_
  intro point hpoint
  exact ⟨hpoint.2.1, Int.natCast_nonneg _⟩

end Pieces

/-! ### Functions -/

namespace Translation

variable {signatures : SignatureTable} {space : String} {declaration : Json}
  {function : CompiledFunction Constant}
  (made : Translation signatures space declaration function)

include made

/-- On every path from the beginning of a function each instruction finds what it takes. -/
theorem covered {spot : Spot} (hpath : function.Path signatures .entry spot) :
    function.Covered signatures spot := by
  let scope : FlowScope :=
    { code := function.code
      pool := function.constants.toList
      signatures
      valued := made.names.returns.isSome
      tidy := false
      left := fun _ => 0 }
  have hdescribes : scope.Describes signatures function :=
    ⟨rfl, rfl, fun _ => rfl, fun _ _ _ hread => hread⟩
  have hloaded : Loaded scope.code 0 (made.commands ++ [⟨.halt, 0⟩]) :=
    ⟨.whole made.code, fun command hmem => (made.orderly_whole.allows command hmem).fits⟩
  have hpasses : scope.Passes 0 made.commands _ (blockAlwaysReturns made.stmts) :=
    made.block.passes ⟨rfl, rfl⟩
  have hleads := hpasses.leads hloaded.left (fun _ _ _ => rfl) ⟨0, [], 0⟩ ⟨rfl, nofun⟩
  -- Where the flow leaves the body stands the closing halt, from which no path goes on.
  have hhalt {spot : Spot} {point : Point} (hboundary : scope.Boundary (0 + size made.commands) point)
      (hover : spot.Over point 0) : function.Performs signatures spot .halt 0 0 0 := by
    refine ⟨?_, rfl⟩
    rw [hover.offset, hboundary.1]
    exact hloaded.right.decode
  obtain ⟨point, hrest, hover⟩ := hleads.follow hdescribes (fun _ _ hfollows => hfollows)
    (fun spot point next hexit hover hfollows => by
      obtain ⟨offset, hmem, -⟩ := hfollows.of_performs (hhalt hexit.2 hover)
      cases hmem) (⟨rfl, List.nil_prefix, rfl⟩ : Spot.entry.Over ⟨0, [], 0⟩ 0) hpath
  have hheight := hover.height
  rcases hrest.cases with hexit | hflows
  · exact ⟨_, _, _, _, hhalt hexit.2 hover, by omega⟩
  · obtain ⟨op, operand, taken, given, hperforms, htaken, -⟩ := hflows.performs hdescribes hover
    exact ⟨op, operand, taken, given, hperforms, by omega⟩

/-- A function that translates a declaration is balanced. -/
theorem balanced : function.Balanced signatures made.signature ⟨signatures, made.names⟩ where
  covered _ := made.covered
  expr _ _ _ _ h hloaded := ⟨h.nets hloaded, h.crossed hloaded⟩
  stmt _ _ _ _ _ h hloaded := h.nets hloaded
  returned := by
    intro offset operand hmem
    have hvalued := (made.allows hmem).returned rfl
    simpa [limits, made.known] using hvalued
  owned := by
    intro spot operand hpath hread
    obtain ⟨op, operand', taken, given, ⟨hdecode, hbalance⟩, htaken⟩ := made.covered hpath
    cases hread.symm.trans hdecode
    cases hbalance
    exact htaken

end Translation

/-- Compiled code keeps the operand stack in balance. Every function of a program that compiles is
the translation of a declaration. On every path from its beginning each instruction finds the
values that it takes; the code of an expression in its body adds exactly one value, that of a
statement takes none away; and a return stands only in a function that is to give a value, and
finds one of the function's own. -/
theorem compiled_code_balanced {units : List SourceUnit} {compilation : Compilation}
    (hcompile : compileUnits units = .ok compilation) {function : CompiledFunction Constant}
    (hmem : function ∈ compilation.functions.functions) :
    ∃ space declaration, Declared units space declaration ∧
      ∃ made : Translation (programSignatures units) space declaration function,
        function.Balanced (programSignatures units) made.signature
          ⟨programSignatures units, made.names⟩ := by
  obtain ⟨space, declaration, hdeclared, ⟨made⟩⟩ := translation_of_mem hcompile hmem
  exact ⟨space, declaration, hdeclared, made, made.balanced⟩

set_option maxRecDepth 100000 in
theorem countdown_balanced : ∃ compilation function,
    compileUnits [countdown] = .ok compilation ∧
      compilation.functions.get? "M.before" = some function ∧
      ∃ space declaration, Declared [countdown] space declaration ∧
        ∃ made : Translation (programSignatures [countdown]) space declaration function,
          function.Balanced (programSignatures [countdown]) made.signature
            ⟨programSignatures [countdown], made.names⟩ := by
  obtain ⟨compilation, -, hcompile, -, hcontains⟩ := exists_of_compilesTo countdown
    (fun _ _ compilation => compilation.functions.contains "M.before") rfl (by decide +kernel)
  rw [FunctionTable.contains_eq, Option.isSome_iff_exists] at hcontains
  obtain ⟨function, hfunction⟩ := hcontains
  exact ⟨compilation, function, hcompile, hfunction,
    compiled_code_balanced hcompile (FunctionTable.mem_of_get? hfunction).1⟩

end DocScript
