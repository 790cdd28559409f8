import DocScript.Proofs.Compile.BodyFlow
import DocScript.Proofs.Machine.Linking

/-! # The flow of the functions of a program

Each function of a program that compiles begins at a point from which every way ends in
a return, goes on forever, or comes to the halt that closes the function.
-/

namespace DocScript

open Command FunctionBuilder

/-- A declaration gives a function of the full name the body. -/
def DeclaredBody (units : List SourceUnit) (fullName space : String) (stmts : List Stmt) : Prop :=
  ∃ declaration name, Declared units space declaration ∧ declaredName? declaration = some name ∧
    fullName = space ++ "." ++ name ∧ declaredBody? declaration = some stmts

/-- How control flows through a function of a program. -/
structure FunctionFlow (units : List SourceUnit) (function : CompiledFunction Value) where
  scope : FlowScope
  space : String
  stmts : List Stmt
  /-- The offset of the halt that closes the function. -/
  ending : Nat
  signature : Signature
  declared : DeclaredBody units function.name space stmts
  known : (programSignatures units).get? function.name = some signature
  code : scope.code = function.code
  constant : ∀ (position : Nat) (value : Scalar), scope.pool[position]? = some (.scalar value) →
    function.constants[position]? = some (.scalar value)
  signatures : scope.signatures = programSignatures units
  valued : scope.valued = !signature.isVoid
  /-- Apart from what statements leave to nobody. -/
  tidy : scope.tidy = true
  left : ∀ offset, scope.left offset =
    if offset ∈ blockLeftAt (programSignatures units) space 0 stmts then 1 else 0
  calls : ∀ offset ∈ blockLeftAt (programSignatures units) space 0 stmts,
    FlowScope.CallsAt function.code offset
  closes : Instruction.decode? function.code ending = some (.operation .halt 0)
  last : ending + 1 = function.code.size
  begins : scope.Leads (fun point => blockAlwaysReturns stmts = false ∧
    scope.Boundary ending point) ⟨0, [], 0⟩

namespace FunctionFlow

variable {units : List SourceUnit} {function : CompiledFunction Value}

/-- The points from which every way ends as it should. -/
def Safe (flow : FunctionFlow units function) : Point → Prop :=
  flow.scope.Leads fun point => blockAlwaysReturns flow.stmts = false ∧
    flow.scope.Boundary flow.ending point

end FunctionFlow

section Programs

variable {units : List SourceUnit} {space : String} {declaration : Json}
  {compiled : CompiledFunction Constant} {function : CompiledFunction Value}

/-- A function that was made from a declaration flows as its body does. -/
theorem Translation.flow (made : Translation (programSignatures units) space declaration compiled)
    (hdeclared : Declared units space declaration) (hlinks : compiled.Links function) :
    ∃ flow : FunctionFlow units function, flow.space = space ∧ flow.stmts = made.stmts := by
  let scope : FlowScope :=
    { code := function.code
      pool := compiled.constants.toList
      signatures := programSignatures units
      valued := made.names.returns.isSome
      tidy := true
      left := (blockLeftAt (programSignatures units) space 0 made.stmts).count }
  have hloaded : Loaded scope.code 0 (made.commands ++ [⟨.halt, 0⟩]) := made.loaded hlinks
  have hflows : BodyScope.Flows ⟨programSignatures units, made.names⟩ scope := ⟨rfl, rfl⟩
  -- The body comes to its end with an empty stack of its own, and the closing halt stands there.
  have hpasses : scope.Passes 0 made.commands
      (blockLeftAt (programSignatures units) space 0 made.stmts)
      (blockAlwaysReturns made.stmts) := by
    have hblock := made.block.passes hflows
    rwa [made.space_eq] at hblock
  have hbegins := hpasses.leads hloaded.left (fun _ _ _ => rfl) ⟨0, [], 0⟩ ⟨rfl, fun _ => rfl⟩
  rw [Nat.zero_add] at hbegins
  have hhalt := hloaded.right
  rw [Nat.zero_add] at hhalt
  obtain ⟨name, hname, hfull⟩ := made.named
  have hknown : (programSignatures units).get? function.name = some made.signature :=
    hlinks.name ▸ made.known
  exact ⟨{
    scope, space
    stmts := made.stmts
    ending := size made.commands
    signature := made.signature
    declared := ⟨declaration, name, hdeclared, hname, hlinks.name.trans hfull, made.body⟩
    known := hknown
    code := rfl
    constant := hlinks.constant
    signatures := rfl
    valued := by
      change made.names.returns.isSome = !made.signature.returns.isNone
      rw [made.returns, Option.not_isNone]
    tidy := rfl
    left := hpasses.within.count_eq
    calls := hpasses.calls hloaded.left
    closes := decode?_of_standAt hhalt.stands rfl
    last := (hlinks.code ▸ made.size_code).symm
    begins := hbegins }, rfl, rfl⟩

variable {compilation : Compilation} {heap : Heap} {name : String}

/-- Every function of a program flows. -/
theorem flow_of_get? (hcompile : compileUnits units = .ok compilation)
    (hget : (compilation.functions.link heap).1.get? name = some function) :
    Nonempty (FunctionFlow units function) := by
  obtain ⟨_, _, _, hdeclared, hlinks, ⟨made⟩⟩ := translation_of_get? hcompile hget
  obtain ⟨flow, -, -⟩ := made.flow hdeclared hlinks
  exact ⟨flow⟩

/-- Every function of a program flows as any declaration says that gives it a body. -/
theorem flow_of_declared (hcompile : compileUnits units = .ok compilation)
    (hget : (compilation.functions.link heap).1.get? name = some function) {stmts : List Stmt}
    (hdeclared : DeclaredBody units function.name space stmts) :
    ∃ flow : FunctionFlow units function, flow.space = space ∧ flow.stmts = stmts := by
  rw [link_get? hcompile, Option.map_eq_some_iff] at hget
  obtain ⟨compiled, hcompiled, rfl⟩ := hget
  obtain ⟨declaration, declaredName, hdeclared, hname, hfull, hbody⟩ := hdeclared
  have hsame : compiled.name = name := (FunctionTable.mem_of_get? hcompiled).2
  have hlinked : compiled.name = space ++ "." ++ declaredName := hfull
  rw [← hsame, hlinked] at hcompiled
  obtain ⟨made⟩ := translation_of_declared hcompile hdeclared hname hcompiled
  obtain ⟨flow, hspace, hstmts⟩ :=
    made.flow hdeclared (link_scalars made.wellFormed.scalar heap).2
  refine ⟨flow, hspace, hstmts.trans ?_⟩
  exact Option.some.inj (made.body.symm.trans hbody)

end Programs

end DocScript
