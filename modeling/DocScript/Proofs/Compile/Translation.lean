import DocScript.Proofs.Bytecode.Table
import DocScript.Proofs.Compile.Locals
import DocScript.Proofs.Compile.StmtLowering

/-! # Compiled programs

Every function in the table of a compilation that succeeds is the translation of a
declaration in one of the units: its code is the code of the body of that declaration
with the closing halt behind it.
-/

namespace DocScript

open Command FunctionBuilder Lowering LoweringScope

/-- The statements in the body of a declaration, if it has a list of them. -/
def declaredBody? (declaration : Json) : Option (List Stmt) :=
  ((declaration.get? "body").bind Json.array?).map (·.map Stmt.ofJson)

/-- The function is made from the declaration and does what it says, as far as its code shows. -/
structure Translation (signatures : SignatureTable) (space : String) (declaration : Json)
    (function : CompiledFunction Constant) where
  signature : Signature
  names : FunctionBuilder
  stmts : List Stmt
  commands : List Command
  assigned : List String
  known : signatures.get? function.name = some signature
  named : ∃ name, declaredName? declaration = some name ∧ function.name = space ++ "." ++ name
  body : declaredBody? declaration = some stmts
  laidOut : names.LaidOut (signature.slots ++ declaredLocals declaration)
  fits : (signature.slots ++ declaredLocals declaration).length ≤ largestWord + 1
  space_eq : names.space = space
  returns : names.returns = signature.returns
  params : names.params = (signature.params.map Parameter.name).reverse
  localCount : function.localCount = (signature.slots ++ declaredLocals declaration).length
  paramCount : function.paramCount = signature.params.length
  block : BlockCode ⟨signatures, names⟩ function.constants.toList
    (signature.params.map Parameter.name).reverse 0 stmts commands assigned
  code : function.code.toList = assemble (commands ++ [⟨.halt, 0⟩])
  pushed : ∀ constant ∈ function.constants.toList, ∃ position,
    ⟨.pushConst, position⟩ ∈ commands ∧ function.constants.toList[position]? = some constant

theorem Translation.name_eq {signatures : SignatureTable} {space name : String}
    {declaration : Json} {function : CompiledFunction Constant}
    (made : Translation signatures space declaration function)
    (hname : declaredName? declaration = some name) : function.name = space ++ "." ++ name := by
  obtain ⟨declared, hdeclared, hfull⟩ := made.named
  rw [hfull, Option.some.inj (hname.symm.trans hdeclared)]

namespace Compiler

/-- Lowering a function begins with its locals and goes on with its body. -/
theorem lowerFunction_eq (scope : LoweringScope) (path : SourcePath) (declaration : Json)
    (state : Lowering) (hbounded : state.builder.Bounded) :
    ∃ opened : Lowering, opened.builder.Bounded ∧
      (opened.Clean → state.Clean ∧ ∀ space signature slots,
        state.builder.Opens space signature slots →
          opened.builder.Opens space signature (slots ++ declaredLocals declaration)) ∧
      lowerFunction scope path declaration state =
        (match declaredBody? declaration with
          | some stmts => lowerBlock scope stmts (path.member "body") 0 opened
          | none => scope.report path (.bodyNotList opened.builder.name) opened).emit .halt := by
  refine ⟨openLocals scope path declaration state, ?_, fun hclean => ?_, ?_⟩
  · unfold openLocals
    split
    next => exact hbounded
    next => exact bounded_declareLocals hbounded
    next => exact hbounded
  · unfold openLocals at hclean ⊢
    split at hclean
    next hnone =>
      refine ⟨hclean, fun _ _ _ hopens => ?_⟩
      simpa [declaredLocals, hnone] using hopens
    next items hitems =>
      obtain ⟨hbefore, hlocals⟩ := declareLocals_opens hclean
      refine ⟨hbefore, fun _ _ _ hopens => ?_⟩
      simpa [declaredLocals, hitems] using hlocals _ _ _ hopens
    next => exact absurd hclean (not_clean_report _)
  · unfold lowerFunction declaredBody?
    cases (declaration.get? "body").bind Json.array? <;> rfl

theorem translation_of_lowerFunction {signatures : SignatureTable} {site : SourceSite}
    {path : SourcePath} {space : String} {declaration : Json} {signature : Signature}
    {name : String} {diagnostics : DiagnosticBag} {state : Lowering}
    (hsound : signatures.Sound) (hname : declaredName? declaration = some name)
    (hknown : signatures.get? (space ++ "." ++ name) = some signature)
    (hstate : state = lowerFunction ⟨signatures, site⟩ path declaration
      ⟨startFunction space signature, diagnostics⟩)
    (hclean : state.Clean) :
    diagnostics.hasErrors = false ∧ (startFunction space signature).overflow = none ∧
      Nonempty (Translation signatures space declaration state.builder.finish) := by
  have hfound := hsound.get? hknown
  have hopens := opens_startFunction space signature hfound.1.distinct
  obtain ⟨opened, hbounded, hlocals, heq⟩ := lowerFunction_eq ⟨signatures, site⟩ path declaration
    ⟨startFunction space signature, diagnostics⟩ (bounded_startFunction space signature)
  rw [heq] at hstate
  subst hstate
  have hhalt : Opcode.halt.operand = .none := rfl
  cases hbody : declaredBody? declaration with
  | none =>
      simp only [hbody] at hclean
      exact absurd ⟨hclean.errors, hclean.limits⟩ (not_clean_report _)
  | some stmts =>
      simp only [hbody] at hclean ⊢
      have hdefaults : signatures.ScalarDefaults := fun callee other hother =>
        (hsound.get? hother).1.scalar
      have hwithin : Within opened.builder.outline opened := ⟨rfl, hbounded⟩
      let scope : LoweringScope := ⟨signatures, site⟩
      have hblock : Lowers opened.builder.outline opened
          (lowerBlock scope stmts (path.member "body") 0 opened)
          (.block (scope.body opened.builder.outline) stmts) :=
        lowerBlock_lowers opened.builder.outline hdefaults stmts _ 0 opened
      obtain ⟨hopened, _, hemits, hshape⟩ :=
        (hblock.andThen (emit_lowers hhalt)).adds hwithin hclean
      obtain ⟨hstart, hslots⟩ := hlocals hopened
      have hopens := hslots space signature _ hopens
      obtain ⟨commands, _, assigned, rfl, hcode, rfl, -⟩ := hshape _ List.prefix_rfl
      have hbytes := hemits.code
      have hconstants := hemits.pushed
      rw [hopens.code] at hbytes
      rw [hopens.constants] at hconstants
      have houtline := hemits.outline
      simp only [outline, FunctionBuilder.mk.injEq] at houtline
      obtain ⟨hname', -, -, -, -, -, hparams, hnext, -⟩ := houtline
      have hfull := hname'.trans (hopens.name.trans hfound.2)
      refine ⟨hstart.errors, hstart.limits, ⟨?_⟩⟩
      exact {
        signature
        names := opened.builder.outline
        stmts
        commands
        assigned
        known := (congrArg signatures.get? hfull).trans hknown
        named := ⟨name, hname, hfull⟩
        body := hbody
        laidOut := ⟨hopens.laidOut.count, hopens.laidOut.slot, hopens.laidOut.distinct,
          fun _ => hopens.laidOut.fits hopened.limits⟩
        fits := hopens.laidOut.fits hopened.limits
        space_eq := hopens.space
        returns := hopens.returns
        params := hopens.params
        localCount := hnext.trans hopens.laidOut.count
        paramCount := hparams.trans hopens.paramCount
        block := by
          rw [← hopens.assigned]
          have hzero : opened.builder.offset = 0 := by simp [offset, hopens.code]
          exact hzero ▸ hcode
        code := hbytes
        pushed := by
          intro constant hmem
          rcases hconstants constant hmem with hempty | ⟨position, hpush, hconstant⟩
          · cases hempty
          · refine ⟨position, ?_, hconstant⟩
            simpa using hpush }

/-! ### Both passes -/

/-- What the second pass has compiled so far: the table is made from the given declarations, and
holds a function under the name of each one whose signature is known. -/
structure Compiles (signatures : SignatureTable) (declarations : List (String × Json))
    (functions : FunctionTable Constant) : Prop where
  made : ∀ function ∈ functions.functions, ∃ entry ∈ declarations,
    Nonempty (Translation signatures entry.1 entry.2 function)
  unique : ∀ entry ∈ declarations, ∀ name, declaredName? entry.2 = some name →
    ∀ function, functions.get? (entry.1 ++ "." ++ name) = some function →
      Nonempty (Translation signatures entry.1 entry.2 function)
  complete : ∀ entry ∈ declarations, ∀ name, declaredName? entry.2 = some name →
    signatures.get? (entry.1 ++ "." ++ name) ≠ none →
      functions.contains (entry.1 ++ "." ++ name) = true

theorem not_clean_error (bag : DiagnosticBag) (site : SourceSite) (path : SourcePath)
    (error : CompileError) : ¬ (bag.push (site.error path error)).hasErrors = false := by
  rw [DiagnosticBag.hasErrors_push, SourceSite.isError_error, Bool.true_or]
  exact Bool.noConfusion

variable {signatures : SignatureTable} {declarations : List (String × Json)}
  {functions : FunctionTable Constant} {space : String} {declaration : Json}

/-- A declaration that is passed over. -/
theorem Compiles.pass (h : Compiles signatures declarations functions)
    (hunknown : ∀ name, declaredName? declaration = some name →
      functions.get? (space ++ "." ++ name) = none ∧
        signatures.get? (space ++ "." ++ name) = none) :
    Compiles signatures (declarations ++ [(space, declaration)]) functions where
  made function hmem := by
    obtain ⟨entry, hentry, hmade⟩ := h.made function hmem
    exact ⟨entry, List.mem_append_left _ hentry, hmade⟩
  unique entry hentry name hname function hget := by
    rcases List.mem_append.1 hentry with hearlier | hlast
    · exact h.unique entry hearlier name hname function hget
    · rw [List.mem_singleton] at hlast
      subst hlast
      rw [(hunknown name hname).1] at hget
      cases hget
  complete entry hentry name hname hknown := by
    rcases List.mem_append.1 hentry with hearlier | hlast
    · exact h.complete entry hearlier name hname hknown
    · rw [List.mem_singleton] at hlast
      subst hlast
      exact absurd (hunknown name hname).2 hknown

/-- A declaration under a new name is compiled. -/
theorem Compiles.add {function : CompiledFunction Constant}
    (h : Compiles signatures declarations functions)
    (made : Translation signatures space declaration function)
    (hfresh : functions.contains function.name = false) :
    Compiles signatures (declarations ++ [(space, declaration)]) (functions.insert function) where
  made other hmem := by
    rcases FunctionTable.mem_insert hmem with rfl | hmem
    · exact ⟨_, List.mem_append_right _ (List.mem_singleton_self _), ⟨made⟩⟩
    · obtain ⟨entry, hentry, hmade⟩ := h.made other hmem
      exact ⟨entry, List.mem_append_left _ hentry, hmade⟩
  unique entry hentry name hname other hget := by
    rw [FunctionTable.get?_insert] at hget
    rcases List.mem_append.1 hentry with hearlier | hlast
    · split at hget
      next hsame =>
        -- Its signature is known, so it would have been in the table.
        have hknown : signatures.get? (entry.1 ++ "." ++ name) ≠ none := by
          rw [← hsame, made.known]
          nofun
        have hcontains := h.complete entry hearlier name hname hknown
        rw [← hsame, hfresh] at hcontains
        cases hcontains
      next => exact h.unique entry hearlier name hname other hget
    · rw [List.mem_singleton] at hlast
      subst hlast
      rw [if_pos (made.name_eq hname)] at hget
      cases hget
      exact ⟨made⟩
  complete entry hentry name hname hknown := by
    rw [FunctionTable.contains_eq, FunctionTable.get?_insert]
    rcases List.mem_append.1 hentry with hearlier | hlast
    · split
      next => rfl
      next =>
        rw [← FunctionTable.contains_eq]
        exact h.complete entry hearlier name hname hknown
    · rw [List.mem_singleton] at hlast
      subst hlast
      rw [if_pos (made.name_eq hname)]
      rfl

theorem compileDeclaration_compiles {compiler : Compiler} {unit : RegisteredUnit}
    {path : SourcePath} {declaration : Json} (hsound : compiler.signatures.Sound)
    (hclean : (compiler.compileDeclaration unit path declaration).diagnostics.hasErrors = false) :
    compiler.diagnostics.hasErrors = false ∧
      ∀ declarations, Compiles compiler.signatures declarations compiler.functions →
        Compiles compiler.signatures (declarations ++ [(unit.space, declaration)])
          (compiler.compileDeclaration unit path declaration).functions := by
  have hcompiling := compiler.compileDeclaration_compiling unit path declaration
  generalize compiler.compileDeclaration unit path declaration = after at hcompiling hclean ⊢
  cases hcompiling with
  | passed hunknown =>
      refine ⟨hclean, fun _ h => h.pass fun name hname => ?_⟩
      obtain ⟨hfresh, hknown⟩ := hunknown name hname
      rw [FunctionTable.contains_eq, Option.isSome_eq_false_iff, Option.isNone_iff_eq_none]
        at hfresh
      exact ⟨hfresh, hknown⟩
  | repeated => exact absurd hclean (not_clean_error _ _ _ _)
  | exceeded => exact absurd hclean (not_clean_error _ _ _ _)
  | lowered hname hfresh hknown hstate hlimits =>
      obtain ⟨hbefore, -, ⟨made⟩⟩ :=
        translation_of_lowerFunction hsound hname hknown hstate ⟨hclean, hlimits⟩
      exact ⟨hbefore, fun _ h => h.add made (made.name_eq hname ▸ hfresh)⟩

/-- The declarations of a registered unit with its namespace. -/
def RegisteredUnit.entries (unit : RegisteredUnit) : List (String × Json) :=
  unit.declarations.map fun declaration => (unit.space, declaration)

theorem signatures_compileDeclaration (compiler : Compiler) (unit : RegisteredUnit)
    (path : SourcePath) (declaration : Json) :
    (compiler.compileDeclaration unit path declaration).signatures = compiler.signatures := by
  have hcompiling := compiler.compileDeclaration_compiling unit path declaration
  generalize compiler.compileDeclaration unit path declaration = after at hcompiling ⊢
  cases hcompiling <;> rfl

theorem compileDeclarations_compiles {unit : RegisteredUnit} {rest : List Json} {position : Nat}
    {compiler : Compiler} (hsound : compiler.signatures.Sound)
    (hclean : (compileDeclarations unit rest position compiler).diagnostics.hasErrors = false) :
    compiler.diagnostics.hasErrors = false ∧
      (compileDeclarations unit rest position compiler).signatures = compiler.signatures ∧
      ∀ declarations, Compiles compiler.signatures declarations compiler.functions →
        Compiles compiler.signatures
          (declarations ++ rest.map fun declaration => (unit.space, declaration))
          (compileDeclarations unit rest position compiler).functions := by
  induction rest generalizing position compiler with
  | nil => exact ⟨hclean, rfl, fun _ h => by simpa [compileDeclarations] using h⟩
  | cons declaration rest ih =>
      have hsame := signatures_compileDeclaration compiler unit (declarationPath position)
        declaration
      have hrest := ih (hsame ▸ hsound) hclean
      rw [hsame] at hrest
      obtain ⟨hmiddle, hsignatures, hcompiles⟩ := hrest
      obtain ⟨hbefore, hfirst⟩ := compileDeclaration_compiles hsound hmiddle
      refine ⟨hbefore, hsignatures, fun declarations h => ?_⟩
      simpa [compileDeclarations] using hcompiles _ (hfirst _ h)

theorem compileUnitsFrom_compiles {units : List RegisteredUnit} {compiler : Compiler}
    (hsound : compiler.signatures.Sound)
    (hclean : (units.foldl (fun compiler unit =>
      compileDeclarations unit unit.declarations 0 compiler) compiler).diagnostics.hasErrors =
        false) :
    compiler.diagnostics.hasErrors = false ∧
      ∀ declarations, Compiles compiler.signatures declarations compiler.functions →
        Compiles compiler.signatures (declarations ++ units.flatMap RegisteredUnit.entries)
          (units.foldl (fun compiler unit =>
            compileDeclarations unit unit.declarations 0 compiler) compiler).functions := by
  induction units generalizing compiler with
  | nil => exact ⟨hclean, fun _ h => by simpa using h⟩
  | cons unit rest ih =>
      have hsame (declarations : List Json) (position : Nat) (compiler : Compiler) :
          (compileDeclarations unit declarations position compiler).signatures =
            compiler.signatures := by
        induction declarations generalizing position compiler with
        | nil => rfl
        | cons declaration rest ih =>
            rw [compileDeclarations, ih, signatures_compileDeclaration]
      have hrest := ih (by rwa [hsame]) hclean
      rw [hsame] at hrest
      obtain ⟨hmiddle, hcompiles⟩ := hrest
      obtain ⟨hbefore, -, hfirst⟩ := compileDeclarations_compiles hsound hmiddle
      refine ⟨hbefore, fun declarations h => ?_⟩
      rw [List.flatMap_cons, ← List.append_assoc]
      exact hcompiles _ (hfirst declarations h)

/-! ### Registered units -/

/-- Registering a unit adds the declarations of its document, if it has any. -/
theorem registerUnit_units (compiler : Compiler) (unit : SourceUnit) :
    (compiler.registerUnit unit).functions = compiler.functions ∧
      ∀ space declaration, (space, declaration) ∈
          (compiler.registerUnit unit).units.flatMap RegisteredUnit.entries ↔
        (space, declaration) ∈ compiler.units.flatMap RegisteredUnit.entries ∨
          unit.Declares space declaration := by
  have hregistered := compiler.registerUnit_registration unit
  generalize compiler.registerUnit unit = after at hregistered ⊢
  cases hregistered with
  | refused hnone =>
      exact ⟨rfl, fun space declaration => by simp [report, SourceUnit.declares_iff, hnone]⟩
  | kept hdocument =>
      refine ⟨(registerDeclarations_keeps ..).2, fun space declaration => ?_⟩
      rw [List.flatMap_append, List.mem_append, SourceUnit.declares_iff, hdocument]
      refine or_congr_right ?_
      simp [RegisteredUnit.entries, and_comm]

theorem registered_units (units : List SourceUnit) :
    (units.foldl registerUnit {}).functions = {} ∧
      ∀ space declaration, (space, declaration) ∈
          (units.foldl registerUnit {}).units.flatMap RegisteredUnit.entries ↔
        ∃ unit ∈ units, unit.Declares space declaration := by
  have hrest (compiler : Compiler) :
      (units.foldl registerUnit compiler).functions = compiler.functions ∧
        ∀ space declaration, (space, declaration) ∈
            (units.foldl registerUnit compiler).units.flatMap RegisteredUnit.entries ↔
          (space, declaration) ∈ compiler.units.flatMap RegisteredUnit.entries ∨
            ∃ unit ∈ units, unit.Declares space declaration := by
    induction units generalizing compiler with
    | nil => exact ⟨rfl, by simp⟩
    | cons unit rest ih =>
        obtain ⟨hfunctions, hentries⟩ := ih (compiler.registerUnit unit)
        obtain ⟨hfirst, hunit⟩ := registerUnit_units compiler unit
        refine ⟨hfunctions.trans hfirst, fun space declaration => ?_⟩
        rw [List.foldl_cons, hentries, hunit, or_assoc]
        simp only [List.mem_cons, exists_eq_or_imp]
  obtain ⟨hfunctions, hentries⟩ := hrest {}
  exact ⟨hfunctions, by simpa using hentries⟩

end Compiler

/-! ### The whole compilation -/

/-- The signatures that the bodies of a program are compiled against. -/
def programSignatures (units : List SourceUnit) : SignatureTable :=
  (units.foldl Compiler.registerUnit {}).signatures

/-- A unit of the program declares the function. -/
def Declared (units : List SourceUnit) (space : String) (declaration : Json) : Prop :=
  ∃ unit ∈ units, unit.Declares space declaration

variable {units : List SourceUnit} {compilation : Compilation}

theorem compileUnits_compiles (hcompile : compileUnits units = .ok compilation) :
    ∃ declarations, (∀ space declaration, (space, declaration) ∈ declarations ↔
        Declared units space declaration) ∧
      Compiler.Compiles (programSignatures units) declarations compilation.functions := by
  obtain ⟨hfunctions, hentries⟩ := Compiler.registered_units units
  refine ⟨_, hentries, ?_⟩
  unfold compileUnits Compiler.complete Compiler.flush at hcompile
  split at hcompile
  next => cases hcompile
  next =>
    change Compiler.finish _ = _ at hcompile
    unfold Compiler.finish Compiler.flush at hcompile
    split at hcompile
    next => cases hcompile
    next hclean =>
      cases hcompile
      obtain ⟨-, hcompiles⟩ := Compiler.compileUnitsFrom_compiles (Compiler.registered_sound units)
        (Bool.not_eq_true _ ▸ hclean)
      refine hcompiles [] ?_
      rw [hfunctions]
      exact ⟨nofun, nofun, nofun⟩

/-- Every function of a compiled program is the translation of a declaration in it. -/
theorem translation_of_mem (hcompile : compileUnits units = .ok compilation)
    {function : CompiledFunction Constant} (hmem : function ∈ compilation.functions.functions) :
    ∃ space declaration, Declared units space declaration ∧
      Nonempty (Translation (programSignatures units) space declaration function) := by
  obtain ⟨declarations, hdeclared, hcompiles⟩ := compileUnits_compiles hcompile
  obtain ⟨⟨space, declaration⟩, hentry, hmade⟩ := hcompiles.made function hmem
  exact ⟨space, declaration, (hdeclared space declaration).1 hentry, hmade⟩

/-- The function under the name of a declaration is the translation of that declaration. -/
theorem translation_of_declared (hcompile : compileUnits units = .ok compilation)
    {space name : String} {declaration : Json} (hdeclared : Declared units space declaration)
    (hname : declaredName? declaration = some name) {function : CompiledFunction Constant}
    (hget : compilation.functions.get? (space ++ "." ++ name) = some function) :
    Nonempty (Translation (programSignatures units) space declaration function) := by
  obtain ⟨declarations, hdeclarations, hcompiles⟩ := compileUnits_compiles hcompile
  exact hcompiles.unique (space, declaration) ((hdeclarations space declaration).2 hdeclared) name
    hname function hget

/-! ### A program of which the text is at hand

Reading is described by the characters of a text. What a given text compiles to can be computed
from them, while the positions in a string cannot be followed in reasonable time. -/

/-- The members of the object that the characters of a document stand for. -/
def Json.members? (chars : List Char) : Option (List (String × Json)) :=
  match Json.readValue (chars.length + 1) Json.depthLimit ⟨chars, 0⟩ with
  | .ok (.object members, cursor) => if cursor.skipSpace.rest.isEmpty then some members else none
  | _ => none

/-- Whether a document compiles, and a check of its declarations, its signatures and its functions
succeeds. -/
def compilesTo (id : String) (chars : List Char)
    (check : List (String × Json) → SignatureTable → Compilation → Bool) : Bool :=
  (Json.members? chars).any fun members =>
    let index : LineIndex := ⟨(chars.foldl LineScan.step LineScan.start).finish⟩
    let compiler := ({} : Compiler).registerDocument ⟨id, index⟩ (.object members)
    let entries := compiler.units.flatMap Compiler.RegisteredUnit.entries
    compiler.complete.toOption.any (check entries compiler.signatures)

theorem exists_of_compilesTo (unit : SourceUnit) {chars : List Char}
    (check : List (String × Json) → SignatureTable → Compilation → Bool)
    (hchars : unit = ⟨unit.id, String.ofList chars⟩)
    (h : compilesTo unit.id chars check = true) :
    ∃ compilation entries, compileUnits [unit] = .ok compilation ∧
      (∀ space declaration, (space, declaration) ∈ entries ↔ Declared [unit] space declaration) ∧
      check entries (programSignatures [unit]) compilation = true := by
  obtain ⟨id, text⟩ := unit
  cases (SourceUnit.mk.inj hchars).2
  obtain ⟨members, hmembers, hcheck⟩ := (Option.any_eq_true _ _).1 h
  obtain ⟨compilation, hcompile, hcheck⟩ := (Option.any_eq_true _ _).1 hcheck
  have hparse : Json.parse (String.ofList chars) = .ok (.object members) := by
    unfold Json.members? at hmembers
    split at hmembers
    next members' cursor hread =>
      split at hmembers
      next hend =>
        cases hmembers
        rw [Json.parse, Json.Cursor.start, String.length_ofList, String.toList_ofList, hread]
        simp only [bind, Except.bind, hend, if_true]
      next => cases hmembers
    next => cases hmembers
  have hregistered : [⟨id, String.ofList chars⟩].foldl Compiler.registerUnit {} =
      ({} : Compiler).registerDocument
        ⟨id, ⟨(chars.foldl LineScan.step LineScan.start).finish⟩⟩ (.object members) := by
    rw [List.foldl_cons, List.foldl_nil, Compiler.registerUnit, hparse]
    simp only [LineIndex.build, String.toList_ofList]
  obtain ⟨-, hentries⟩ := Compiler.registered_units [⟨id, String.ofList chars⟩]
  rw [hregistered] at hentries
  rw [compileUnits, programSignatures, hregistered]
  refine ⟨compilation, _, ?_, hentries, hcheck⟩
  revert hcompile
  cases Compiler.complete _ with
  | error diagnostics => exact nofun
  | ok compiled => exact fun h => congrArg Except.ok (Option.some.inj h)

end DocScript
