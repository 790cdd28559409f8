import Mathlib.Data.List.Forall2
import DocScript.Compile.Compiler

/-! # Steps of the passes

What reading a parameter or a signature can come to, and what a pass can make of a unit or of a
declaration. Whatever the passes keep is shown case by case from here.
-/

namespace DocScript

/-- A diagnostic about a value of the unit of a site. -/
def Diagnostic.At (site : SourceSite) (diagnostic : Diagnostic) : Prop :=
  ∃ severity path error, diagnostic = site.diagnose severity path error

/-- The name of a declaration inside its namespace. -/
def declaredName? (declaration : Json) : Option String :=
  (declaration.get? "name").bind Json.string?

/-- The list that a declaration holds under a key; it may leave the key out, but may not hold
anything else there. -/
def listed? (declaration : Json) (key : String) : Option (List Json) :=
  match declaration.get? key with
  | none => some []
  | some (.array items) => some items
  | some _ => none

theorem listed?_of_none {declaration : Json} {key : String} (h : declaration.get? key = none) :
    listed? declaration key = some [] := by
  rw [listed?, h]

theorem listed?_of_array {declaration : Json} {key : String} {items : List Json}
    (h : declaration.get? key = some (.array items)) : listed? declaration key = some items := by
  rw [listed?, h]

/-- The parameter is read from the item of a list. -/
structure Parameter.ReadFrom (param : Parameter) (item : Json) : Prop where
  type : paramType item = .ok param.type
  default : paramDefault item = .ok param.default

/-- The signature is the one that a declaration states in a namespace. -/
structure Signature.StatedBy (signature : Signature) (space : String) (declaration : Json) :
    Prop where
  allowed : space ≠ nativeNamespace
  named : ∃ name, declaredName? declaration = some name ∧ signature.name = space ++ "." ++ name
  read : ∃ items, listed? declaration "params" = some items ∧
    List.Forall₂ Parameter.ReadFrom signature.params items
  distinct : (signature.params.map Parameter.name).Nodup

/-- Each parameter is read from an item of its own. -/
theorem Signature.StatedBy.items {signature : Signature} {space : String} {declaration : Json}
    (h : signature.StatedBy space declaration) :
    ∃ items, listed? declaration "params" = some items ∧
      signature.params.length = items.length ∧
      ∀ param ∈ signature.params, ∃ item ∈ items, param.ReadFrom item := by
  obtain ⟨items, hitems, hread⟩ := h.read
  refine ⟨items, hitems, hread.length_eq, fun param hmem => ?_⟩
  obtain ⟨position, hposition, rfl⟩ := List.getElem_of_mem hmem
  have hlisted : position < items.length := hread.length_eq ▸ hposition
  exact ⟨_, List.getElem_mem hlisted, hread.get hposition hlisted⟩

/-! ### Reading a declaration -/

/-- Names that are different stay so when a new one is added to them. -/
theorem nodup_append_fresh {names : List String} {name : String} (hdistinct : names.Nodup)
    (hfresh : name ∉ names) : (names ++ [name]).Nodup := by
  rw [List.nodup_append]
  refine ⟨hdistinct, by simp, fun a ha b hb => ?_⟩
  rw [List.mem_singleton] at hb
  rintro rfl
  exact hfresh (hb ▸ ha)

/-- What reading a parameter behind the `earlier` ones can come to. -/
inductive ParamReading (site : SourceSite) (earlier : List Parameter) (item : Json) :
    Option Parameter × List Diagnostic → Prop where
  | refused (path : SourcePath) (error : CompileError) :
      ParamReading site earlier item (none, [site.error path error])
  | accepted {param : Parameter} {warnings : List Diagnostic} (hread : param.ReadFrom item)
      (hfresh : param.name ∉ earlier.map Parameter.name)
      (hat : ∀ diagnostic ∈ warnings, diagnostic.At site) :
      ParamReading site earlier item (some param, warnings)

/-- What reading a list of parameters behind the `earlier` ones can come to. -/
inductive ParamsReading (site : SourceSite) (earlier : List Parameter) (ok : Bool)
    (items : List Json) : Option (List Parameter) × List Diagnostic → Prop where
  | refused {diagnostics : List Diagnostic}
      (hreported : ok = true → diagnostics.any Diagnostic.isError = true)
      (hat : ∀ diagnostic ∈ diagnostics, diagnostic.At site) :
      ParamsReading site earlier ok items (none, diagnostics)
  | accepted {params : List Parameter} {diagnostics : List Diagnostic} (hok : ok = true)
      (hread : List.Forall₂ Parameter.ReadFrom params items)
      (hdistinct : (earlier.map Parameter.name).Nodup →
        ((earlier ++ params).map Parameter.name).Nodup)
      (hat : ∀ diagnostic ∈ diagnostics, diagnostic.At site) :
      ParamsReading site earlier ok items (some (earlier ++ params), diagnostics)

/-- What reading a signature can come to. -/
inductive SignatureReading (site : SourceSite) (space : String) (declaration : Json) :
    Option Signature × List Diagnostic → Prop where
  | refused {diagnostics : List Diagnostic}
      (hreported : diagnostics.any Diagnostic.isError = true)
      (hat : ∀ diagnostic ∈ diagnostics, diagnostic.At site) :
      SignatureReading site space declaration (none, diagnostics)
  | stated {signature : Signature} {diagnostics : List Diagnostic}
      (hstated : signature.StatedBy space declaration)
      (hat : ∀ diagnostic ∈ diagnostics, diagnostic.At site) :
      SignatureReading site space declaration (some signature, diagnostics)

section Reading

variable (site : SourceSite) (path : SourcePath) {diagnostic : Diagnostic}

theorem Diagnostic.at_error (error : CompileError) : (site.error path error).At site :=
  ⟨_, _, _, rfl⟩

variable {site path}

theorem Diagnostic.at_of_mem_error {error : CompileError}
    (hmem : diagnostic ∈ [site.error path error]) : diagnostic.At site :=
  List.mem_singleton.1 hmem ▸ at_error site path error

open Diagnostic

theorem readParam_reads (function : String) (earlier : List Parameter) (item : Json) :
    ParamReading site earlier item (readParam site function path earlier item) := by
  unfold readParam
  split
  next => exact .refused _ _
  next =>
    dsimp only
    split
    next => exact .refused _ _
    next =>
      split
      next => exact .refused _ _
      next hfresh =>
        split
        next => exact .refused _ _
        next => exact .refused _ _
        next htype hdefault =>
          refine .accepted ⟨htype, hdefault⟩ (by simpa using hfresh) fun diagnostic hmem => ?_
          split at hmem
          next => exact ⟨_, _, _, List.mem_singleton.1 hmem⟩
          next => cases hmem

theorem readParams_reads (function : String) (items : List Json) (position : Nat)
    (earlier : List Parameter) (ok : Bool) :
    ParamsReading site earlier ok items
      (readParams site function path items position earlier ok) := by
  induction items generalizing position earlier ok with
  | nil =>
      cases ok with
      | false => exact .refused nofun nofun
      | true =>
          have h : ParamsReading site earlier true [] (some (earlier ++ []), []) :=
            .accepted rfl .nil (by rw [List.append_nil]; exact id) nofun
          rwa [List.append_nil] at h
  | cons item rest ih =>
      have hparam : ParamReading site earlier item
          (readParam site function (path.element position) earlier item) :=
        readParam_reads function earlier item
      rw [readParams]
      generalize readParam site function (path.element position) earlier item = reading at hparam ⊢
      cases hparam with
      | refused place error =>
          dsimp only
          have hrest := ih (position + 1) earlier false
          generalize readParams site function path rest _ earlier false = others at hrest ⊢
          cases hrest with
          | refused _ hat =>
              exact .refused (fun _ => rfl) (List.forall_mem_cons.2 ⟨at_error _ _ _, hat⟩)
          | accepted hok => cases hok
      | @accepted param warnings hread hfresh hwarnings =>
          dsimp only
          have hrest := ih (position + 1) (earlier ++ [param]) ok
          generalize readParams site function path rest _ _ ok = others at hrest ⊢
          cases hrest with
          | refused hreported hat =>
              refine .refused (fun hok => ?_) (List.forall_mem_append.2 ⟨hwarnings, hat⟩)
              rw [List.any_append, hreported hok, Bool.or_true]
          | accepted hok hothers hdistinct hat =>
              rw [List.append_assoc] at hdistinct ⊢
              refine .accepted hok (.cons hread hothers) (fun hbefore => hdistinct ?_)
                (List.forall_mem_append.2 ⟨hwarnings, hat⟩)
              rw [List.map_append]
              exact nodup_append_fresh hbefore hfresh

/-- A declaration lists its parameters, or has something else in their place. -/
theorem declaredParams_reads (function : String) (declaration : Json) :
    (∃ items, listed? declaration "params" = some items ∧
      ParamsReading site [] true items (declaredParams site function path declaration)) ∨
    ∃ error, declaredParams site function path declaration =
      (none, [site.error (path.member "params") error]) := by
  unfold declaredParams
  dsimp only
  split
  next hnone => exact .inl ⟨[], listed?_of_none hnone, .accepted rfl .nil id nofun⟩
  next items hitems => exact .inl ⟨items, listed?_of_array hitems, readParams_reads ..⟩
  next => exact .inr ⟨_, rfl⟩

theorem at_of_mem_entryDiagnostics {signature : Signature}
    (hmem : diagnostic ∈ entryDiagnostics site path signature) : diagnostic.At site := by
  unfold entryDiagnostics at hmem
  rcases List.mem_append.1 hmem with hresult | hparams
  · split at hresult
    next => exact at_of_mem_error hresult
    next => cases hresult
  · split at hparams
    next => cases hparams
    next =>
      split at hparams
      next => cases hparams
      next => exact at_of_mem_error hparams
    next => exact at_of_mem_error hparams

theorem readSignature_reads (space : String) (declaration : Json) :
    SignatureReading site space declaration (readSignature site space path declaration) := by
  have hrefuse (place : SourcePath) (error : CompileError) :
      SignatureReading site space declaration (none, [site.error place error]) :=
    .refused rfl fun _ => at_of_mem_error
  unfold readSignature
  split
  next => exact hrefuse _ _
  next => exact hrefuse _ _
  next name hobject hname =>
    dsimp only
    split
    next => exact hrefuse _ _
    next hspace =>
      split
      next => exact hrefuse _ _
      next returns hreturns =>
        rcases @declaredParams_reads site path (space ++ "." ++ name) declaration
          with ⟨items, hitems, hparams⟩ | ⟨error, heq⟩
        · generalize declaredParams site _ path declaration = reading at hparams ⊢
          cases hparams with
          | refused hreported hat => exact .refused (hreported rfl) hat
          | @accepted params _ _ hread hdistinct hat =>
              refine .stated ⟨hspace, ⟨name, hname, rfl⟩, ⟨items, hitems, hread⟩,
                hdistinct List.nodup_nil⟩ (List.forall_mem_append.2 ⟨hat, fun diagnostic hmem => ?_⟩)
              split at hmem
              next => exact at_of_mem_entryDiagnostics hmem
              next => cases hmem
        · rw [heq]
          exact hrefuse _ _

theorem readSignature_stated {space : String} {declaration : Json} {signature : Signature}
    (h : (readSignature site space path declaration).1 = some signature) :
    signature.StatedBy space declaration := by
  have hread : SignatureReading site space declaration
      (readSignature site space path declaration) := readSignature_reads space declaration
  generalize readSignature site space path declaration = reading at hread h
  cases hread with
  | refused => cases h
  | stated hstated => exact Option.some.inj h ▸ hstated

/-- A declaration without a signature has something wrong with it. -/
theorem readSignature_reported {space : String} {declaration : Json}
    (h : (readSignature site space path declaration).1 = none) :
    (readSignature site space path declaration).2.any Diagnostic.isError = true := by
  have hread : SignatureReading site space declaration
      (readSignature site space path declaration) := readSignature_reads space declaration
  generalize readSignature site space path declaration = reading at hread h ⊢
  cases hread with
  | refused hreported => exact hreported
  | stated => cases h

theorem at_of_mem_readSignature {space : String} {declaration : Json}
    (hmem : diagnostic ∈ (readSignature site space path declaration).2) : diagnostic.At site := by
  have hread : SignatureReading site space declaration
      (readSignature site space path declaration) := readSignature_reads space declaration
  generalize readSignature site space path declaration = reading at hread hmem
  cases hread with
  | refused _ hat => exact hat _ hmem
  | stated _ hat => exact hat _ hmem

end Reading

/-! ### Registering -/

/-- The namespace and the declarations of a unit, if its text is a document with both. -/
def SourceUnit.document? (unit : SourceUnit) : Option (String × List Json) :=
  match Json.parse unit.text with
  | .ok (.object members) => (readDocument (.object members)).toOption
  | _ => none

/-- A unit declares a function: the declaration stands in its document. -/
def SourceUnit.Declares (unit : SourceUnit) (space : String) (declaration : Json) : Prop :=
  ∃ members declarations, Json.parse unit.text = .ok (.object members) ∧
    readDocument (.object members) = .ok (space, declarations) ∧ declaration ∈ declarations

theorem SourceUnit.document?_eq_some_iff {unit : SourceUnit} {space : String}
    {declarations : List Json} : unit.document? = some (space, declarations) ↔
      ∃ members, Json.parse unit.text = .ok (.object members) ∧
        readDocument (.object members) = .ok (space, declarations) := by
  unfold document?
  split
  next members hparse =>
    cases hread : readDocument (.object members) <;> simp [hparse, hread, Except.toOption]
  next hother =>
    simp only [reduceCtorEq, false_iff]
    rintro ⟨members, hparse, -⟩
    exact hother members hparse

theorem SourceUnit.declares_iff {unit : SourceUnit} {space : String} {declaration : Json} :
    unit.Declares space declaration ↔
      ∃ declarations, unit.document? = some (space, declarations) ∧
        declaration ∈ declarations := by
  simp only [Declares, document?_eq_some_iff]
  constructor
  · rintro ⟨members, declarations, hparse, hread, hmem⟩
    exact ⟨declarations, ⟨members, hparse, hread⟩, hmem⟩
  · rintro ⟨declarations, ⟨members, hparse, hread⟩, hmem⟩
    exact ⟨members, declarations, hparse, hread, hmem⟩

namespace Compiler

/-- Reporting touches the diagnostics only. -/
theorem foldl_report (compiler : Compiler) (diagnostics : List Diagnostic) :
    diagnostics.foldl report compiler = { compiler with
      diagnostics := diagnostics.foldl DiagnosticBag.push compiler.diagnostics } := by
  induction diagnostics generalizing compiler with
  | nil => rfl
  | cons diagnostic rest ih => exact ih _

/-- What registering a declaration can come to. -/
inductive Registration (compiler : Compiler) (site : SourceSite) (space : String)
    (path : SourcePath) (declaration : Json) : Compiler → Prop where
  | refused {diagnostics : List Diagnostic}
      (hread : readSignature site space path declaration = (none, diagnostics)) :
      Registration compiler site space path declaration (diagnostics.foldl report compiler)
  | repeated {signature : Signature} {diagnostics : List Diagnostic}
      (hread : readSignature site space path declaration = (some signature, diagnostics))
      (htaken : compiler.signatures.contains signature.name = true) (error : CompileError) :
      Registration compiler site space path declaration
        ((diagnostics.foldl report compiler).report (site.error (path.member "name") error))
  | added {signature : Signature} {diagnostics : List Diagnostic}
      (hread : readSignature site space path declaration = (some signature, diagnostics))
      (hfree : compiler.signatures.contains signature.name = false)
      (origins : List (String × String)) :
      Registration compiler site space path declaration
        { diagnostics.foldl report compiler with
          signatures := ⟨signature :: compiler.signatures.signatures⟩, origins }

theorem registerDeclaration_registration (compiler : Compiler) (site : SourceSite) (space : String)
    (path : SourcePath) (declaration : Json) :
    Registration compiler site space path declaration
      (compiler.registerDeclaration site space path declaration) := by
  unfold registerDeclaration
  cases hread : readSignature site space path declaration with
  | mk signature diagnostics =>
      cases signature with
      | none => exact .refused hread
      | some signature =>
          have hsame : (diagnostics.foldl report compiler).signatures = compiler.signatures := by
            rw [foldl_report]
          dsimp only
          rw [hsame, SignatureTable.register]
          cases htaken : compiler.signatures.contains signature.name with
          | true => exact .repeated hread htaken _
          | false => exact .added hread htaken _

theorem registerDeclarations_keeps (site : SourceSite) (space : String) (declarations : List Json)
    (position : Nat) (compiler : Compiler) :
    (registerDeclarations site space declarations position compiler).units = compiler.units ∧
      (registerDeclarations site space declarations position compiler).functions =
        compiler.functions := by
  induction declarations generalizing position compiler with
  | nil => exact ⟨rfl, rfl⟩
  | cons declaration rest ih =>
      have hregistered := compiler.registerDeclaration_registration site space
        (declarationPath position) declaration
      rw [registerDeclarations, (ih _ _).1, (ih _ _).2]
      generalize compiler.registerDeclaration site space _ declaration = after at hregistered ⊢
      cases hregistered <;> simp only [foldl_report, report, and_self]

/-- What registering a unit can come to. -/
inductive UnitRegistration (compiler : Compiler) (unit : SourceUnit) : Compiler → Prop where
  | refused {diagnostic : Diagnostic} (hnone : unit.document? = none)
      (herror : diagnostic.isError = true)
      (hplace : (∃ json, Json.parse unit.text = .ok json) →
        diagnostic.At ⟨unit.id, LineIndex.build unit.text⟩ ∨
          diagnostic.unit = unit.id ∧ diagnostic.line = 1) :
      UnitRegistration compiler unit (compiler.report diagnostic)
  | kept {space : String} {declarations : List Json}
      (hdocument : unit.document? = some (space, declarations)) :
      UnitRegistration compiler unit
        { registerDeclarations ⟨unit.id, LineIndex.build unit.text⟩ space declarations 0 compiler
          with units := compiler.units ++
            [⟨⟨unit.id, LineIndex.build unit.text⟩, space, declarations⟩] }

theorem registerUnit_registration (compiler : Compiler) (unit : SourceUnit) :
    UnitRegistration compiler unit (compiler.registerUnit unit) := by
  unfold registerUnit
  split
  next hparse =>
    refine .refused (by rw [SourceUnit.document?, hparse]) rfl ?_
    rintro ⟨json, hjson⟩
    cases hparse.symm.trans hjson
  next members hparse =>
    unfold registerDocument
    cases hread : readDocument (.object members) with
    | error found =>
        refine .refused ?_ rfl fun _ => .inl (Diagnostic.at_error _ _ _)
        simp only [SourceUnit.document?, hparse, hread, Except.toOption]
    | ok document =>
        obtain ⟨space, declarations⟩ := document
        dsimp only
        rw [(registerDeclarations_keeps ..).1]
        exact .kept (SourceUnit.document?_eq_some_iff.2 ⟨members, hparse, hread⟩)
  next hother hparse =>
    refine .refused ?_ rfl fun _ => .inr ⟨rfl, rfl⟩
    unfold SourceUnit.document?
    split
    next hobject => exact absurd (Except.ok.inj (hparse.symm.trans hobject)) (hother _)
    next => rfl

/-! ### Compiling -/

/-- What compiling a declaration can come to. -/
inductive Compiling (compiler : Compiler) (unit : RegisteredUnit) (path : SourcePath)
    (declaration : Json) : Compiler → Prop where
  | passed (hunknown : ∀ name, declaredName? declaration = some name →
        compiler.functions.contains (unit.space ++ "." ++ name) = false ∧
          compiler.signatures.get? (unit.space ++ "." ++ name) = none) :
      Compiling compiler unit path declaration compiler
  | repeated {name : String} (hname : declaredName? declaration = some name)
      (htaken : compiler.functions.contains (unit.space ++ "." ++ name) = true)
      (error : CompileError) :
      Compiling compiler unit path declaration (compiler.report (unit.site.error path error))
  | exceeded {name : String} {signature : Signature} {state : Lowering}
      (hname : declaredName? declaration = some name)
      (hfresh : compiler.functions.contains (unit.space ++ "." ++ name) = false)
      (hknown : compiler.signatures.get? (unit.space ++ "." ++ name) = some signature)
      (hstate : state = lowerFunction ⟨compiler.signatures, unit.site⟩ path declaration
        ⟨startFunction unit.space signature, compiler.diagnostics⟩)
      (hover : state.builder.overflow ≠ none) (error : CompileError) :
      Compiling compiler unit path declaration
        { compiler with
          diagnostics := state.diagnostics.push (unit.site.error path error)
          functions := compiler.functions.insert state.builder.finish }
  | lowered {name : String} {signature : Signature} {state : Lowering}
      (hname : declaredName? declaration = some name)
      (hfresh : compiler.functions.contains (unit.space ++ "." ++ name) = false)
      (hknown : compiler.signatures.get? (unit.space ++ "." ++ name) = some signature)
      (hstate : state = lowerFunction ⟨compiler.signatures, unit.site⟩ path declaration
        ⟨startFunction unit.space signature, compiler.diagnostics⟩)
      (hlimits : state.builder.overflow = none) :
      Compiling compiler unit path declaration
        { compiler with
          diagnostics := state.diagnostics
          functions := compiler.functions.insert state.builder.finish }

theorem compileDeclaration_compiling (compiler : Compiler) (unit : RegisteredUnit)
    (path : SourcePath) (declaration : Json) :
    Compiling compiler unit path declaration
      (compiler.compileDeclaration unit path declaration) := by
  unfold compileDeclaration
  cases hname : (declaration.get? "name").bind Json.string? with
  | none =>
      refine .passed fun name hdeclared => ?_
      rw [declaredName?, hname] at hdeclared
      cases hdeclared
  | some name =>
      dsimp only
      cases htaken : compiler.functions.contains (unit.space ++ "." ++ name) with
      | true => exact .repeated hname htaken _
      | false =>
          simp only [Bool.false_eq_true, if_false]
          cases hknown : compiler.signatures.get? (unit.space ++ "." ++ name) with
          | none =>
              refine .passed fun other hdeclared => ?_
              obtain rfl := Option.some.inj (hname.symm.trans hdeclared)
              exact ⟨htaken, hknown⟩
          | some signature =>
              dsimp only [FunctionBuilder.takeOverflow]
              split
              next hlimits => exact .lowered hname htaken hknown rfl hlimits
              next hover => exact .exceeded hname htaken hknown rfl (hover ▸ nofun) _

end Compiler

end DocScript
