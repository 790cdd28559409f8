import DocScript.Proofs.Compile.Resolution

/-! # The declared program

Both passes pass over what they cannot make sense of: a declaration without a name or a signature, a
parameter, a local. Each time they report an error, and no report is ever taken back. So a
compilation that succeeds has passed over nothing: it has made one function of each declaration,
with a slot for each parameter and each local that is listed there.
-/

namespace DocScript

open Lowering LoweringScope

/-! ### The passes -/

/-- What is known after the first pass over the units. -/
def firstPass (units : List SourceUnit) : Compiler := units.foldl Compiler.registerUnit {}

/-- What is known after the second pass. -/
def secondPass (units : List SourceUnit) : Compiler := (firstPass units).compileRegistered

/-- One of the diagnostics is an error. -/
def Diagnostic.AnyError (diagnostics : List Diagnostic) : Prop :=
  ∃ diagnostic ∈ diagnostics, diagnostic.severity = .error

theorem DiagnosticBag.hasErrors_iff (bag : DiagnosticBag) :
    bag.hasErrors = true ↔ Diagnostic.AnyError bag.toList := by
  simp [hasErrors, Diagnostic.AnyError, toList, Diagnostic.isError]

theorem DiagnosticBag.clean_iff (bag : DiagnosticBag) :
    bag.hasErrors = false ↔ ¬ Diagnostic.AnyError bag.toList := by
  rw [← hasErrors_iff, Bool.not_eq_true]

theorem Diagnostic.anyError_append (first second : List Diagnostic) :
    AnyError (first ++ second) ↔ AnyError first ∨ AnyError second := by
  simp [AnyError, or_and_right, exists_or]

/-- An error stays an error when more is reported. -/
theorem DiagnosticBag.clean_of_suffix {bag after : DiagnosticBag}
    (hsuffix : bag.reversed <:+ after.reversed) (hclean : after.hasErrors = false) :
    bag.hasErrors = false := by
  rw [hasErrors, List.any_eq_false] at hclean ⊢
  exact fun diagnostic hmem => hclean diagnostic (hsuffix.subset hmem)

namespace Lowering

/-- What was reported up to a state is still there behind it. -/
theorem alike_behind (scope other : LoweringScope) (state : Lowering) :
    state.Alike (.behind scope other state.diagnostics) state :=
  ⟨rfl, List.suffix_rfl⟩

theorem suffix_lowerFunction (scope : LoweringScope) (path : SourcePath) (declaration : Json)
    (state : Lowering) :
    state.diagnostics.reversed <:+
      (Compiler.lowerFunction scope path declaration state).diagnostics.reversed := by
  have hsame : scope.signatures.Agrees scope.signatures := fun _ => rfl
  exact (Compiler.lowerFunction_alike hsame declaration path path
    (state.alike_behind scope scope)).reports

end Lowering

namespace Compiler

/-- A declaration adds to what was reported. -/
theorem suffix_compileDeclaration (compiler : Compiler) (unit : RegisteredUnit) (path : SourcePath)
    (declaration : Json) :
    compiler.diagnostics.reversed <:+
      (compiler.compileDeclaration unit path declaration).diagnostics.reversed := by
  have hlowered (signature : Signature) :=
    suffix_lowerFunction ⟨compiler.signatures, unit.site⟩ path declaration
      ⟨startFunction unit.space signature, compiler.diagnostics⟩
  have hcompiling := compiler.compileDeclaration_compiling unit path declaration
  generalize compiler.compileDeclaration unit path declaration = after at hcompiling ⊢
  cases hcompiling with
  | passed => exact List.suffix_rfl
  | repeated => exact List.suffix_cons _ _
  | exceeded _ _ _ hstate => exact (hstate ▸ hlowered _).trans (List.suffix_cons _ _)
  | lowered _ _ _ hstate => exact hstate ▸ hlowered _

theorem suffix_compileRegistered (compiler : Compiler) :
    compiler.diagnostics.reversed <:+ compiler.compileRegistered.diagnostics.reversed := by
  obtain ⟨tasks, -, heq⟩ := compileRegistered_eq compiler
  rw [heq]
  clear heq
  induction tasks generalizing compiler with
  | nil => exact List.suffix_rfl
  | cons task rest ih => exact (suffix_compileDeclaration compiler ..).trans (ih _)

/-- The second pass reports what it finds behind what the first has reported. -/
theorem reported_compileRegistered (compiler : Compiler) : ∃ reported,
    compiler.compileRegistered.diagnostics.toList = compiler.diagnostics.toList ++ reported := by
  obtain ⟨reported, hreported⟩ := suffix_compileRegistered compiler
  exact ⟨reported.reverse, by rw [DiagnosticBag.toList, ← hreported, List.reverse_append]; rfl⟩

end Compiler

/-- A compilation ends behind the first pass that has reported an error. -/
theorem compileUnits_eq (units : List SourceUnit) : compileUnits units =
    if (firstPass units).diagnostics.hasErrors then .error (firstPass units).diagnostics
    else if (secondPass units).diagnostics.hasErrors then .error (secondPass units).diagnostics
    else .ok ⟨(secondPass units).functions, (secondPass units).diagnostics⟩ := by
  rw [compileUnits, Compiler.complete_eq, Compiler.finish_eq]
  rfl

theorem compileUnits_ok (units : List SourceUnit) :
    (∃ compilation, compileUnits units = .ok compilation) ↔
      (firstPass units).diagnostics.hasErrors = false ∧
        (secondPass units).diagnostics.hasErrors = false := by
  rw [compileUnits_eq]
  cases (firstPass units).diagnostics.hasErrors with
  | true => simp
  | false => cases (secondPass units).diagnostics.hasErrors <;> simp

/-- The declarations say the same but for their locals and their bodies. -/
structure SameHead (declaration other : Json) : Prop where
  object : declaration.object?.isSome = other.object?.isSome
  members : ∀ key, key ≠ "locals" → key ≠ "body" → declaration.get? key = other.get? key

/-- The first pass reads neither locals nor bodies. -/
theorem SameHead.registerDeclaration {declaration other : Json} (h : SameHead declaration other)
    (compiler : Compiler) (site : SourceSite) (space : String) (path : SourcePath) :
    compiler.registerDeclaration site space path declaration =
      compiler.registerDeclaration site space path other := by
  have hname := h.members "name" (by decide) (by decide)
  have htype := h.members "type" (by decide) (by decide)
  have hparams := h.members "params" (by decide) (by decide)
  have hread : readSignature site space path declaration = readSignature site space path other := by
    have hobject := h.object
    unfold readSignature resultType declaredParams
    rw [hname, htype, hparams]
    generalize declaration.object? = members at hobject ⊢
    generalize other.object? = others at hobject ⊢
    match members, others, hobject with
    | none, none, _ => rfl
    | some _, some _, _ => cases (other.get? "name").bind Json.string? <;> rfl
  rw [Compiler.registerDeclaration, Compiler.registerDeclaration, hread]

/-! ### Locals -/

namespace Compiler

variable {scope : LoweringScope} {path : SourcePath} {state : Lowering}

theorem suffix_declareLocals (items : List Json) (position : Nat) (state : Lowering) :
    state.diagnostics.reversed <:+
      (declareLocals scope path items position state).diagnostics.reversed := by
  have hlocals : (declareLocals scope path items position state).Alike
      (.behind scope scope state.diagnostics) (declareLocals scope path items position state) :=
    declareLocals_alike (state.alike_behind scope scope)
  exact hlocals.reports

/-- A local that makes no sense is reported. -/
theorem declaredLocal?_of_clean {item : Json}
    (hclean : (declareLocal scope path item state).diagnostics.hasErrors = false) :
    (declaredLocal? item).isSome := by
  have hdeclaring := declareLocal_declaring scope path item state
  generalize declareLocal scope path item state = after at hdeclaring hclean
  cases hdeclaring with
  | refused => exact absurd hclean (not_clean_error _ _ _ _)
  | declared hlocal => rw [hlocal, Option.isSome_some]

theorem declaredLocals_of_clean {items : List Json} {position : Nat}
    (hclean : (declareLocals scope path items position state).diagnostics.hasErrors = false) :
    ∀ item ∈ items, (declaredLocal? item).isSome := by
  induction items generalizing position state with
  | nil => exact List.forall_mem_nil _
  | cons item rest ih =>
      refine List.forall_mem_cons.2 ⟨?_, ih hclean⟩
      exact declaredLocal?_of_clean
        (DiagnosticBag.clean_of_suffix (suffix_declareLocals rest (position + 1) _) hclean)

theorem suffix_openLocals (declaration : Json) (state : Lowering) :
    (openLocals scope path declaration state).diagnostics.reversed <:+
      (lowerFunction scope path declaration state).diagnostics.reversed := by
  have hsame : scope.signatures.Agrees scope.signatures := fun _ => rfl
  have hopened := (openLocals scope path declaration state).alike_behind scope scope
  unfold lowerFunction
  cases (declaration.get? "body").bind Json.array? with
  | none => exact List.suffix_cons _ _
  | some stmts =>
      exact (lowerBlock_alike hsame _ (path.member "body") (path.member "body") 0 hopened).reports

/-- A function that is lowered without an error has declared each local that is listed. -/
theorem length_declaredLocals {declaration : Json}
    (hclean : (lowerFunction scope path declaration state).diagnostics.hasErrors = false) :
    ∃ locals, listed? declaration "locals" = some locals ∧
      (declaredLocals declaration).length = locals.length := by
  have hopened := DiagnosticBag.clean_of_suffix (suffix_openLocals declaration state) hclean
  unfold openLocals at hopened
  split at hopened
  next hnone => exact ⟨[], listed?_of_none hnone, by simp [declaredLocals, hnone]⟩
  next items hitems =>
    refine ⟨items, listed?_of_array hitems, ?_⟩
    simp only [declaredLocals, hitems]
    exact List.filterMap_length_eq_length.2 (declaredLocals_of_clean hopened)
  next => exact absurd hopened (not_clean_error _ _ _ _)

end Compiler

/-! ### Functions of declarations -/

/-- The function goes by the name that the declaration states, and has a slot for each parameter and
each local that is listed there. -/
structure CompiledFunction.Fills (function : CompiledFunction Constant) (entry : String × Json) :
    Prop where
  object : ∃ members, entry.2 = .object members
  name : statedName? entry = some function.name
  slots : ∃ params locals, listed? entry.2 "params" = some params ∧
    listed? entry.2 "locals" = some locals ∧ function.paramCount = params.length ∧
    function.localCount = params.length + locals.length

theorem statedName?_object {entry : String × Json} {name : String}
    (h : statedName? entry = some name) : ∃ members, entry.2 = .object members := by
  obtain ⟨space, declaration⟩ := entry
  cases declaration with
  | object members => exact ⟨members, rfl⟩
  | _ => cases h

theorem statedName?_of_stated {entry : String × Json} {signature : Signature}
    (h : statedSignature? entry.1 entry.2 = some signature) :
    statedName? entry = some signature.name := by
  obtain ⟨name, hname, hfull⟩ := (statedBy_of_stated h).named
  rw [statedName?, hname, hfull]
  rfl

theorem fills_of_compiledFunction? {signatures : SignatureTable} {entry : String × Json}
    {signature : Signature} {function : CompiledFunction Constant} (hsound : signatures.Sound)
    (hstated : statedSignature? entry.1 entry.2 = some signature)
    (hknown : signatures.get? signature.name = some signature)
    (hcompiled : compiledFunction? signatures entry.1 entry.2 = some function) :
    function.Fills entry := by
  have hname := Compiler.name_of_compiledFunction? hsound hstated hknown hcompiled
  have hnamed := statedName?_of_stated hstated
  obtain ⟨name, hdeclared, hfull⟩ := (statedBy_of_stated hstated).named
  obtain ⟨params, hparams, hcount, -⟩ := (statedBy_of_stated hstated).items
  simp only [compiledFunction?, hstated, Option.bind_some] at hcompiled
  generalize hstate : Compiler.lowerFunction ⟨signatures, nowhere⟩ .root entry.2
    ⟨Compiler.startFunction entry.1 signature, {}⟩ = state at hcompiled
  split at hcompiled
  next => cases hcompiled
  next hclean =>
    cases hcompiled
    rw [Bool.or_eq_true, not_or, Bool.not_eq_true, Option.not_isSome_iff_eq_none] at hclean
    -- The translation counts the locals that make sense, which are all that are listed.
    obtain ⟨locals, hlocals, hslots⟩ :=
      Compiler.length_declaredLocals (hstate.symm ▸ hclean.1)
    obtain ⟨-, -, ⟨made⟩⟩ := Compiler.translation_of_lowerFunction hsound hdeclared (hfull ▸ hknown)
      hstate.symm ⟨hclean.1, hclean.2⟩
    have hsame := made.known
    rw [hname, hknown] at hsame
    cases hsame
    refine ⟨statedName?_object hnamed, hname ▸ hnamed, params, locals, hparams, hlocals,
      made.paramCount.trans hcount, ?_⟩
    rw [made.localCount, List.length_append, hslots, Signature.slots, List.length_map, hcount]

/-- The units are documents, every element of their lists of functions states a name of its own, and
the table holds just the functions of these names, each filling its declaration. -/
structure DeclaredProgram (units : List SourceUnit) (table : FunctionTable Constant) : Prop where
  documents : ∀ unit ∈ units, unit.document?.isSome
  names : ∃ names, (programEntries units).map statedName? = names.map some ∧ names.Nodup ∧
    (table.functions.map CompiledFunction.name).Perm names
  filled : ∀ entry ∈ programEntries units, ∃ function, function.Fills entry ∧
    table.get? function.name = some function

theorem map_statedName? {entries : List (String × Json)}
    {compile : String × Json → Option (CompiledFunction Constant)}
    (h : ∀ entry ∈ entries, ∃ function, compile entry = some function ∧ function.Fills entry) :
    entries.map statedName? =
      ((entries.filterMap compile).map CompiledFunction.name).map some := by
  induction entries with
  | nil => rfl
  | cons entry rest ih =>
      obtain ⟨⟨function, hcompiled, hfills⟩, hrest⟩ := List.forall_mem_cons.1 h
      rw [List.filterMap_cons_some hcompiled, List.map_cons, List.map_cons, List.map_cons, ih hrest,
        hfills.name]

/-- Declarations that build a table fill it. -/
theorem Builds.fills {entries : List (String × Json)} {table : FunctionTable Constant}
    (h : Builds entries table) : ∀ entry ∈ entries, ∃ function,
      compiledFunction? (entrySignatures entries) entry.1 entry.2 = some function ∧
        function.Fills entry := by
  intro entry hmem
  obtain ⟨signature, hstated, hknown, -⟩ := h.admits.awaited entry hmem
  obtain ⟨function, hcompiled⟩ := Option.isSome_iff_exists.1 (h.compiled entry hmem)
  exact ⟨function, hcompiled,
    fills_of_compiledFunction? (entrySignatures_sound entries) hstated hknown hcompiled⟩

theorem declaredProgram_of_compileUnits {units : List SourceUnit} {compilation : Compilation}
    (hcompile : compileUnits units = .ok compilation) :
    DeclaredProgram units compilation.functions := by
  obtain ⟨hdocuments, hbuilds⟩ := (compileUnits_ok_iff units _).1 ⟨compilation, hcompile, rfl⟩
  have hperm : compilation.functions.functions.Perm (entryFunctions (programEntries units)) :=
    hbuilds.table ▸ FunctionTable.ofList_perm hbuilds.admits.distinct_functions
  refine ⟨hdocuments, ⟨_, map_statedName? hbuilds.fills, hbuilds.admits.distinct_functions,
    hperm.map _⟩, fun entry hmem => ?_⟩
  obtain ⟨function, hcompiled, hfills⟩ := hbuilds.fills entry hmem
  have hfunction : function ∈ entryFunctions (programEntries units) :=
    List.mem_filterMap.2 ⟨entry, hmem, hcompiled⟩
  exact ⟨function, hfills, FunctionTable.get?_of_mem (hperm.symm.subset hfunction)⟩

/-- The second pass reports behind the first. A compilation succeeds if and only if neither of them
has reported an error, and then its result is the declared program. If the first has, then what it
has reported is all that there is, and that says nothing of locals and bodies. -/
theorem compiles_declared_program (units : List SourceUnit) : ∃ reported,
    (secondPass units).diagnostics.toList = (firstPass units).diagnostics.toList ++ reported ∧
      ((∃ compilation, compileUnits units = .ok compilation) ↔
        ¬ Diagnostic.AnyError (firstPass units).diagnostics.toList ∧
          ¬ Diagnostic.AnyError reported) ∧
      (Diagnostic.AnyError (firstPass units).diagnostics.toList →
        compileUnits units = .error (firstPass units).diagnostics) ∧
      (∀ declaration other, SameHead declaration other →
        ∀ (compiler : Compiler) site space path,
          compiler.registerDeclaration site space path declaration =
            compiler.registerDeclaration site space path other) ∧
      ∀ compilation, compileUnits units = .ok compilation →
        DeclaredProgram units compilation.functions := by
  obtain ⟨reported, hreported⟩ := (firstPass units).reported_compileRegistered
  refine ⟨reported, hreported, ?_, fun hfirst => ?_, fun _ _ hsame => hsame.registerDeclaration,
    fun compilation hcompile => declaredProgram_of_compileUnits hcompile⟩
  · rw [compileUnits_ok, DiagnosticBag.clean_iff, DiagnosticBag.clean_iff, secondPass, hreported,
      Diagnostic.anyError_append, not_or, and_self_left]
  · rw [compileUnits_eq, if_pos ((DiagnosticBag.hasErrors_iff _).2 hfirst)]

end DocScript
