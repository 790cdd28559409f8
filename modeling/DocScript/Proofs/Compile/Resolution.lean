import DocScript.Proofs.Compile.SourceOrder

/-! # What known names stand for

The first pass knows the native functions and those that are declared, and no name is
taken by both. If the program compiles, then there is a compiled function under each
declared name, with the parameters of the signature that its callers were checked
against. Such parameters are read from a list in a declaration, unless they are those of a
native function.
-/

namespace DocScript

/-- A unit of the program declares a function of the full name. -/
def DeclaresName (units : List SourceUnit) (callee : String) : Prop :=
  ∃ space declaration name, Declared units space declaration ∧
    declaredName? declaration = some name ∧ callee = space ++ "." ++ name

/-- The full name that a declaration in a namespace states. -/
def statedName? (entry : String × Json) : Option String :=
  (declaredName? entry.2).map fun name => entry.1 ++ "." ++ name

variable {units : List SourceUnit} {compilation : Compilation} {callee : String}
  {signature : Signature}

theorem declaresName_iff {entries : List (String × Json)}
    (hentries : ∀ space declaration, (space, declaration) ∈ entries ↔
      Declared units space declaration) :
    DeclaresName units callee ↔ ∃ entry ∈ entries, statedName? entry = some callee := by
  constructor
  · rintro ⟨space, declaration, name, hdeclared, hnamed, rfl⟩
    refine ⟨(space, declaration), (hentries _ _).2 hdeclared, ?_⟩
    rw [statedName?, hnamed]
    rfl
  · rintro ⟨⟨space, declaration⟩, hmem, hstated⟩
    obtain ⟨name, hnamed, rfl⟩ := Option.map_eq_some_iff.1 hstated
    exact ⟨space, declaration, name, (hentries _ _).1 hmem, hnamed, rfl⟩

/-- The first pass of a program that compiles has registered what its declarations state. -/
theorem programSignatures_eq (hcompile : compileUnits units = .ok compilation) :
    SignatureTable.natives.Admits (programEntries units) ∧
      programSignatures units = entrySignatures (programEntries units) := by
  obtain ⟨hclean, -⟩ := (Compiler.complete_ok_iff _ _).1 ⟨compilation, hcompile, rfl⟩
  obtain ⟨hfine, hkept⟩ := Compiler.registered_fine_iff units
  have h := Compiler.registered_fine hclean
  exact ⟨(hfine.1 h).2, (hkept h).1⟩

/-- The entries of a program are its declarations. -/
theorem mem_programEntries {entry : String × Json} :
    entry ∈ programEntries units ↔ Declared units entry.1 entry.2 := by
  constructor
  · intro hmem
    obtain ⟨unit, hunit, hentry⟩ := List.mem_flatMap.1 hmem
    refine ⟨unit, hunit, ?_⟩
    unfold SourceUnit.entries SourceUnit.document? at hentry
    cases hparse : Json.parse unit.text with
    | error fault => simp [hparse] at hentry
    | ok json =>
        cases json with
        | object members =>
            cases hread : readDocument (.object members) with
            | error fault => simp [hparse, hread, Except.toOption] at hentry
            | ok document =>
                simp only [hparse, hread, Except.toOption, List.mem_map] at hentry
                obtain ⟨declaration, hdeclaration, rfl⟩ := hentry
                exact ⟨members, document.2, hparse, hread, hdeclaration⟩
        | _ => simp [hparse] at hentry
  · rintro ⟨unit, hunit, members, declarations, hparse, hread, hdeclaration⟩
    refine List.mem_flatMap.2 ⟨unit, hunit, ?_⟩
    unfold SourceUnit.entries SourceUnit.document?
    simp only [hparse, hread, Except.toOption, List.mem_map]
    exact ⟨entry.2, hdeclaration, rfl⟩

/-- No declaration states the name of a native function. -/
theorem SignatureTable.Admits.not_native {entries : List (String × Json)} {entry : String × Json}
    (h : natives.Admits entries) (hmem : entry ∈ entries)
    (hstated : statedSignature? entry.1 entry.2 = some signature) (function : Native) :
    signature.name ≠ (native function).name := by
  have hdistinct := h.distinct
  rw [adding, List.map_append, List.map_reverse, List.nodup_append] at hdistinct
  have hstates : signature.name ∈ ((entries.filterMap fun entry =>
      statedSignature? entry.1 entry.2).map Signature.name).reverse :=
    List.mem_reverse.2 (List.mem_map.2 ⟨signature, List.mem_filterMap.2 ⟨_, hmem, hstated⟩, rfl⟩)
  have hall : function ∈ Native.all := by cases function <;> decide
  exact hdistinct.2.2 _ hstates _
    (List.mem_map.2 ⟨_, List.mem_map.2 ⟨function, hall, rfl⟩, rfl⟩)

/-- A declared name is known in a program that compiles, and is not that of a native function. -/
theorem DeclaresName.known (hcompile : compileUnits units = .ok compilation)
    (h : DeclaresName units callee) :
    (∃ signature, (programSignatures units).get? callee = some signature) ∧
      ∀ native, callee ≠ (SignatureTable.native native).name := by
  obtain ⟨space, declaration, name, hdeclared, hnamed, rfl⟩ := h
  obtain ⟨hadmits, hsignatures⟩ := programSignatures_eq hcompile
  have hmem : (space, declaration) ∈ programEntries units := mem_programEntries.2 hdeclared
  obtain ⟨signature, hstated⟩ := Option.isSome_iff_exists.1 (hadmits.stated _ hmem)
  obtain ⟨other, hother, hfull⟩ := (statedBy_of_stated hstated).named
  cases Option.some.inj (hnamed.symm.trans hother)
  have hstands : signature ∈ (entrySignatures (programEntries units)).signatures :=
    List.mem_append_left _ (List.mem_reverse.2 (List.mem_filterMap.2 ⟨_, hmem, hstated⟩))
  rw [hsignatures, ← hfull]
  exact ⟨⟨signature, SignatureTable.get?_of_mem hadmits.distinct hstands⟩,
    hadmits.not_native hmem hstated⟩

/-- The table has a function under each declared name that is known, and the function takes as
many arguments as the signature says. -/
theorem compiled_of_declaresName (hcompile : compileUnits units = .ok compilation)
    (hdeclares : DeclaresName units callee)
    (hknown : (programSignatures units).get? callee = some signature) :
    ∃ compiled, compilation.functions.get? callee = some compiled ∧
      compiled.paramCount = signature.params.length := by
  obtain ⟨space, declaration, name, hdeclared, hnamed, rfl⟩ := hdeclares
  obtain ⟨declarations, hdeclarations, hcompiles⟩ := compileUnits_compiles hcompile
  have hcontains := hcompiles.complete (space, declaration)
    ((hdeclarations space declaration).2 hdeclared) name hnamed
    (hknown ▸ Option.some_ne_none signature)
  rw [FunctionTable.contains_eq] at hcontains
  obtain ⟨compiled, hcompiled⟩ := Option.isSome_iff_exists.1 hcontains
  obtain ⟨hmem, hsame⟩ := FunctionTable.mem_of_get? hcompiled
  obtain ⟨_, _, -, ⟨made⟩⟩ := translation_of_mem hcompile hmem
  have hsignature := made.known
  rw [hsame, hknown] at hsignature
  cases hsignature
  exact ⟨compiled, hcompiled, made.paramCount⟩

/-- A known name is the name of a native function, or else it is declared. -/
theorem known_cases (hcompile : compileUnits units = .ok compilation)
    (hknown : (programSignatures units).get? callee = some signature) :
    (∃ native, callee = (SignatureTable.native native).name ∧
        signature = SignatureTable.native native) ∨
      (DeclaresName units callee ∧ ∀ native, callee ≠ (SignatureTable.native native).name) := by
  obtain ⟨hadmits, hsignatures⟩ := programSignatures_eq hcompile
  rw [hsignatures] at hknown
  have hname : signature.name = callee := by simpa using List.find?_some hknown
  have hmem := List.mem_of_find?_eq_some hknown
  rw [entrySignatures, SignatureTable.adding, List.mem_append, List.mem_reverse,
    List.mem_filterMap] at hmem
  rcases hmem with ⟨entry, hentry, hstated⟩ | hnative
  · obtain ⟨name, hnamed, hfull⟩ := (statedBy_of_stated hstated).named
    exact .inr ⟨⟨_, _, name, mem_programEntries.1 hentry, hnamed, hname.symm.trans hfull⟩,
      hname ▸ hadmits.not_native hentry hstated⟩
  · obtain ⟨native, -, rfl⟩ := List.mem_map.1 hnative
    exact .inl ⟨native, hname.symm, rfl⟩

/-- A program that compiles has a function for each of its declarations. -/
theorem exists_translation (hcompile : compileUnits units = .ok compilation) {space : String}
    {declaration : Json} (hdeclared : Declared units space declaration) :
    ∃ (compiled : CompiledFunction Constant)
      (_ : Translation (programSignatures units) space declaration compiled),
      compiled ∈ compilation.functions.functions := by
  obtain ⟨hadmits, -⟩ := programSignatures_eq hcompile
  have hentry : (space, declaration) ∈ programEntries units := mem_programEntries.2 hdeclared
  obtain ⟨stated, hstated⟩ := Option.isSome_iff_exists.1 (hadmits.stated _ hentry)
  obtain ⟨name, hname, -⟩ := (statedBy_of_stated hstated).named
  have hdeclares : DeclaresName units (space ++ "." ++ name) :=
    ⟨space, declaration, name, hdeclared, hname, rfl⟩
  obtain ⟨⟨known, hknown⟩, -⟩ := hdeclares.known hcompile
  obtain ⟨compiled, hget, -⟩ := compiled_of_declaresName hcompile hdeclares hknown
  obtain ⟨made⟩ := translation_of_declared hcompile hdeclared hname hget
  exact ⟨compiled, made, (FunctionTable.mem_of_get? hget).1⟩

/-! ### Parameters -/

/-- Where a parameter of a program comes from. -/
inductive Parameter.Source (units : List SourceUnit) : Parameter → Prop where
  | declared {param : Parameter} {space : String} {declaration item : Json} {items : List Json}
      (hdeclared : Declared units space declaration)
      (hitems : listed? declaration "params" = some items) (hitem : item ∈ items)
      (hread : param.ReadFrom item) : Source units param
  | native {function : Native} {name : String} {type : StaticType}
      (hnative : (name, type) ∈ function.params) : Source units ⟨name, type, none⟩

theorem param_source {units : List SourceUnit} {compilation : Compilation} {callee : String}
    {signature : Signature} {param : Parameter} (hcompile : compileUnits units = .ok compilation)
    (hknown : (programSignatures units).get? callee = some signature)
    (hparam : param ∈ signature.params) : param.Source units := by
  rw [(programSignatures_eq hcompile).2] at hknown
  have hmem := List.mem_of_find?_eq_some hknown
  rw [entrySignatures, SignatureTable.adding, List.mem_append, List.mem_reverse,
    List.mem_filterMap] at hmem
  rcases hmem with ⟨entry, hentry, hstated⟩ | hnative
  · obtain ⟨items, hitems, -, hread⟩ := (statedBy_of_stated hstated).items
    obtain ⟨item, hitem, hfrom⟩ := hread param hparam
    exact .declared (mem_programEntries.1 hentry) hitems hitem hfrom
  · obtain ⟨native, -, rfl⟩ := List.mem_map.1 hnative
    obtain ⟨_, hlisted, rfl⟩ := List.mem_map.1 hparam
    exact .native hlisted

end DocScript
