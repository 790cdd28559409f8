import Mathlib.Data.List.Nodup
import DocScript.Proofs.Compile.Placeless
import DocScript.Proofs.Compile.Translation

/-! # The order of the sources

The first pass asks that every declaration states a signature under a name of its own, the
second that every body can be lowered against all of them. Neither depends on the order
of the units or of the declarations in a unit, and the functions end up in the order of
their names. So a program compiles in every order of its sources or in none, and always
to the same functions.
-/

namespace DocScript

/-! ### First pass -/

/-- Where declarations are read of which the diagnostics do not matter. -/
def nowhere : SourceSite := ⟨"", ⟨{}⟩⟩

/-- The signature that a declaration states, if there is nothing wrong with it. -/
def statedSignature? (space : String) (declaration : Json) : Option Signature :=
  let reading := readSignature nowhere space .root declaration
  if reading.2.any Diagnostic.isError then none else reading.1

theorem readSignature_of_stated {space : String} {declaration : Json} {signature : Signature}
    (h : statedSignature? space declaration = some signature) (site : SourceSite)
    (path : SourcePath) :
    (readSignature site space path declaration).1 = some signature ∧
      (readSignature site space path declaration).2.any Diagnostic.isError = false := by
  obtain ⟨hvalue, herrors⟩ : SameReading (readSignature site space path declaration)
      (readSignature nowhere space .root declaration) := readSignature_same space declaration
  unfold statedSignature? at h
  dsimp only at h
  split at h
  next => cases h
  next hclean => exact ⟨hvalue.trans h, herrors.trans (Bool.not_eq_true _ ▸ hclean)⟩

theorem statedBy_of_stated {space : String} {declaration : Json} {signature : Signature}
    (h : statedSignature? space declaration = some signature) :
    signature.StatedBy space declaration :=
  readSignature_stated (readSignature_of_stated h nowhere .root).1

theorem reported_of_not_stated {space : String} {declaration : Json}
    (h : statedSignature? space declaration = none) (site : SourceSite) (path : SourcePath) :
    (readSignature site space path declaration).2.any Diagnostic.isError = true := by
  obtain ⟨-, herrors⟩ : SameReading (readSignature site space path declaration)
      (readSignature nowhere space .root declaration) := readSignature_same space declaration
  rw [herrors]
  unfold statedSignature? at h
  dsimp only at h
  split at h
  next hreported => exact hreported
  next => exact readSignature_reported h

namespace SignatureTable

/-- The table with the signatures of declarations added, each under the namespace beside it. -/
def adding (table : SignatureTable) (entries : List (String × Json)) : SignatureTable :=
  ⟨(entries.filterMap fun entry => statedSignature? entry.1 entry.2).reverse ++ table.signatures⟩

/-- Every declaration states a signature, and each name is taken once. -/
structure Admits (table : SignatureTable) (entries : List (String × Json)) : Prop where
  stated : ∀ entry ∈ entries, (statedSignature? entry.1 entry.2).isSome
  distinct : ((table.adding entries).signatures.map Signature.name).Nodup

theorem adding_append (table : SignatureTable) (first second : List (String × Json)) :
    table.adding (first ++ second) = (table.adding first).adding second := by
  simp only [adding, List.filterMap_append, List.reverse_append, List.append_assoc]

theorem admits_append {table : SignatureTable} {first second : List (String × Json)} :
    table.Admits (first ++ second) ↔ table.Admits first ∧ (table.adding first).Admits second := by
  constructor
  · rintro ⟨hstated, hdistinct⟩
    rw [adding_append] at hdistinct
    have hfirst := hdistinct
    rw [adding, List.map_append, List.nodup_append] at hfirst
    exact ⟨⟨fun entry hmem => hstated entry (List.mem_append_left _ hmem), hfirst.2.1⟩,
      ⟨fun entry hmem => hstated entry (List.mem_append_right _ hmem), hdistinct⟩⟩
  · rintro ⟨⟨hfirst, -⟩, ⟨hsecond, hdistinct⟩⟩
    refine ⟨fun entry hmem => ?_, adding_append table first second ▸ hdistinct⟩
    exact (List.mem_append.1 hmem).elim (hfirst entry) (hsecond entry)

theorem get?_of_mem {table : SignatureTable} {signature : Signature}
    (hdistinct : (table.signatures.map Signature.name).Nodup)
    (hmem : signature ∈ table.signatures) : table.get? signature.name = some signature := by
  have hcontains : table.contains signature.name = true :=
    List.any_eq_true.2 ⟨signature, hmem, beq_self_eq_true _⟩
  rw [contains_eq] at hcontains
  obtain ⟨other, hget⟩ := Option.isSome_iff_exists.1 hcontains
  have hname : other.name = signature.name := by simpa using List.find?_some hget
  rw [hget, List.inj_on_of_nodup_map hdistinct (List.mem_of_find?_eq_some hget) hmem hname]

/-- The order of signatures of different names does not matter. -/
theorem agrees_of_perm {table other : SignatureTable}
    (hdistinct : (table.signatures.map Signature.name).Nodup)
    (hperm : table.signatures.Perm other.signatures) : table.Agrees other := by
  have hothers : (other.signatures.map Signature.name).Nodup := (hperm.map _).nodup_iff.1 hdistinct
  intro name
  cases hget : table.get? name with
  | some signature =>
      have hmem := hperm.subset (List.mem_of_find?_eq_some hget)
      have hname : signature.name = name := by simpa using List.find?_some hget
      rw [← hname, get?_of_mem hothers hmem]
  | none =>
      cases hother : other.get? name with
      | none => rfl
      | some signature =>
          have hmem := hperm.symm.subset (List.mem_of_find?_eq_some hother)
          have hname : signature.name = name := by simpa using List.find?_some hother
          rw [← hname, get?_of_mem hdistinct hmem] at hget
          cases hget

theorem not_mem_names {table : SignatureTable} {name : String} :
    name ∉ table.signatures.map Signature.name ↔ table.contains name = false := by
  rw [← Bool.not_eq_true, contains, List.any_eq_true]
  simp

end SignatureTable

namespace Compiler

/-- No error was reported so far, and each name is registered once. -/
structure Fine (compiler : Compiler) : Prop where
  clean : compiler.diagnostics.hasErrors = false
  distinct : (compiler.signatures.signatures.map Signature.name).Nodup

/-- All is fine after the declarations if it was before and they are admitted, and then their
signatures are registered. -/
structure Registers (entries : List (String × Json)) (before after : Compiler) : Prop where
  fine : after.Fine ↔ before.Fine ∧ before.signatures.Admits entries
  signatures : after.Fine → after.signatures = before.signatures.adding entries

namespace Registers

theorem nil (compiler : Compiler) : Registers [] compiler compiler where
  fine := ⟨fun h => ⟨h, nofun, h.distinct⟩, And.left⟩
  signatures _ := rfl

theorem append {first second : List (String × Json)} {before middle after : Compiler}
    (hfirst : Registers first before middle) (hsecond : Registers second middle after) :
    Registers (first ++ second) before after where
  fine := by
    rw [hsecond.fine, SignatureTable.admits_append]
    constructor
    · rintro ⟨hmiddle, hadmits⟩
      obtain ⟨hbefore, hfirstAdmits⟩ := hfirst.fine.1 hmiddle
      exact ⟨hbefore, hfirstAdmits, hfirst.signatures hmiddle ▸ hadmits⟩
    · rintro ⟨hbefore, hfirstAdmits, hadmits⟩
      have hmiddle := hfirst.fine.2 ⟨hbefore, hfirstAdmits⟩
      exact ⟨hmiddle, hfirst.signatures hmiddle ▸ hadmits⟩
  signatures hafter := by
    rw [hsecond.signatures hafter, hfirst.signatures (hsecond.fine.1 hafter).1,
      SignatureTable.adding_append]

end Registers

theorem hasErrors_reports (compiler : Compiler) (diagnostics : List Diagnostic) :
    (diagnostics.foldl report compiler).diagnostics.hasErrors =
      (diagnostics.any Diagnostic.isError || compiler.diagnostics.hasErrors) := by
  induction diagnostics generalizing compiler with
  | nil => rfl
  | cons diagnostic rest ih =>
      rw [List.foldl_cons, ih, report, DiagnosticBag.hasErrors_push, List.any_cons]
      cases diagnostic.isError <;> simp

theorem registerDeclaration_registers (compiler : Compiler) (site : SourceSite) (space : String)
    (path : SourcePath) (declaration : Json) :
    Registers [(space, declaration)] compiler
      (compiler.registerDeclaration site space path declaration) := by
  have hregistered := compiler.registerDeclaration_registration site space path declaration
  generalize compiler.registerDeclaration site space path declaration = after at hregistered ⊢
  cases hstated : statedSignature? space declaration with
  | none =>
      have hreported := reported_of_not_stated hstated site path
      have hfaulty : ¬ after.Fine := by
        rintro ⟨hclean, -⟩
        cases hregistered with
        | repeated => cases hclean
        | refused hread | added hread =>
            rw [hread] at hreported
            simp [hasErrors_reports, hreported] at hclean
      refine ⟨⟨fun h => absurd h hfaulty, ?_⟩, fun h => absurd h hfaulty⟩
      rintro ⟨-, hadmits, -⟩
      have hsome := hadmits (space, declaration) List.mem_cons_self
      rw [hstated] at hsome
      cases hsome
  | some signature =>
      obtain ⟨hvalue, hclean⟩ := readSignature_of_stated hstated site path
      have hadding : compiler.signatures.adding [(space, declaration)] =
          ⟨signature :: compiler.signatures.signatures⟩ := by
        simp [SignatureTable.adding, hstated]
      have hadmits : compiler.signatures.Admits [(space, declaration)] ↔
          ((signature :: compiler.signatures.signatures).map Signature.name).Nodup := by
        refine ⟨fun h => by simpa only [hadding] using h.distinct, fun h => ⟨?_, by rwa [hadding]⟩⟩
        intro entry hmem
        rw [List.mem_singleton.1 hmem, hstated]
        rfl
      rw [List.map_cons, List.nodup_cons, SignatureTable.not_mem_names] at hadmits
      cases hregistered with
      | refused hread =>
          rw [hread] at hvalue
          cases hvalue
      | repeated hread htaken =>
          rw [hread] at hvalue
          cases hvalue
          have hfaulty {after : Compiler} (error : CompileError) :
              ¬ (after.report (site.error (path.member "name") error)).Fine :=
            fun h => nomatch h.clean
          refine ⟨⟨fun h => absurd h (hfaulty _), ?_⟩, fun h => absurd h (hfaulty _)⟩
          rintro ⟨-, h⟩
          exact absurd (hadmits.1 h).1 (by simp [htaken])
      | @added _ diagnostics hread hfree =>
          rw [hread] at hvalue hclean
          cases hvalue
          have herrors := hasErrors_reports compiler diagnostics
          rw [hclean, Bool.false_or] at herrors
          refine ⟨⟨fun h => ?_, fun h => ?_⟩, fun _ => hadding.symm⟩
          · have hdistinct := (List.nodup_cons.1 h.distinct).2
            exact ⟨⟨herrors ▸ h.clean, hdistinct⟩, hadmits.2 ⟨hfree, hdistinct⟩⟩
          · exact ⟨herrors.trans h.1.clean,
              List.nodup_cons.2 ⟨SignatureTable.not_mem_names.2 hfree, h.1.distinct⟩⟩

theorem registerDeclarations_registers (site : SourceSite) (space : String)
    (declarations : List Json) (position : Nat) (compiler : Compiler) :
    Registers (declarations.map fun declaration => (space, declaration)) compiler
      (registerDeclarations site space declarations position compiler) := by
  induction declarations generalizing position compiler with
  | nil => exact .nil compiler
  | cons declaration rest ih =>
      exact (registerDeclaration_registers compiler site space _ declaration).append (ih _ _)

end Compiler

/-- The declarations of a unit, each beside its namespace. -/
def SourceUnit.entries (unit : SourceUnit) : List (String × Json) :=
  match unit.document? with
  | some (space, declarations) => declarations.map fun declaration => (space, declaration)
  | none => []

namespace Compiler

theorem not_fine_report {compiler : Compiler} {diagnostic : Diagnostic}
    (herror : diagnostic.isError = true) : ¬ (compiler.report diagnostic).Fine := by
  rintro ⟨hclean, -⟩
  rw [report, DiagnosticBag.hasErrors_push, herror] at hclean
  cases hclean

/-- A unit that is no document is reported, the declarations of any other one are registered. -/
theorem registerUnit_registers (compiler : Compiler) (unit : SourceUnit) :
    ((compiler.registerUnit unit).Fine ↔
        compiler.Fine ∧ unit.document?.isSome ∧ compiler.signatures.Admits unit.entries) ∧
      ((compiler.registerUnit unit).Fine →
        (compiler.registerUnit unit).signatures = compiler.signatures.adding unit.entries ∧
        (compiler.registerUnit unit).units.flatMap RegisteredUnit.entries =
          compiler.units.flatMap RegisteredUnit.entries ++ unit.entries) := by
  have hregistered := compiler.registerUnit_registration unit
  generalize compiler.registerUnit unit = after at hregistered ⊢
  cases hregistered with
  | refused hnone herror =>
      have hnot : ¬ (compiler.report _).Fine := not_fine_report herror
      rw [hnone]
      exact ⟨⟨fun h => absurd h hnot, fun h => nomatch h.2.1⟩, fun h => absurd h hnot⟩
  | @kept space declarations hdocument =>
      have hentries : unit.entries = declarations.map fun declaration => (space, declaration) := by
        rw [SourceUnit.entries, hdocument]
      have hregisters := registerDeclarations_registers ⟨unit.id, LineIndex.build unit.text⟩ space
        declarations 0 compiler
      rw [← hentries] at hregisters
      rw [hdocument]
      simp only [Option.isSome_some, true_and]
      refine ⟨?_, fun h => ⟨hregisters.signatures ⟨h.clean, h.distinct⟩, ?_⟩⟩
      · rw [← hregisters.fine]
        exact ⟨fun h => ⟨h.clean, h.distinct⟩, fun h => ⟨h.clean, h.distinct⟩⟩
      · rw [List.flatMap_append, List.flatMap_singleton, RegisteredUnit.entries, hentries]

/-- All is fine after the first pass if and only if all units are documents and their declarations
are admitted together, and then the second pass goes on with these declarations. -/
theorem registered_fine_iff (units : List SourceUnit) :
    ((units.foldl registerUnit {}).Fine ↔ (∀ unit ∈ units, unit.document?.isSome) ∧
        SignatureTable.natives.Admits (units.flatMap SourceUnit.entries)) ∧
      ((units.foldl registerUnit {}).Fine →
        (units.foldl registerUnit {}).signatures =
          SignatureTable.natives.adding (units.flatMap SourceUnit.entries) ∧
        (units.foldl registerUnit {}).units.flatMap RegisteredUnit.entries =
          units.flatMap SourceUnit.entries) := by
  have hrest (compiler : Compiler) :
      ((units.foldl registerUnit compiler).Fine ↔ compiler.Fine ∧
          (∀ unit ∈ units, unit.document?.isSome) ∧
          compiler.signatures.Admits (units.flatMap SourceUnit.entries)) ∧
        ((units.foldl registerUnit compiler).Fine →
          (units.foldl registerUnit compiler).signatures =
            compiler.signatures.adding (units.flatMap SourceUnit.entries) ∧
          (units.foldl registerUnit compiler).units.flatMap RegisteredUnit.entries =
            compiler.units.flatMap RegisteredUnit.entries ++
              units.flatMap SourceUnit.entries) := by
    induction units generalizing compiler with
    | nil =>
        refine ⟨⟨fun h => ⟨h, nofun, nofun, h.distinct⟩, And.left⟩, fun _ => ⟨rfl, ?_⟩⟩
        simp
    | cons unit rest ih =>
        obtain ⟨hfine, hkept⟩ := registerUnit_registers compiler unit
        obtain ⟨hrest, hall⟩ := ih (compiler.registerUnit unit)
        simp only [List.foldl_cons, List.flatMap_cons, List.forall_mem_cons,
          SignatureTable.admits_append, SignatureTable.adding_append]
        refine ⟨hrest.trans ⟨?_, ?_⟩, fun h => ?_⟩
        · rintro ⟨hunit, hdocuments, hadmits⟩
          obtain ⟨hbefore, hdocument, hfirst⟩ := hfine.1 hunit
          rw [(hkept hunit).1] at hadmits
          exact ⟨hbefore, ⟨hdocument, hdocuments⟩, hfirst, hadmits⟩
        · rintro ⟨hbefore, ⟨hdocument, hdocuments⟩, hfirst, hadmits⟩
          have hunit := hfine.2 ⟨hbefore, hdocument, hfirst⟩
          exact ⟨hunit, hdocuments, (hkept hunit).1 ▸ hadmits⟩
        · have hunit := (hrest.1 h).1
          obtain ⟨hsignatures, hentries⟩ := hall h
          rw [(hkept hunit).1] at hsignatures
          rw [(hkept hunit).2, List.append_assoc] at hentries
          exact ⟨hsignatures, hentries⟩
  have hstart : ({} : Compiler).Fine := ⟨rfl, by decide⟩
  obtain ⟨hfine, hkept⟩ := hrest {}
  exact ⟨hfine.trans ⟨And.right, fun h => ⟨hstart, h⟩⟩, hkept⟩

/-- Each name is registered once, whether or not all is fine. -/
theorem registered_fine {units : List SourceUnit}
    (hclean : (units.foldl registerUnit {}).diagnostics.hasErrors = false) :
    (units.foldl registerUnit {}).Fine := by
  have hdistinct : RegistersWell fun table => (table.signatures.map Signature.name).Nodup := by
    refine ⟨by decide, fun table signature hdistinct _ hfresh => ?_⟩
    rw [List.map_cons, List.nodup_cons, SignatureTable.not_mem_names]
    exact ⟨hfresh, hdistinct⟩
  exact ⟨hclean, registered_good hdistinct units⟩

end Compiler

/-! ### Second pass -/

/-- The function that a declaration is compiled to, if there is nothing wrong with its locals and
its body. -/
def compiledFunction? (signatures : SignatureTable) (space : String) (declaration : Json) :
    Option (CompiledFunction Constant) :=
  (statedSignature? space declaration).bind fun signature =>
    let state := Compiler.lowerFunction ⟨signatures, nowhere⟩ .root declaration
      ⟨Compiler.startFunction space signature, {}⟩
    if state.diagnostics.hasErrors || state.builder.overflow.isSome then none
    else some state.builder.finish

/-- The order in which signatures were registered does not matter. -/
theorem compiledFunction?_agrees {signatures others : SignatureTable}
    (hsame : signatures.Agrees others) (space : String) (declaration : Json) :
    compiledFunction? signatures space declaration =
      compiledFunction? others space declaration := by
  unfold compiledFunction?
  cases statedSignature? space declaration with
  | none => rw [Option.bind_none, Option.bind_none]
  | some signature =>
      have hstart : Lowering.Alike (.sameErrors ⟨signatures, nowhere⟩ ⟨others, nowhere⟩)
          ⟨Compiler.startFunction space signature, {}⟩
          ⟨Compiler.startFunction space signature, {}⟩ := ⟨rfl, rfl⟩
      have hlowered : (Compiler.lowerFunction ⟨signatures, nowhere⟩ .root declaration
            ⟨Compiler.startFunction space signature, {}⟩).Alike
            (.sameErrors ⟨signatures, nowhere⟩ ⟨others, nowhere⟩)
          (Compiler.lowerFunction ⟨others, nowhere⟩ .root declaration
            ⟨Compiler.startFunction space signature, {}⟩) :=
        Compiler.lowerFunction_alike hsame declaration .root .root hstart
      simp only [Option.bind_some, hlowered.builder, hlowered.errors]

namespace Compiler

/-- A declaration with its unit and its place there. -/
structure Task where
  unit : RegisteredUnit
  path : SourcePath
  declaration : Json

namespace Task

/-- The declaration beside its namespace. -/
def entry (task : Task) : String × Json := (task.unit.space, task.declaration)

def compile (compiler : Compiler) (task : Task) : Compiler :=
  compiler.compileDeclaration task.unit task.path task.declaration

/-- The declarations of a unit with their places, the first at the given position. -/
def ofUnit (unit : RegisteredUnit) : List Json → (position : Nat) → List Task
  | [], _ => []
  | declaration :: rest, position =>
      ⟨unit, declarationPath position, declaration⟩ :: ofUnit unit rest (position + 1)

theorem entries_ofUnit (unit : RegisteredUnit) (declarations : List Json) (position : Nat) :
    (ofUnit unit declarations position).map entry =
      declarations.map fun declaration => (unit.space, declaration) := by
  induction declarations generalizing position with
  | nil => rfl
  | cons declaration rest ih => rw [ofUnit, List.map_cons, List.map_cons, ih, entry]

theorem foldl_ofUnit (unit : RegisteredUnit) (declarations : List Json) (position : Nat)
    (compiler : Compiler) :
    (ofUnit unit declarations position).foldl compile compiler =
      compileDeclarations unit declarations position compiler := by
  induction declarations generalizing position compiler with
  | nil => rfl
  | cons declaration rest ih => exact ih (position + 1) _

end Task

/-- The second pass goes from declaration to declaration, whatever unit they are in. -/
theorem compileRegistered_eq (compiler : Compiler) : ∃ tasks : List Task,
    tasks.map Task.entry = compiler.units.flatMap RegisteredUnit.entries ∧
      compiler.compileRegistered = tasks.foldl Task.compile compiler := by
  refine ⟨compiler.units.flatMap fun unit => Task.ofUnit unit unit.declarations 0, ?_, ?_⟩
  · simp only [List.map_flatMap, Task.entries_ofUnit]
    rfl
  · simp only [compileRegistered, List.foldl_flatMap, Task.foldl_ofUnit]

variable {compiler : Compiler} {task : Task} {signature : Signature}

theorem compile_of_stated
    (hstated : statedSignature? task.unit.space task.declaration = some signature)
    (hknown : compiler.signatures.get? signature.name = some signature)
    (hfresh : compiler.functions.contains signature.name = false)
    (hclean : compiler.diagnostics.hasErrors = false) :
    (compiledFunction? compiler.signatures task.unit.space task.declaration = none ∧
        (task.compile compiler).diagnostics.hasErrors = true) ∨
      ∃ function,
        compiledFunction? compiler.signatures task.unit.space task.declaration = some function ∧
        (task.compile compiler).diagnostics.hasErrors = false ∧
        (task.compile compiler).functions = compiler.functions.insert function := by
  obtain ⟨unit, path, declaration⟩ := task
  obtain ⟨name, hname, hfull⟩ := (statedBy_of_stated hstated).named
  have hlowered : (lowerFunction ⟨compiler.signatures, unit.site⟩ path declaration
        ⟨startFunction unit.space signature, compiler.diagnostics⟩).Alike
          (.sameErrors ⟨compiler.signatures, unit.site⟩ ⟨compiler.signatures, nowhere⟩)
      (lowerFunction ⟨compiler.signatures, nowhere⟩ .root declaration
        ⟨startFunction unit.space signature, {}⟩) := by
    have hsame : compiler.signatures.Agrees compiler.signatures := fun _ => rfl
    have hstart : Lowering.Alike
        (.sameErrors ⟨compiler.signatures, unit.site⟩ ⟨compiler.signatures, nowhere⟩)
        ⟨startFunction unit.space signature, compiler.diagnostics⟩
        ⟨startFunction unit.space signature, {}⟩ := ⟨rfl, hclean⟩
    exact lowerFunction_alike hsame declaration path .root hstart
  rw [hfull] at hknown hfresh
  have hcompiling := compiler.compileDeclaration_compiling unit path declaration
  simp only [Task.compile, compiledFunction?, hstated, Option.bind_some]
  generalize compiler.compileDeclaration unit path declaration = after at hcompiling ⊢
  generalize lowerFunction ⟨compiler.signatures, nowhere⟩ .root declaration _ = other at hlowered ⊢
  cases hcompiling with
  | passed hunknown => cases hknown.symm.trans (hunknown name hname).2
  | repeated hdeclared htaken =>
      obtain rfl := Option.some.inj (hname.symm.trans hdeclared)
      cases htaken.symm.trans hfresh
  | exceeded hdeclared _ hget hstate hover =>
      obtain rfl := Option.some.inj (hname.symm.trans hdeclared)
      obtain rfl := Option.some.inj (hknown.symm.trans hget)
      rw [← hstate] at hlowered
      refine .inl ⟨?_, rfl⟩
      simp [← hlowered.builder, Option.isSome_iff_ne_none.2 hover]
  | @lowered _ _ state hdeclared _ hget hstate hlimits =>
      obtain rfl := Option.some.inj (hname.symm.trans hdeclared)
      obtain rfl := Option.some.inj (hknown.symm.trans hget)
      rw [← hstate] at hlowered
      obtain ⟨hbuilder, herrors⟩ := hlowered
      rw [← hbuilder, ← herrors, hlimits]
      cases hfaulty : state.diagnostics.hasErrors with
      | true => exact .inl ⟨by simp, rfl⟩
      | false => exact .inr ⟨state.builder.finish, by simp, rfl, rfl⟩

/-- A compiled function has the full name of its declaration. -/
theorem name_of_compiledFunction? {signatures : SignatureTable} {space : String}
    {declaration : Json} {function : CompiledFunction Constant} (hsound : signatures.Sound)
    (hstated : statedSignature? space declaration = some signature)
    (hknown : signatures.get? signature.name = some signature)
    (hcompiled : compiledFunction? signatures space declaration = some function) :
    function.name = signature.name := by
  obtain ⟨name, hname, hfull⟩ := (statedBy_of_stated hstated).named
  rw [hfull] at hknown ⊢
  simp only [compiledFunction?, hstated, Option.bind_some] at hcompiled
  generalize hstate : lowerFunction ⟨signatures, nowhere⟩ .root declaration
    ⟨startFunction space signature, {}⟩ = state at hcompiled
  split at hcompiled
  next => cases hcompiled
  next hclean =>
    cases hcompiled
    rw [Bool.or_eq_true, not_or, Bool.not_eq_true, Option.not_isSome_iff_eq_none] at hclean
    obtain ⟨-, -, ⟨made⟩⟩ := translation_of_lowerFunction hsound hname hknown hstate.symm
      ⟨hclean.1, hclean.2⟩
    exact made.name_eq hname

/-- The declaration states a signature that is known, and its name is not yet in the table. -/
def Awaited (signatures : SignatureTable) (functions : FunctionTable Constant)
    (entry : String × Json) : Prop :=
  ∃ signature, statedSignature? entry.1 entry.2 = some signature ∧
    signatures.get? signature.name = some signature ∧ functions.contains signature.name = false

/-- The declarations do not state the same name. -/
def Apart (entry other : String × Json) : Prop :=
  ∀ signature, statedSignature? entry.1 entry.2 = some signature →
    ∀ signature', statedSignature? other.1 other.2 = some signature' →
      signature.name ≠ signature'.name

theorem clean_of_compile_tasks {tasks : List Task} (hsound : compiler.signatures.Sound)
    (hclean : (tasks.foldl Task.compile compiler).diagnostics.hasErrors = false) :
    compiler.diagnostics.hasErrors = false := by
  induction tasks generalizing compiler with
  | nil => exact hclean
  | cons task rest ih =>
      have hsame : (task.compile compiler).signatures = compiler.signatures :=
        signatures_compileDeclaration ..
      exact (compileDeclaration_compiles hsound (ih (hsame ▸ hsound) hclean)).1

/-- The second pass finds no error if and only if every declaration can be compiled, and puts the
functions into the table in the order of the declarations. -/
theorem compile_tasks {signatures : SignatureTable} {tasks : List Task}
    (hsound : signatures.Sound) (hsignatures : compiler.signatures = signatures)
    (hclean : compiler.diagnostics.hasErrors = false)
    (hawaited : ∀ entry ∈ tasks.map Task.entry, Awaited signatures compiler.functions entry)
    (hapart : (tasks.map Task.entry).Pairwise Apart) :
    ((tasks.foldl Task.compile compiler).diagnostics.hasErrors = false ↔
        ∀ entry ∈ tasks.map Task.entry, (compiledFunction? signatures entry.1 entry.2).isSome) ∧
      ((tasks.foldl Task.compile compiler).diagnostics.hasErrors = false →
        (tasks.foldl Task.compile compiler).functions =
          ((tasks.map Task.entry).filterMap fun entry =>
            compiledFunction? signatures entry.1 entry.2).foldl FunctionTable.insert
              compiler.functions) := by
  induction tasks generalizing compiler with
  | nil => exact ⟨⟨fun _ => nofun, fun _ => hclean⟩, fun _ => rfl⟩
  | cons task rest ih =>
      rw [List.map_cons, List.pairwise_cons] at hapart
      rw [List.map_cons, List.forall_mem_cons] at hawaited
      obtain ⟨⟨signature, hstated, hknown, hfresh⟩, hrest⟩ := hawaited
      subst hsignatures
      have hsame : (task.compile compiler).signatures = compiler.signatures :=
        signatures_compileDeclaration ..
      simp only [List.foldl_cons, List.map_cons, List.forall_mem_cons, List.filterMap_cons]
      rcases compile_of_stated hstated hknown hfresh hclean with
        ⟨hnone, hfaulty⟩ | ⟨function, hcompiled, hmiddle, hfunctions⟩
      · have hnot : ¬ (rest.foldl Task.compile (task.compile compiler)).diagnostics.hasErrors =
            false := fun h =>
          nomatch hfaulty.symm.trans (clean_of_compile_tasks (hsame ▸ hsound) h)
        refine ⟨⟨fun h => absurd h hnot, fun h => ?_⟩, fun h => absurd h hnot⟩
        exact absurd h.1 (by simp [Task.entry, hnone])
      · have hname := name_of_compiledFunction? hsound hstated hknown hcompiled
        have hlater (entry : String × Json) (hmem : entry ∈ rest.map Task.entry) :
            Awaited compiler.signatures (task.compile compiler).functions entry := by
          obtain ⟨other, hother, hknownOther, hfreshOther⟩ := hrest entry hmem
          refine ⟨other, hother, hknownOther, ?_⟩
          have hne := hapart.1 entry hmem signature hstated other hother
          rw [FunctionTable.contains_eq] at hfreshOther ⊢
          rwa [hfunctions, FunctionTable.get?_insert, if_neg (hname ▸ hne)]
        obtain ⟨hiff, htable⟩ := ih hsame hmiddle hlater hapart.2
        simp only [Task.entry, hcompiled, Option.isSome_some, true_and] at hiff htable ⊢
        exact ⟨hiff, fun h => by rw [htable h, hfunctions, List.foldl_cons]⟩

end Compiler

/-! ### Both passes -/

/-- All declarations of a program, each beside its namespace. -/
def programEntries (units : List SourceUnit) : List (String × Json) :=
  units.flatMap SourceUnit.entries

/-- The signatures that a list of declarations states, and those of the native functions. -/
def entrySignatures (entries : List (String × Json)) : SignatureTable :=
  SignatureTable.natives.adding entries

/-- The functions that a list of declarations is compiled to. -/
def entryFunctions (entries : List (String × Json)) : List (CompiledFunction Constant) :=
  entries.filterMap fun entry => compiledFunction? (entrySignatures entries) entry.1 entry.2

/-- What has to hold of the declarations for the functions to be what they are compiled to. -/
structure Builds (entries : List (String × Json)) (functions : FunctionTable Constant) : Prop where
  admits : SignatureTable.natives.Admits entries
  compiled : ∀ entry ∈ entries,
    (compiledFunction? (entrySignatures entries) entry.1 entry.2).isSome
  table : functions = .ofList (entryFunctions entries)

theorem SignatureTable.Admits.awaited {entries : List (String × Json)}
    (h : SignatureTable.natives.Admits entries) (entry : String × Json) (hmem : entry ∈ entries) :
    Compiler.Awaited (entrySignatures entries) {} entry := by
  obtain ⟨signature, hstated⟩ := Option.isSome_iff_exists.1 (h.stated entry hmem)
  refine ⟨signature, hstated, SignatureTable.get?_of_mem h.distinct ?_, rfl⟩
  exact List.mem_append_left _ (List.mem_reverse.2 (List.mem_filterMap.2 ⟨entry, hmem, hstated⟩))

theorem SignatureTable.Admits.apart {entries : List (String × Json)}
    (h : SignatureTable.natives.Admits entries) : entries.Pairwise Compiler.Apart := by
  have hdistinct := h.distinct
  rw [adding, List.map_append, List.nodup_append, List.map_reverse, List.nodup_reverse] at hdistinct
  exact List.pairwise_filterMap.1 (List.pairwise_map.1 hdistinct.1)

theorem Compiler.finish_eq (compiler : Compiler) : compiler.finish =
    if compiler.diagnostics.hasErrors then .error compiler.diagnostics
    else .ok ⟨compiler.functions, compiler.diagnostics⟩ := by
  unfold finish flush
  split <;> rfl

theorem Compiler.complete_eq (compiler : Compiler) : compiler.complete =
    if compiler.diagnostics.hasErrors then .error compiler.diagnostics
    else compiler.compileRegistered.finish := by
  unfold complete flush
  split <;> rfl

theorem Compiler.complete_ok_iff (compiler : Compiler) (functions : FunctionTable Constant) :
    (∃ compilation, compiler.complete = .ok compilation ∧ compilation.functions = functions) ↔
      compiler.diagnostics.hasErrors = false ∧
        compiler.compileRegistered.diagnostics.hasErrors = false ∧
        compiler.compileRegistered.functions = functions := by
  rw [complete_eq, finish_eq]
  cases compiler.diagnostics.hasErrors with
  | true => simp
  | false => cases compiler.compileRegistered.diagnostics.hasErrors <;> simp

/-- A program compiles if and only if its units are documents and their declarations build a table
of functions, which is then the result. -/
theorem compileUnits_ok_iff (units : List SourceUnit) (functions : FunctionTable Constant) :
    (∃ compilation, compileUnits units = .ok compilation ∧ compilation.functions = functions) ↔
      (∀ unit ∈ units, unit.document?.isSome) ∧ Builds (programEntries units) functions := by
  obtain ⟨hfine, hkept⟩ := Compiler.registered_fine_iff units
  have hregistered : (units.foldl Compiler.registerUnit {}).diagnostics.hasErrors = false ↔
      (units.foldl Compiler.registerUnit {}).Fine :=
    ⟨Compiler.registered_fine, Compiler.Fine.clean⟩
  rw [compileUnits, Compiler.complete_ok_iff, hregistered]
  have hpass (h : (units.foldl Compiler.registerUnit {}).Fine) :
      ((units.foldl Compiler.registerUnit {}).compileRegistered.diagnostics.hasErrors = false ↔
        ∀ entry ∈ programEntries units,
          (compiledFunction? (entrySignatures (programEntries units)) entry.1 entry.2).isSome) ∧
      ((units.foldl Compiler.registerUnit {}).compileRegistered.diagnostics.hasErrors = false →
        (units.foldl Compiler.registerUnit {}).compileRegistered.functions =
          .ofList (entryFunctions (programEntries units))) := by
    have hadmits := (hfine.1 h).2
    obtain ⟨hsignatures, hentries⟩ := hkept h
    obtain ⟨tasks, htasks, heq⟩ :=
      Compiler.compileRegistered_eq (units.foldl Compiler.registerUnit {})
    have hsound := Compiler.registered_sound units
    obtain ⟨hfunctions, -⟩ := Compiler.registered_units units
    rw [hentries] at htasks
    rw [hsignatures] at hsound
    have hawaited : ∀ entry ∈ tasks.map Compiler.Task.entry,
        Compiler.Awaited (entrySignatures (programEntries units))
          (units.foldl Compiler.registerUnit {}).functions entry := by
      rw [htasks, hfunctions]
      exact hadmits.awaited
    have hcompile := Compiler.compile_tasks hsound hsignatures h.clean hawaited
      (htasks ▸ hadmits.apart)
    rw [htasks, hfunctions] at hcompile
    rw [heq]
    exact hcompile
  constructor
  · rintro ⟨h, hclean, rfl⟩
    obtain ⟨hdocuments, hadmits⟩ := hfine.1 h
    exact ⟨hdocuments, hadmits, (hpass h).1.1 hclean, (hpass h).2 hclean⟩
  · rintro ⟨hdocuments, hadmits, hcompiled, rfl⟩
    have h := hfine.2 ⟨hdocuments, hadmits⟩
    have hclean := (hpass h).1.2 hcompiled
    exact ⟨h, hclean, (hpass h).2 hclean⟩

/-! ### Rearranged sources -/

theorem entrySignatures_sound (entries : List (String × Json)) :
    (entrySignatures entries).Sound := by
  intro signature hmem
  rcases List.mem_append.1 hmem with hstated | hnative
  · obtain ⟨entry, -, hstated⟩ := List.mem_filterMap.1 (List.mem_reverse.1 hstated)
    exact (statedBy_of_stated hstated).sound
  · exact Compiler.registered_sound [] signature hnative

/-- Different declarations are compiled to functions of different names. -/
theorem SignatureTable.Admits.distinct_functions {entries : List (String × Json)}
    (h : SignatureTable.natives.Admits entries) :
    ((entryFunctions entries).map CompiledFunction.name).Nodup := by
  refine List.pairwise_map.2 (List.pairwise_filterMap.2 (h.apart.imp_of_mem ?_))
  intro entry other hmem hmemOther hapart function hfunction function' hfunction'
  obtain ⟨signature, hstated, hknown, -⟩ := h.awaited entry hmem
  obtain ⟨signature', hstated', hknown', -⟩ := h.awaited other hmemOther
  rw [Compiler.name_of_compiledFunction? (entrySignatures_sound entries) hstated hknown hfunction,
    Compiler.name_of_compiledFunction? (entrySignatures_sound entries) hstated' hknown' hfunction']
  exact hapart signature hstated signature' hstated'

/-- Declarations that build a table build the same one in any other order. -/
theorem Builds.of_perm {entries others : List (String × Json)} (hperm : entries.Perm others)
    {functions : FunctionTable Constant} (h : Builds entries functions) :
    Builds others functions := by
  have hstated := hperm.filterMap fun entry => statedSignature? entry.1 entry.2
  have hsignatures :
      (entrySignatures entries).signatures.Perm (entrySignatures others).signatures :=
    ((List.reverse_perm _).trans (hstated.trans (List.reverse_perm _).symm)).append_right _
  have hsame : (entrySignatures entries).Agrees (entrySignatures others) :=
    SignatureTable.agrees_of_perm h.admits.distinct hsignatures
  have hfunctions : (entryFunctions entries).Perm (entryFunctions others) := by
    simp only [entryFunctions, compiledFunction?_agrees hsame]
    exact hperm.filterMap _
  have hothers : ((entryFunctions others).map CompiledFunction.name).Nodup :=
    (hfunctions.map _).nodup_iff.1 h.admits.distinct_functions
  refine ⟨⟨?_, (hsignatures.map _).nodup_iff.1 h.admits.distinct⟩, ?_, ?_⟩
  · exact fun entry hmem => h.admits.stated entry (hperm.symm.subset hmem)
  · intro entry hmem
    rw [← compiledFunction?_agrees hsame]
    exact h.compiled entry (hperm.symm.subset hmem)
  · rw [h.table]
    refine FunctionTable.ext (FunctionTable.ofList_functions_eq (FunctionTable.ofList _).sorted ?_)
    exact hfunctions.trans (FunctionTable.ofList_perm hothers).symm

/-- The other unit says the same, but for the order of the declarations in its list of functions. -/
inductive SourceUnit.Rearranged (unit other : SourceUnit) : Prop where
  | same (hparse : Json.parse unit.text = Json.parse other.text)
  | declarations {members members' : List (String × Json)} {items items' : List Json}
      (hparse : Json.parse unit.text = .ok (.object members))
      (hparse' : Json.parse other.text = .ok (.object members'))
      (hkept : ∀ key, key ≠ "functions" → members.lookup key = members'.lookup key)
      (hitems : members.lookup "functions" = some (.array items))
      (hitems' : members'.lookup "functions" = some (.array items'))
      (hperm : items.Perm items')

/-- The units stand in another order, and the declarations in each unit do. -/
def Rearranged (units others : List SourceUnit) : Prop :=
  ∃ middle, units.Perm middle ∧ List.Forall₂ SourceUnit.Rearranged middle others

/-- The namespace of a document, unless what stands in its place is no name. -/
def documentSpace? (document : Json) : Option String :=
  match document.get? "namespace" with
  | none => some defaultNamespace
  | some (.string space) => if space.isEmpty then none else some space
  | some _ => none

theorem toOption_readDocument (document : Json) : (readDocument document).toOption =
    (documentSpace? document).bind fun space =>
      ((document.get? "functions").bind Json.array?).map (space, ·) := by
  unfold readDocument documentSpace?
  cases document.get? "namespace" with
  | none => cases (document.get? "functions").bind Json.array? <;> rfl
  | some value =>
      cases value with
      | string space =>
          dsimp only
          cases space.isEmpty with
          | true => rfl
          | false => cases (document.get? "functions").bind Json.array? <;> rfl
      | _ => rfl

namespace SourceUnit.Rearranged

variable {unit other : SourceUnit}

theorem document (h : unit.Rearranged other) :
    unit.document?.isSome = other.document?.isSome ∧ unit.entries.Perm other.entries := by
  cases h with
  | same hparse =>
      have hsame : unit.document? = other.document? := by
        rw [SourceUnit.document?, SourceUnit.document?, hparse]
      rw [SourceUnit.entries, SourceUnit.entries, hsame]
      exact ⟨rfl, .refl _⟩
  | @declarations members members' items items' hparse hparse' hkept hitems hitems' hperm =>
      have hspace : documentSpace? (.object members) = documentSpace? (.object members') := by
        simp only [documentSpace?, Json.get?, hkept "namespace" (by decide)]
      simp only [SourceUnit.entries, SourceUnit.document?, hparse, hparse', toOption_readDocument,
        Json.get?, hspace, hitems, hitems', Option.bind_some, Json.array?, Option.map_some]
      cases documentSpace? (.object members') with
      | none => exact ⟨rfl, .refl _⟩
      | some space => exact ⟨rfl, hperm.map _⟩

end SourceUnit.Rearranged

namespace Rearranged

variable {units others : List SourceUnit}

theorem documents_of_forall₂ (h : List.Forall₂ SourceUnit.Rearranged units others) :
    ((∀ unit ∈ units, unit.document?.isSome) ↔ ∀ unit ∈ others, unit.document?.isSome) ∧
      (programEntries units).Perm (programEntries others) := by
  induction h with
  | nil => exact ⟨.rfl, .refl _⟩
  | cons hunit _ ih =>
      obtain ⟨hdocument, hentries⟩ := hunit.document
      rw [List.forall_mem_cons, List.forall_mem_cons, hdocument, ih.1]
      exact ⟨.rfl, hentries.append ih.2⟩

theorem documents (h : Rearranged units others) :
    ((∀ unit ∈ units, unit.document?.isSome) ↔ ∀ unit ∈ others, unit.document?.isSome) ∧
      (programEntries units).Perm (programEntries others) := by
  obtain ⟨middle, hperm, hunits⟩ := h
  obtain ⟨hdocuments, hentries⟩ := documents_of_forall₂ hunits
  refine ⟨Iff.trans ?_ hdocuments, (hperm.flatMap_right _).trans hentries⟩
  exact ⟨fun h unit hmem => h unit (hperm.symm.subset hmem),
    fun h unit hmem => h unit (hperm.subset hmem)⟩

/-- Rearranged sources compile to the same functions or not at all. -/
theorem compiles_iff (h : Rearranged units others) (functions : FunctionTable Constant) :
    (∃ compilation, compileUnits units = .ok compilation ∧ compilation.functions = functions) ↔
      ∃ compilation, compileUnits others = .ok compilation ∧ compilation.functions = functions := by
  obtain ⟨hdocuments, hentries⟩ := h.documents
  rw [compileUnits_ok_iff, compileUnits_ok_iff, hdocuments]
  exact and_congr_right fun _ => ⟨.of_perm hentries, .of_perm hentries.symm⟩

end Rearranged

/-- The order of the units and of the declarations in them does not matter: a program compiles if
and only if it does in any other order, and then to the same table of functions. -/
theorem source_order_irrelevant (units others : List SourceUnit) (h : Rearranged units others) :
    ((∃ compilation, compileUnits units = .ok compilation) ↔
        ∃ compilation, compileUnits others = .ok compilation) ∧
      ∀ compilation compilation', compileUnits units = .ok compilation →
        compileUnits others = .ok compilation' →
        compilation.functions = compilation'.functions := by
  refine ⟨⟨?_, ?_⟩, ?_⟩
  · rintro ⟨compilation, hcompile⟩
    obtain ⟨compilation', hcompile', -⟩ := (h.compiles_iff _).1 ⟨compilation, hcompile, rfl⟩
    exact ⟨compilation', hcompile'⟩
  · rintro ⟨compilation, hcompile⟩
    obtain ⟨compilation', hcompile', -⟩ := (h.compiles_iff _).2 ⟨compilation, hcompile, rfl⟩
    exact ⟨compilation', hcompile'⟩
  · intro compilation compilation' hcompile hcompile'
    obtain ⟨found, hfound, hsame⟩ := (h.compiles_iff _).1 ⟨compilation, hcompile, rfl⟩
    rw [hcompile', Except.ok.injEq] at hfound
    rw [← hsame, hfound]

/-- Two functions, one of which calls the other. -/
def library : SourceUnit where
  id := "library.json"
  text := "\x7b\"functions\":[\x7b\"name\":\"f\",\"body\":[]\x7d,
    \x7b\"name\":\"g\",\"body\":[\x7b\"call\":\x7b\"function\":\"f\"\x7d\x7d]\x7d]\x7d"

/-- The same functions the other way around. -/
def turned : SourceUnit where
  id := "library.json"
  text := "\x7b\"functions\":[
    \x7b\"name\":\"g\",\"body\":[\x7b\"call\":\x7b\"function\":\"f\"\x7d\x7d]\x7d,
    \x7b\"name\":\"f\",\"body\":[]\x7d]\x7d"

/-- A function that calls one of them from another namespace. -/
def caller : SourceUnit where
  id := "caller.json"
  text := "\x7b\"namespace\":\"B\",\"functions\":[\x7b\"name\":\"main\",\"body\":[
    \x7b\"call\":\x7b\"namespace\":\"Global\",\"function\":\"g\"\x7d\x7d]\x7d]\x7d"

/-- The declaration of a function whose body is a list of calls with the given members. -/
def callsOnly (name : String) (calls : List (List (String × Json))) : Json := .object
  [("body", .array (calls.map fun members => .object [("call", .object members)])),
    ("name", .string name)]

/-- The declarations in the library, in their first order. -/
def fDeclaration : Json := callsOnly "f" []
def gDeclaration : Json := callsOnly "g" [[("function", .string "f")]]

def mainDeclaration : Json :=
  callsOnly "main" [[("function", .string "g"), ("namespace", .string "Global")]]

set_option maxRecDepth 100000 in
theorem parse_library : Json.parse library.text =
    .ok (.object [("functions", .array [fDeclaration, gDeclaration])]) := by
  unfold Json.parse Json.Cursor.start library
  simp only [String.reduceToList]
  rfl

set_option maxRecDepth 100000 in
theorem parse_turned : Json.parse turned.text =
    .ok (.object [("functions", .array [gDeclaration, fDeclaration])]) := by
  unfold Json.parse Json.Cursor.start turned
  simp only [String.reduceToList]
  rfl

set_option maxRecDepth 100000 in
theorem parse_caller : Json.parse caller.text =
    .ok (.object [("functions", .array [mainDeclaration]), ("namespace", .string "B")]) := by
  unfold Json.parse Json.Cursor.start caller
  simp only [String.reduceToList]
  rfl

theorem turned_sources_agree :
    ∃ compilation compilation', compileUnits [library, caller] = .ok compilation ∧
      compileUnits [caller, turned] = .ok compilation' ∧
      compilation.functions = compilation'.functions := by
  have hrearranged : Rearranged [library, caller] [caller, turned] := by
    refine ⟨[caller, library], .swap .., .cons (.same rfl) (.cons ?_ .nil)⟩
    refine .declarations parse_library parse_turned (fun key hkey => ?_) rfl rfl (.swap ..)
    rw [List.lookup_cons, List.lookup_cons, beq_false_of_ne hkey]
  have hdocuments : library.document? = some ("Global", [fDeclaration, gDeclaration]) ∧
      caller.document? = some ("B", [mainDeclaration]) := by
    rw [SourceUnit.document?, SourceUnit.document?, parse_library, parse_caller]
    exact ⟨rfl, rfl⟩
  have hentries : programEntries [library, caller] =
      [("Global", fDeclaration), ("Global", gDeclaration), ("B", mainDeclaration)] := by
    simp [programEntries, SourceUnit.entries, hdocuments]
  have hbuilds : ∃ functions, Builds (programEntries [library, caller]) functions := by
    rw [hentries]
    exact ⟨_, ⟨by decide +kernel, by decide +kernel⟩, by decide +kernel, rfl⟩
  obtain ⟨functions, hbuilds⟩ := hbuilds
  obtain ⟨compilation, hcompile, -⟩ := (compileUnits_ok_iff _ functions).2
    ⟨by simp [hdocuments], hbuilds⟩
  obtain ⟨hiff, hsame⟩ := source_order_irrelevant _ _ hrearranged
  obtain ⟨compilation', hcompile'⟩ := hiff.1 ⟨compilation, hcompile⟩
  exact ⟨compilation, compilation', hcompile, hcompile', hsame _ _ hcompile hcompile'⟩

end DocScript
