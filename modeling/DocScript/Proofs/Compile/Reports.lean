import Mathlib.Data.List.Induction
import DocScript.Proofs.Compile.DeclaredProgram
import DocScript.Proofs.Source.LineBounds

/-! # Whom a diagnostic is about

Each pass goes over the units in turn, and what it reports while it is at a unit is a diagnostic
about a value of that unit. So the diagnostics of a compilation fall to its units, and each of them
points to a line of the unit that it falls to.
-/

namespace DocScript

/-! ### What is added -/

/-- The second bag holds what the first does, and behind that only diagnostics of the kind. -/
def DiagnosticBag.Adds (kind : Diagnostic → Prop) (before after : DiagnosticBag) : Prop :=
  ∃ added, after.toList = before.toList ++ added ∧ ∀ diagnostic ∈ added, kind diagnostic

namespace DiagnosticBag.Adds

variable {kind other : Diagnostic → Prop} {before middle after : DiagnosticBag}

theorem refl (kind : Diagnostic → Prop) (bag : DiagnosticBag) : bag.Adds kind bag :=
  ⟨[], (List.append_nil _).symm, List.forall_mem_nil _⟩

theorem trans (hfirst : before.Adds kind middle) (hsecond : middle.Adds kind after) :
    before.Adds kind after := by
  obtain ⟨added, hadded, hkind⟩ := hfirst
  obtain ⟨more, hmore, hothers⟩ := hsecond
  refine ⟨added ++ more, by rw [hmore, hadded, List.append_assoc], ?_⟩
  exact List.forall_mem_append.2 ⟨hkind, hothers⟩

theorem push (h : before.Adds kind after) {diagnostic : Diagnostic} (hkind : kind diagnostic) :
    before.Adds kind (after.push diagnostic) := by
  refine h.trans ⟨[diagnostic], ?_, List.forall_mem_singleton.2 hkind⟩
  rw [toList, DiagnosticBag.push, List.reverse_cons]
  rfl

theorem mono (h : before.Adds kind after)
    (hweaker : ∀ diagnostic, kind diagnostic → other diagnostic) : before.Adds other after := by
  obtain ⟨added, hadded, hkind⟩ := h
  exact ⟨added, hadded, fun diagnostic hmem => hweaker diagnostic (hkind diagnostic hmem)⟩

end DiagnosticBag.Adds

/-- In the first lowering only diagnostics about its unit were added. -/
def ReportRelation.adding (scope other : LoweringScope) (before : DiagnosticBag) :
    ReportRelation scope other where
  holds bag _ := before.Adds (·.At scope.site) bag
  push path _ error _ h := h.push (Diagnostic.at_error _ path error)

theorem Compiler.adds_lowerFunction (scope : LoweringScope) (path : SourcePath)
    (declaration : Json) (state : Lowering) :
    state.diagnostics.Adds (·.At scope.site)
      (lowerFunction scope path declaration state).diagnostics := by
  have hsame : scope.signatures.Agrees scope.signatures := fun _ => rfl
  have hstart : state.Alike (.adding scope scope state.diagnostics) state := ⟨rfl, .refl _ _⟩
  exact (lowerFunction_alike hsame declaration path path hstart).reports

namespace Compiler

variable {compiler : Compiler}

theorem adds_reports {kind : Diagnostic → Prop} {diagnostics : List Diagnostic}
    (hkind : ∀ diagnostic ∈ diagnostics, kind diagnostic) :
    compiler.diagnostics.Adds kind (diagnostics.foldl report compiler).diagnostics := by
  induction diagnostics generalizing compiler with
  | nil => exact .refl _ _
  | cons diagnostic rest ih =>
      obtain ⟨hfirst, hrest⟩ := List.forall_mem_cons.1 hkind
      exact ((DiagnosticBag.Adds.refl _ _).push hfirst).trans (ih hrest)

theorem adds_registerDeclaration (site : SourceSite) (space : String) (path : SourcePath)
    (declaration : Json) : compiler.diagnostics.Adds (·.At site)
      (compiler.registerDeclaration site space path declaration).diagnostics := by
  have hread : compiler.diagnostics.Adds (·.At site)
      ((readSignature site space path declaration).2.foldl report compiler).diagnostics :=
    adds_reports fun diagnostic hmem => at_of_mem_readSignature hmem
  have hregistered := compiler.registerDeclaration_registration site space path declaration
  generalize compiler.registerDeclaration site space path declaration = after at hregistered ⊢
  cases hregistered with
  | refused heq | added heq =>
      rw [heq] at hread
      exact hread
  | repeated heq =>
      rw [heq] at hread
      exact hread.push (Diagnostic.at_error _ _ _)

theorem adds_registerDeclarations (site : SourceSite) (space : String) (declarations : List Json)
    (position : Nat) : compiler.diagnostics.Adds (·.At site)
      (registerDeclarations site space declarations position compiler).diagnostics := by
  induction declarations generalizing compiler position with
  | nil => exact .refl _ _
  | cons declaration rest ih => exact (adds_registerDeclaration ..).trans (ih _)

theorem adds_compileDeclaration (unit : RegisteredUnit) (path : SourcePath) (declaration : Json) :
    compiler.diagnostics.Adds (·.At unit.site)
      (compiler.compileDeclaration unit path declaration).diagnostics := by
  have hlowered (signature : Signature) :=
    adds_lowerFunction ⟨compiler.signatures, unit.site⟩ path declaration
      ⟨startFunction unit.space signature, compiler.diagnostics⟩
  have hcompiling := compiler.compileDeclaration_compiling unit path declaration
  generalize compiler.compileDeclaration unit path declaration = after at hcompiling ⊢
  cases hcompiling with
  | passed => exact .refl _ _
  | repeated => exact (DiagnosticBag.Adds.refl _ _).push (Diagnostic.at_error _ _ _)
  | exceeded _ _ _ hstate => exact (hstate ▸ hlowered _).push (Diagnostic.at_error _ _ _)
  | lowered _ _ _ hstate => exact hstate ▸ hlowered _

theorem adds_compileDeclarations (unit : RegisteredUnit) (declarations : List Json)
    (position : Nat) : compiler.diagnostics.Adds (·.At unit.site)
      (compileDeclarations unit declarations position compiler).diagnostics := by
  induction declarations generalizing compiler position with
  | nil => exact .refl _ _
  | cons declaration rest ih => exact (adds_compileDeclaration ..).trans (ih _)

/-! ### Unit by unit -/

/-- What was reported between two states of a compilation. -/
def reportedSince (before after : Compiler) : List Diagnostic :=
  after.diagnostics.toList.drop before.diagnostics.toList.length

theorem of_mem_reportedSince {kind : Diagnostic → Prop} {before after : Compiler}
    (h : before.diagnostics.Adds kind after.diagnostics) {diagnostic : Diagnostic}
    (hmem : diagnostic ∈ before.reportedSince after) : kind diagnostic := by
  obtain ⟨added, hadded, hkind⟩ := h
  rw [reportedSince, hadded, List.drop_left] at hmem
  exact hkind diagnostic hmem

/-- What a pass over units has reported was reported before it or at one of the units. -/
theorem exists_of_reported {step : Compiler → α → Compiler} {kind : α → Diagnostic → Prop}
    (hadds : ∀ (compiler : Compiler) (item : α),
      compiler.diagnostics.Adds (kind item) (step compiler item).diagnostics)
    {items : List α} {diagnostic : Diagnostic}
    (hmem : diagnostic ∈ (items.foldl step compiler).diagnostics.toList) :
    diagnostic ∈ compiler.diagnostics.toList ∨
      ∃ earlier item later, items = earlier ++ item :: later ∧
        diagnostic ∈ (earlier.foldl step compiler).reportedSince
          (step (earlier.foldl step compiler) item) := by
  induction items using List.reverseRecOn with
  | nil => exact .inl hmem
  | append_singleton items last ih =>
      rw [List.foldl_concat] at hmem
      obtain ⟨added, hadded, -⟩ := hadds (items.foldl step compiler) last
      rw [hadded, List.mem_append] at hmem
      rcases hmem with hbefore | hlast
      · refine (ih hbefore).imp_right ?_
        rintro ⟨earlier, item, later, rfl, hitem⟩
        exact ⟨earlier, item, later ++ [last], by simp, hitem⟩
      · refine .inr ⟨items, last, [], rfl, ?_⟩
        rwa [reportedSince, hadded, List.drop_left]

/-- Compiles the declarations of a registered unit. -/
def compileUnit (compiler : Compiler) (unit : RegisteredUnit) : Compiler :=
  compileDeclarations unit unit.declarations 0 compiler

end Compiler

/-- What the first pass keeps of a unit for the second. -/
def SourceUnit.registered? (unit : SourceUnit) : Option RegisteredUnit :=
  unit.document?.map fun document =>
    ⟨⟨unit.id, LineIndex.build unit.text⟩, document.1, document.2⟩

theorem Compiler.registerUnit_keeps (compiler : Compiler) (unit : SourceUnit) :
    (compiler.registerUnit unit).units = compiler.units ++ unit.registered?.toList := by
  have hregistered := compiler.registerUnit_registration unit
  generalize compiler.registerUnit unit = after at hregistered ⊢
  cases hregistered with
  | refused hnone =>
      rw [SourceUnit.registered?, hnone]
      exact (List.append_nil _).symm
  | kept hdocument =>
      rw [SourceUnit.registered?, hdocument]
      rfl

/-- The second pass goes over the units that are documents. -/
theorem firstPass_units (units : List SourceUnit) :
    (firstPass units).units = units.filterMap SourceUnit.registered? := by
  have hrest (compiler : Compiler) : (units.foldl Compiler.registerUnit compiler).units =
      compiler.units ++ units.filterMap SourceUnit.registered? := by
    induction units generalizing compiler with
    | nil => exact (List.append_nil _).symm
    | cons unit rest ih =>
        rw [List.foldl_cons, ih, Compiler.registerUnit_keeps, List.append_assoc]
        cases hunit : unit.registered? <;> simp [hunit]
  exact hrest {}

/-- The second pass up to behind the given units, which come first. -/
def secondPassOver (units earlier : List SourceUnit) : Compiler :=
  (earlier.filterMap SourceUnit.registered?).foldl Compiler.compileUnit (firstPass units)

/-- The compilation of the units reports the diagnostic while it is at the unit. -/
inductive ReportedFor (units : List SourceUnit) (unit : SourceUnit) (diagnostic : Diagnostic) :
    Prop where
  | registering {earlier later : List SourceUnit} (hunits : units = earlier ++ unit :: later)
      (hnew : diagnostic ∈
        (firstPass earlier).reportedSince ((firstPass earlier).registerUnit unit))
  | compiling {earlier later : List SourceUnit} {registered : RegisteredUnit}
      (hunits : units = earlier ++ unit :: later)
      (hclean : (firstPass units).diagnostics.hasErrors = false)
      (hregistered : unit.registered? = some registered)
      (hnew : diagnostic ∈ (secondPassOver units earlier).reportedSince
        ((secondPassOver units earlier).compileUnit registered))

/-- The diagnostics of a compilation, whether or not it has failed. -/
def reportsOf : Except DiagnosticBag Compilation → List Diagnostic
  | .error diagnostics => diagnostics.toList
  | .ok compilation => compilation.warnings.toList

section Units

variable {units : List SourceUnit} {unit : SourceUnit} {diagnostic : Diagnostic}

/-- The diagnostic names the unit and points to a line of its text. -/
structure Diagnostic.PointsInto (unit : SourceUnit) (diagnostic : Diagnostic) : Prop where
  named : diagnostic.unit = unit.id
  line : LineOfText unit.text diagnostic.line

theorem Diagnostic.At.pointsInto
    (h : diagnostic.At ⟨unit.id, LineIndex.build unit.text⟩) : diagnostic.PointsInto unit := by
  obtain ⟨_, path, _, rfl⟩ := h
  exact ⟨rfl, LineIndex.lineOfText_lineOf _ path⟩

/-- What the first pass reports about a text that can be read points into it. -/
theorem Compiler.adds_registerUnit (compiler : Compiler) (unit : SourceUnit) :
    compiler.diagnostics.Adds
      (fun diagnostic => (∃ json, Json.parse unit.text = .ok json) → diagnostic.PointsInto unit)
      (compiler.registerUnit unit).diagnostics := by
  have hregistered := compiler.registerUnit_registration unit
  generalize compiler.registerUnit unit = after at hregistered ⊢
  cases hregistered with
  | refused _ _ hplace =>
      refine (DiagnosticBag.Adds.refl _ _).push fun hparse => ?_
      rcases hplace hparse with hat | ⟨hunit, hline⟩
      · exact hat.pointsInto
      · exact ⟨hunit, hline ▸ .first _⟩
  | kept => exact (adds_registerDeclarations ..).mono fun _ hat _ => hat.pointsInto

theorem SourceUnit.site_registered {registered : RegisteredUnit}
    (h : unit.registered? = some registered) :
    registered.site = ⟨unit.id, LineIndex.build unit.text⟩ := by
  obtain ⟨document, -, rfl⟩ := Option.map_eq_some_iff.1 h
  rfl

/-- A diagnostic of a compilation falls to one of its units. -/
theorem exists_reportedFor (hmem : diagnostic ∈ reportsOf (compileUnits units)) :
    ∃ unit ∈ units, ReportedFor units unit diagnostic := by
  have hfirst (hreported : diagnostic ∈ (firstPass units).diagnostics.toList) :
      ∃ unit ∈ units, ReportedFor units unit diagnostic := by
    rcases Compiler.exists_of_reported Compiler.adds_registerUnit hreported with
      hbefore | ⟨earlier, unit, later, hunits, hnew⟩
    · cases hbefore
    · exact ⟨unit, by simp [hunits], .registering hunits hnew⟩
  have hsecond (hclean : (firstPass units).diagnostics.hasErrors = false)
      (hreported : diagnostic ∈ (secondPass units).diagnostics.toList) :
      ∃ unit ∈ units, ReportedFor units unit diagnostic := by
    rcases Compiler.exists_of_reported (fun compiler (unit : RegisteredUnit) =>
        compiler.adds_compileDeclarations unit unit.declarations 0) hreported with
      hbefore | ⟨before, registered, after, hkept, hnew⟩
    · exact hfirst hbefore
    · rw [firstPass_units, List.filterMap_eq_append_iff] at hkept
      obtain ⟨first, rest, hunits, hbefore, hafter⟩ := hkept
      obtain ⟨skipped, unit, later, rfl, hskipped, hregistered, -⟩ :=
        List.filterMap_eq_cons_iff.1 hafter
      have hearlier : (first ++ skipped).filterMap SourceUnit.registered? = before := by
        rw [List.filterMap_append, hbefore, List.filterMap_eq_nil_iff.2 hskipped, List.append_nil]
      refine ⟨unit, by simp [hunits], .compiling (by rw [hunits, List.append_assoc]) hclean
        hregistered ?_⟩
      rw [secondPassOver, hearlier]
      exact hnew
  rw [compileUnits_eq] at hmem
  split at hmem
  next => exact hfirst hmem
  next hreported =>
    have hclean := Bool.not_eq_true _ ▸ hreported
    split at hmem <;> exact hsecond hclean hmem

/-- It points into the unit that it falls to. -/
theorem ReportedFor.pointsInto (h : ReportedFor units unit diagnostic)
    (hparse : ∃ json, Json.parse unit.text = .ok json) : diagnostic.PointsInto unit := by
  cases h with
  | registering hunits hnew =>
      exact Compiler.of_mem_reportedSince (Compiler.adds_registerUnit _ unit) hnew hparse
  | compiling hunits hclean hregistered hnew =>
      have hat := Compiler.of_mem_reportedSince (Compiler.adds_compileDeclarations _ _ 0) hnew
      exact (SourceUnit.site_registered hregistered ▸ hat).pointsInto

end Units

theorem ScanPoint.exists_passed {point : ScanPoint} {rest : List Char} (hmore : point.rest ≠ [])
    (h : rest <:+ point.rest.tail) : ∃ c passed, point.rest = c :: passed ++ rest := by
  obtain ⟨passed, hpassed⟩ := h
  obtain ⟨c, others, hrest⟩ := List.exists_cons_of_ne_nil hmore
  rw [hrest, List.tail_cons] at hpassed
  exact ⟨c, passed, by rw [hrest, ← hpassed, List.cons_append]⟩

/-- On every text all calls of the scanner end, they pass at least one character unless the text
has ended, and whatever a path leads to is a line of the text, since the way up from it ends. So
each diagnostic of a compilation falls to a unit, and if the text of that one can be read it
points into it. -/
theorem diagnostics_point_into_their_units :
    (∀ point : ScanPoint, point.Ends) ∧
    (∀ (path : SourcePath) (point after : ScanPoint), point.rest ≠ [] →
      ScansValue path point after ∨ ScansObject path point after ∨ ScansArray path point after →
      ∃ c passed, point.rest = c :: passed ++ after.rest) ∧
    (∀ text : String,
      (∃ after, ScansValue .root (ScanPoint.start text).skipBlank after ∧
        (LineIndex.build text).lines = after.lines) ∧
      (∀ (key : String) (line : Nat), (LineIndex.build text).lines[key]? = some line →
        LineOfText text line) ∧
      ∀ path, LineOfText text ((LineIndex.build text).lineOf path)) ∧
    (∀ path : SourcePath, path ≠ .root → path.parent.text.length < path.text.length) ∧
    ∀ (units : List SourceUnit) (diagnostic : Diagnostic),
      (diagnostic ∈ reportsOf (compileUnits units) →
        ∃ unit ∈ units, ReportedFor units unit diagnostic) ∧
      ∀ unit, ReportedFor units unit diagnostic → (∃ json, Json.parse unit.text = .ok json) →
        diagnostic.unit = unit.id ∧ LineOfText unit.text diagnostic.line := by
  refine ⟨ScanPoint.ends, fun path point after hmore hcall => ?_, fun text => ?_,
    fun path => SourcePath.length_parent_lt, fun units diagnostic => ⟨exists_reportedFor, ?_⟩⟩
  · refine ScanPoint.exists_passed hmore ?_
    rcases hcall with hvalue | hobject | harray
    · exact hvalue.passes
    · exact hobject.passes
    · exact harray.passes
  · exact ⟨exists_scan text, fun _ _ => LineIndex.lineOfText_of_recorded,
      LineIndex.lineOfText_lineOf text⟩
  · intro unit hfor hparse
    obtain ⟨hunit, hline⟩ := hfor.pointsInto hparse
    exact ⟨hunit, hline⟩

/-- A document whose functions are no list. -/
def listless : SourceUnit where
  id := "listless.json"
  text := "\x7b\n\"functions\": 0\n\x7d"

set_option maxRecDepth 100000 in
/-- What is wrong with the functions is reported on their line. -/
theorem listless_reported : ∃ diagnostic, diagnostic ∈ reportsOf (compileUnits [listless]) ∧
    diagnostic.line = 2 ∧ ReportedFor [listless] listless diagnostic ∧
    diagnostic.unit = "listless.json" ∧ LineOfText listless.text diagnostic.line := by
  have hparse : Json.parse listless.text = .ok (.object [("functions", .int 0)]) := by
    unfold Json.parse Json.Cursor.start listless
    simp only [String.reduceToList]
    rfl
  have hline : (LineIndex.build listless.text).lineOf (SourcePath.root.member "functions") = 2 := by
    decide +kernel
  obtain ⟨-, -, -, -, hreports⟩ := diagnostics_point_into_their_units
  let diagnostic := SourceSite.error ⟨listless.id, LineIndex.build listless.text⟩
    (SourcePath.root.member "functions") .noFunctions
  have hfirst : (firstPass [listless]).diagnostics = ⟨[diagnostic]⟩ := by
    simp only [firstPass, List.foldl_cons, List.foldl_nil, Compiler.registerUnit, hparse]
    rfl
  have hmem : diagnostic ∈ reportsOf (compileUnits [listless]) := by
    rw [compileUnits_eq, hfirst]
    exact List.mem_singleton_self _
  obtain ⟨unit, hunit, hfor⟩ := (hreports [listless] diagnostic).1 hmem
  cases List.mem_singleton.1 hunit
  obtain ⟨hid, htext⟩ := (hreports [listless] diagnostic).2 listless hfor ⟨_, hparse⟩
  exact ⟨diagnostic, hmem, hline, hfor, hid, htext⟩

end DocScript
